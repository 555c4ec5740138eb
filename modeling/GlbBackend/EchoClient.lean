import GlbBackend.RingBuffer

/-!
# The echo client

`echo_client` carries what it reads from the socket to the standard output through `cring`, and what it reads
from the standard input to the socket through `sring`.  A round is a `select` and the four statements behind it,
each under the descriptor set that `select` left.  What the system answers is data of the round: which descriptors
are ready, what every read returns and how many bytes every write takes.

The rings are the ring buffers of C: `add`, `dec` and `get` do to the queue what the functions of `RingBuffer` do
(`add_carries`, `dec_carries`, `get_carries`), and `resize` unrolls it (`resize_carries`).  Sizes are not bounded,
and memory is always there.  The messages go through stdio (those at the end of a stream are left out); `shown` has
the bytes that `write` took for the standard output.
-/

namespace GlbBackend

open Imperative

def BLOCKSIZE : ℕ := 4096

def INITRINGSIZE : ℕ := 512

/-- `ringcharbuff_t` -/
structure Ringcharbuff where
  h : ℤ
  size : ℤ
  used : ℤ
  data : Cells Char
  deriving DecidableEq, Repr

namespace Ringcharbuff

def init (size : ℕ) : Ringcharbuff := ⟨0, size, 0, List.replicate size none⟩

def free (r : Ringcharbuff) : ℤ := r.size - r.used

/-- The number of bytes and the caller's array. -/
def get (r : Ringcharbuff) (data : Cells Char) (nbytes : ℤ) : Except Fault (ℤ × Cells Char) :=
  let u := r.used
  let ri := r.h
  if r.size = 0 then pure (0, data)
  else do
    let (di, _, data) ← boundedLoop nbytes (copyStep r.data r.size) u.toNat 0 (ri, data)
    pure ((di : ℤ), data)

def add (r : Ringcharbuff) (data : Cells Char) (nbytes : ℤ) : Except Fault (ℤ × Ringcharbuff) :=
  let f := r.free
  if r.size = 0 then pure (0, r)
  else do
    let ri ← cmod (r.h + r.used) r.size
    let (di, _, rdata) ← boundedLoop nbytes (fillStep data r.size) f.toNat 0 (ri, r.data)
    pure ((di : ℤ), { r with data := rdata, used := r.used + di })

def dec (r : Ringcharbuff) (nbytes : ℤ) : Except Fault (ℤ × Ringcharbuff) :=
  let n := if nbytes < r.used then nbytes else r.used
  if r.size = 0 then pure (0, r)
  else do
    let h ← cmod (r.h + n) r.size
    pure (n, { r with h := h, used := r.used - n })

/-- The result, what is stored to `*err`, and the ring.  Of a ring of size 0 the pointer is cleared in the place of
the number behind it. -/
def resize (r : Ringcharbuff) (new_size : ℤ) : Except Fault (ℤ × Option ℤ × Ringcharbuff) :=
  if new_size < r.used then pure (0, some 1, r)
  else do
    let ndata ← newArray new_size
    if r.size = 0 then pure (1, none, { r with h := 0, size := new_size, data := ndata })
    else
      let (_, ndata) ← forLoop (copyStep r.data r.size) r.used.toNat 0 (r.h, ndata)
      pure (1, some 0, { r with h := 0, size := new_size, data := ndata })

/-- The bytes in ring order. -/
def content (r : Ringcharbuff) : Cells Char :=
  (List.range r.used.toNat).map fun j => (r.data[(r.h.toNat + j) % r.size.toNat]?).join

end Ringcharbuff

namespace EchoClient

inductive Ring
  | sring
  | cring
  deriving DecidableEq, Repr

/-- `increasing size of <ring> to <size>` -/
structure Message where
  ring : Ring
  size : ℤ
  deriving DecidableEq, Repr

/-- What `read` does: it stores at most `BLOCKSIZE` bytes (none at the end of the file), or fails. -/
inductive ReadResult
  | bytes (data : List Char) (fits : data.length ≤ BLOCKSIZE)
  | wouldBlock
  | failed

/-- What `write` does: it takes so many of the bytes offered, or all of them, or fails. -/
inductive WriteResult
  | takes (n : ℕ)
  | wouldBlock
  | failed

/-- The answers of the system in a round. -/
structure Round where
  stat : ℤ
  csReadable : Bool
  siReadable : Bool
  soWritable : Bool
  csWritable : Bool
  csRead : ReadResult
  siRead : ReadResult
  soWrite : WriteResult
  csWrite : WriteResult

/-- The variables of `echo_client`, the sets `rs` and `ws` by descriptor, and the streams: what was read from the
standard input and the socket, what was written to the socket and the standard output. -/
structure Client where
  sring : Ringcharbuff
  cring : Ringcharbuff
  block : Cells Char
  rs_cs : Bool
  rs_si : Bool
  ws_so : Bool
  ws_cs : Bool
  typed : List Char
  received : List Char
  sent : Cells Char
  shown : Cells Char
  messages : List Message

def start : Client :=
  ⟨.init INITRINGSIZE, .init INITRINGSIZE, List.replicate BLOCKSIZE none, false, false, false, false, [], [], [],
    [], []⟩

/-- `bytesr`, `eof`, the block and the bytes read. -/
def myread (result : ReadResult) (block : Cells Char) : ℤ × Bool × Cells Char × List Char :=
  match result with
  | .bytes data _ => (data.length, data.isEmpty, data.map some ++ block.drop data.length, data)
  | .wouldBlock => (0, false, block, [])
  | .failed => (-1, true, block, [])

/-- `bytesw`, `eof` and the bytes taken. -/
def mywrite (result : WriteResult) (block : Cells Char) (bytesr : ℤ) : ℤ × Bool × Cells Char :=
  match result with
  | .takes n => ((min n bytesr.toNat : ℕ), false, block.take (min n bytesr.toNat))
  | .wouldBlock => (0, false, [])
  | .failed => (0, true, [])

/-- `size = ringcharbuff_size(ring); size *= 2; printf(...); ringcharbuff_resize(ring, size, &err);` -/
def growStep (name : Ring) (s : Ringcharbuff × List Message) : Except Fault (Ringcharbuff × List Message) := do
  let size := s.1.size * 2
  let (_, _, ring) ← s.1.resize size
  pure (ring, s.2 ++ [⟨name, size⟩])

/-- `while (bytesr >= ringcharbuff_free(ring))`, for at most so many rounds. -/
def grow (name : Ring) (bytesr : ℤ) (fuel : ℕ) (s : Ringcharbuff × List Message) :
    Except Fault (Ringcharbuff × List Message) :=
  whileLoop .stuck (fun s => decide (s.1.free ≤ bytesr)) (growStep name) fuel s

/-- The statements that read into a ring; nothing after the end of the file. -/
def receive (name : Ring) (result : ReadResult) (ring : Ringcharbuff) (block : Cells Char)
    (messages : List Message) :
    Except Fault (Option (Ringcharbuff × List Message × List Char) × Cells Char) := do
  let (bytesr, eof, block, data) := myread result block
  if eof then pure (none, block)
  else
    let (ring, messages) ← grow name bytesr (bytesr.toNat + 2) (ring, messages)
    let (_, ring) ← ring.add block bytesr
    pure (some (ring, messages, data), block)

/-- The statements that write from a ring; nothing after a failure. -/
def deliver (result : WriteResult) (ring : Ringcharbuff) (block : Cells Char) :
    Except Fault (Option (Ringcharbuff × Cells Char) × Cells Char) := do
  let (bytesr, block) ← ring.get block BLOCKSIZE
  let (bytesw, eof, written) := mywrite result block bytesr
  if eof then pure (none, block)
  else
    let (_, ring) ← ring.dec bytesw
    pure (some (ring, written), block)

/-- The sets before and after `select`. -/
def select (round : Round) (c : Client) : Except Fault (Option ℤ × Client) :=
  pure (none, { c with
    rs_cs := round.csReadable, rs_si := round.siReadable
    ws_so := decide (c.cring.used > 0) && round.soWritable
    ws_cs := decide (c.sring.used > 0) && round.csWritable })

/-- `if(FD_ISSET(cs,&rs))` -/
def readSocket (round : Round) (c : Client) : Except Fault (Option ℤ × Client) :=
  if c.rs_cs then do
    match ← receive .cring round.csRead c.cring c.block c.messages with
    | (none, block) => pure (some (-1), { c with block := block })
    | (some (cring, messages, data), block) =>
        pure (none, { c with cring := cring, block := block, messages := messages, received := c.received ++ data })
  else pure (none, c)

/-- `if(FD_ISSET(si,&rs))` -/
def readInput (round : Round) (c : Client) : Except Fault (Option ℤ × Client) :=
  if c.rs_si then do
    match ← receive .sring round.siRead c.sring c.block c.messages with
    | (none, block) => pure (some (-1), { c with block := block })
    | (some (sring, messages, data), block) =>
        pure (none, { c with sring := sring, block := block, messages := messages, typed := c.typed ++ data })
  else pure (none, c)

/-- `if(FD_ISSET(so,&ws))` -/
def writeOutput (round : Round) (c : Client) : Except Fault (Option ℤ × Client) :=
  if c.ws_so then do
    match ← deliver round.soWrite c.cring c.block with
    | (none, block) => pure (some 0, { c with block := block })
    | (some (cring, written), block) =>
        pure (none, { c with cring := cring, block := block, shown := c.shown ++ written })
  else pure (none, c)

/-- `if(FD_ISSET(cs,&ws))` -/
def writeSocket (round : Round) (c : Client) : Except Fault (Option ℤ × Client) :=
  if c.ws_cs then do
    match ← deliver round.csWrite c.sring c.block with
    | (none, block) => pure (some 0, { c with block := block })
    | (some (sring, written), block) =>
        pure (none, { c with sring := sring, block := block, sent := c.sent ++ written })
  else pure (none, c)

/-- The statements of a round; a failed `select` starts the next one. -/
def Round.statements (round : Round) : List (Client → Except Fault (Option ℤ × Client)) :=
  if round.stat < 0 then []
  else [select round, readSocket round, readInput round, writeOutput round, writeSocket round]

/-- The states after each statement, and what the function returned, if it did. -/
def runStatements :
    List (Client → Except Fault (Option ℤ × Client)) → Client → Except Fault (List Client × Option ℤ)
  | [], _ => pure ([], none)
  | statement :: rest, c => do
      match ← statement c with
      | (some code, c) => pure ([c], some code)
      | (none, c) => do
          let (states, code) ← runStatements rest c
          pure (c :: states, code)

def echo_client (rounds : List Round) : Except Fault (List Client × Option ℤ) :=
  runStatements (rounds.flatMap Round.statements) start

/-! #### What the rounds bring -/

/-- The bytes that `read` stores. -/
def ReadResult.data : ReadResult → List Char
  | .bytes data _ => data
  | .wouldBlock => []
  | .failed => []

/-- What each statement of the round reads, from the standard input and from the socket. -/
def Round.reads (round : Round) : List (List Char × List Char) :=
  if round.stat < 0 then []
  else [([], []), ([], if round.csReadable then round.csRead.data else []),
    (if round.siReadable then round.siRead.data else [], []), ([], []), ([], [])]

/-- What the first statements have read, so many of them. -/
def readBy (reads : List (List Char × List Char)) (k : ℕ) : List Char × List Char :=
  ((reads.take k).flatMap Prod.fst, (reads.take k).flatMap Prod.snd)

end EchoClient

/-! ### The rings carry queues -/

namespace Ringcharbuff

/-- The ring carries the bytes, in their order; there is room for one at least. -/
structure Carries (r : Ringcharbuff) (q : List Char) : Prop where
  size : r.size = r.data.length
  used : r.used = q.length
  ring : ∃ h : ℕ, r.h = h ∧ h < r.data.length ∧ Holds r.data h q

/-- The ring as a buffer of the demonstration program. -/
def toRing (r : Ringcharbuff) : RingBuffer (Cells Char) := ⟨r.data, r.size, r.h, r.used⟩

def ofRing (b : RingBuffer (Cells Char)) : Ringcharbuff := ⟨b.h_idx, b.data_size, b.used, b.data⟩

variable {r : Ringcharbuff} {q : List Char}

theorem Carries.exists_eq (hr : r.Carries q) :
    ∃ (data : Cells Char) (h : ℕ), r = ⟨h, data.length, q.length, data⟩ ∧ h < data.length ∧ Holds data h q := by
  obtain ⟨hsize, hused, h, hh, hlt, hq⟩ := hr
  refine ⟨r.data, h, ?_, hlt, hq⟩
  rw [← hsize, ← hused, ← hh]

theorem Carries.bounds (hr : r.Carries q) : 0 ≤ r.used ∧ r.used ≤ r.size ∧ 0 ≤ r.h ∧ r.h < r.size := by
  obtain ⟨hsize, hused, h, hh, hlt, hq⟩ := hr
  have hfits := hq.fits
  omega

theorem Carries.content_eq (hr : r.Carries q) : r.content = q.map some := by
  obtain ⟨data, h, rfl, hlt, hq⟩ := hr.exists_eq
  refine List.ext_getElem? fun j => ?_
  rw [content, List.getElem?_map, List.getElem?_map]
  dsimp only
  rw [Int.toNat_natCast, Int.toNat_natCast, Int.toNat_natCast]
  rcases Nat.lt_or_ge j q.length with hj | hj
  · have hx : q[j]? = some q[j] := List.getElem?_eq_getElem hj
    rw [List.getElem?_range hj, hx, Option.map_some, hq.cell j _ hx]
    rfl
  · rw [List.getElem?_eq_none (by rw [List.length_range]; exact hj), List.getElem?_eq_none hj]
    rfl

theorem init_carries {size : ℕ} (hpos : 0 < size) : (init size).Carries [] where
  size := congrArg _ List.length_replicate.symm
  used := rfl
  ring := by
    have hlen : (init size).data.length = size := List.length_replicate
    exact ⟨0, rfl, by omega, Holds.nil (Or.inl rfl)⟩

theorem Carries.represents (hr : r.Carries q) :
    ∃ b : ByteQueue, b.capacity = r.data.length ∧ b.bytes = q ∧ r.toRing.Represents b := by
  obtain ⟨hsize, hused, h, hh, hlt, hq⟩ := hr
  exact ⟨⟨r.data.length, q, hq.fits⟩, rfl, rfl, hsize, rfl, hused, h, hh, hq⟩

theorem carries_of_represents {b : RingBuffer (Cells Char)} {q : ByteQueue} (hb : b.Represents q)
    (hpos : 0 < q.capacity) : (ofRing b).Carries q.bytes := by
  obtain ⟨hsize, hcap, hused, h, hh, hq⟩ := hb
  refine ⟨hsize, hused, h, hh, ?_, hq⟩
  have hlen : 0 < b.data.length := by omega
  rcases hq.head with rfl | hlt
  · exact hlen
  · exact hlt

theorem add_eq (hpos : 0 < r.size) (data : Cells Char) (nbytes : ℤ) :
    r.add data nbytes = (r.toRing.writeChars data nbytes).map fun s => (s.1, ofRing s.2) := by
  have hne : r.size ≠ 0 := by omega
  have hne' : r.toRing.data_size ≠ 0 := hne
  have hgt : ¬ r.toRing.data_size ≤ 0 := not_le.mpr hpos
  rw [add, if_neg hne, RingBuffer.writeChars, if_neg hne']
  show (cmod (r.h + r.used) r.size).bind _ = ((cmod (r.h + r.used) r.size).bind _).map _
  cases cmod (r.h + r.used) r.size with
  | error e => rfl
  | ok ri =>
      show _ = Except.map _ (if _ then _ else _)
      rw [if_neg hgt]
      show (boundedLoop nbytes (fillStep data r.size) (r.size - r.used).toNat 0 (ri, r.data)).bind _ =
        ((boundedLoop nbytes (fillStep data r.size) (r.size - r.used).toNat 0 (ri, r.data)).bind _).map _
      cases boundedLoop nbytes (fillStep data r.size) (r.size - r.used).toNat 0 (ri, r.data) with
      | error e => rfl
      | ok s => rfl

theorem dec_eq (hpos : 0 < r.size) (nbytes : ℤ) :
    r.dec nbytes = (r.toRing.dec nbytes).map fun s => (s.1, ofRing s.2) := by
  have hne : r.size ≠ 0 := by omega
  have hne' : r.toRing.data_size ≠ 0 := hne
  rw [dec, if_neg hne, RingBuffer.dec, if_neg hne']
  show (cmod (r.h + if nbytes < r.used then nbytes else r.used) r.size).bind _ =
    ((cmod (r.h + if nbytes < r.used then nbytes else r.used) r.size).bind _).map _
  cases cmod (r.h + if nbytes < r.used then nbytes else r.used) r.size with
  | error e => rfl
  | ok h => rfl

/-- `ringcharbuff_add` stores all the bytes when there is room for them. -/
theorem add_carries (hr : r.Carries q) {block : Cells Char} {data : List Char}
    (hblock : ∀ (j : ℕ) ch, data[j]? = some ch → block[j]? = some (some ch))
    (hroom : (data.length : ℤ) ≤ r.free) :
    ∃ r', r.add block data.length = .ok ((data.length : ℤ), r') ∧ r'.Carries (q ++ data) := by
  obtain ⟨b, hcap, hbytes, hb⟩ := hr.represents
  have hbounds := hr.bounds
  have hused := hr.used
  have hsize := hr.size
  rw [free] at hroom
  have hfree : data.length ≤ b.free := by
    rw [ByteQueue.free, hcap, hbytes]
    omega
  obtain ⟨b', hwrite, hb'⟩ := RingBuffer.writeChars_represents hb (Int.toNat_natCast data.length) hblock
  refine ⟨ofRing b', ?_, ?_⟩
  · rw [add_eq (by omega), hwrite, Nat.min_eq_left hfree]
    rfl
  · have hcarries := carries_of_represents hb' (show 0 < b.capacity by omega)
    have hresult : (b.write data).bytes = q ++ data := by
      rw [ByteQueue.write_bytes, hbytes, List.take_of_length_le hfree]
    rwa [hresult] at hcarries

theorem dec_carries (hr : r.Carries q) (n : ℕ) :
    ∃ r', r.dec n = .ok (((min n q.length : ℕ) : ℤ), r') ∧ r'.Carries (q.drop n) := by
  obtain ⟨b, hcap, hbytes, hb⟩ := hr.represents
  have hbounds := hr.bounds
  have hsize := hr.size
  obtain ⟨b', hdec, hb'⟩ := RingBuffer.dec_represents hb (Or.inl (Int.natCast_nonneg n))
  refine ⟨ofRing b', ?_, ?_⟩
  · rw [dec_eq (by omega), hdec, hbytes]
    rfl
  · have hcarries := carries_of_represents hb' (show 0 < b.capacity by omega)
    have hresult : (b.drop (n : ℤ).toNat).bytes = q.drop n := by
      rw [ByteQueue.drop_bytes, hbytes, Int.toNat_natCast]
    rwa [hresult] at hcarries

/-- `ringcharbuff_get` copies the oldest bytes and takes none off. -/
theorem get_carries (hr : r.Carries q) {block : Cells Char} {n : ℕ} (hblock : n ≤ block.length) :
    r.get block n = .ok (((min n q.length : ℕ) : ℤ), (q.take n).map some ++ block.drop (min n q.length)) := by
  obtain ⟨data, h, rfl, hlt, hq⟩ := hr.exists_eq
  obtain ⟨ri, hloop⟩ := copy_loop hq (Nat.min_le_right n q.length)
    (show 0 + min n q.length ≤ block.length by omega)
  have htake : q.take (min n q.length) = q.take n := by
    rw [← List.take_take, List.take_length]
  have hne : ¬ (data.length : ℤ) = 0 := by omega
  rw [List.take_zero, List.nil_append, Nat.zero_add, htake] at hloop
  rw [get, if_neg hne]
  dsimp only
  rw [Int.toNat_natCast, boundedLoop_eq (n := min n q.length) (by omega), hloop, Nat.zero_add]
  rfl

/-- `ringcharbuff_resize` to a size that is not smaller than the queue keeps it. -/
theorem resize_carries (hr : r.Carries q) {n : ℕ} (hpos : 0 < n) (hn : q.length ≤ n) :
    ∃ r', r.resize n = .ok (1, some 0, r') ∧ r'.Carries q ∧ r'.size = n := by
  obtain ⟨data, h, rfl, hlt, hq⟩ := hr.exists_eq
  obtain ⟨ri, hloop⟩ := unroll_loop hq hn
  have hne : ¬ (data.length : ℤ) = 0 := by omega
  have hlen : (q.map some ++ List.replicate (n - q.length) (none : Option Char)).length = n := by
    rw [List.length_append, List.length_map, List.length_replicate]
    omega
  refine ⟨⟨0, n, q.length, q.map some ++ List.replicate (n - q.length) none⟩, ?_,
    ⟨congrArg _ hlen.symm, rfl, 0, rfl, hlen.symm ▸ hpos, Holds.unrolled q _⟩, rfl⟩
  rw [resize, if_neg (by dsimp only; omega), newArray_natCast]
  show (if (data.length : ℤ) = 0 then _ else _) = _
  rw [if_neg hne]
  show (forLoop (copyStep data _) (q.length : ℤ).toNat 0 _).bind _ = _
  rw [Int.toNat_natCast, hloop]
  rfl

end Ringcharbuff

/-! ### What a statement does to the streams -/

namespace EchoClient

open Ringcharbuff

/-- The growth loop keeps the queue, and every round leaves more room. -/
theorem growStep_keeps {name : Ring} {q : List Char} {bytesr : ℤ} {s : Ringcharbuff × List Message}
    (hs : s.1.Carries q) (hcond : decide (s.1.free ≤ bytesr) = true) :
    ∃ s', growStep name s = .ok s' ∧ s'.1.Carries q ∧
      (bytesr + 1 - s'.1.free).toNat < (bytesr + 1 - s.1.free).toNat := by
  obtain ⟨r, messages⟩ := s
  change r.Carries q at hs
  have hle : r.free ≤ bytesr := of_decide_eq_true hcond
  have hbounds := hs.bounds
  have hused := hs.used
  obtain ⟨n, hn⟩ := Int.eq_ofNat_of_zero_le (show 0 ≤ r.size * 2 by omega)
  obtain ⟨r', hresize, hr', hsize⟩ := resize_carries hs (n := n) (by omega) (by omega)
  have hused' := hr'.used
  refine ⟨(r', messages ++ [⟨name, r.size * 2⟩]), ?_, hr', ?_⟩
  · rw [growStep]
    dsimp only
    rw [hn, hresize]
    rfl
  · show (bytesr + 1 - r'.free).toNat < (bytesr + 1 - r.free).toNat
    rw [free] at hle ⊢
    rw [free]
    omega

/-- **The growth loop ends, with room for more bytes than were read.**  More rounds are never needed. -/
theorem grow_carries (name : Ring) {r : Ringcharbuff} {q : List Char} (hr : r.Carries q) (n : ℕ)
    (messages : List Message) :
    ∃ r' messages', (∀ fuel, n + 2 ≤ fuel → grow name n fuel (r, messages) = .ok (r', messages')) ∧
      r'.Carries q ∧ (n : ℤ) < r'.free := by
  have hfree : 0 ≤ r.free := by
    have hbounds := hr.bounds
    rw [free]
    omega
  have hstart : (r, messages).1.Carries q := hr
  obtain ⟨⟨r', messages'⟩, hloop, hr', hend⟩ :=
    whileLoop_inv (fun s : Ringcharbuff × List Message => s.1.Carries q) (fun s => (n + 1 - s.1.free).toNat)
      (fun _ => growStep_keeps) hstart (show ((n : ℤ) + 1 - r.free).toNat < n + 2 by omega)
  exact ⟨r', messages', fun fuel hfuel => whileLoop_mono hloop hfuel, hr',
    not_le.mp (of_decide_eq_false hend)⟩

/-- After the growth loop `ringcharbuff_add` stores every byte that was read. -/
theorem grow_add (name : Ring) {r : Ringcharbuff} {q : List Char} (hr : r.Carries q) (data : List Char)
    {block : Cells Char} (hblock : ∀ (j : ℕ) ch, data[j]? = some ch → block[j]? = some (some ch))
    (messages : List Message) :
    ∃ r' messages' r'',
      (∀ fuel, data.length + 2 ≤ fuel → grow name data.length fuel (r, messages) = .ok (r', messages')) ∧
      r'.add block data.length = .ok ((data.length : ℤ), r'') ∧ r''.Carries (q ++ data) := by
  obtain ⟨r', messages', hgrow, hr', hroom⟩ := grow_carries name hr data.length messages
  obtain ⟨r'', hadd, hr''⟩ := add_carries hr' hblock (Int.le_of_lt hroom)
  exact ⟨r', messages', r'', hgrow, hadd, hr''⟩

/-- What is read comes behind the queue of the ring. -/
theorem receive_carries (name : Ring) (result : ReadResult) {r : Ringcharbuff} {q : List Char}
    (hr : r.Carries q) {block : Cells Char} (hblock : block.length = BLOCKSIZE) (messages : List Message) :
    ∃ out block', receive name result r block messages = .ok (out, block') ∧ block'.length = BLOCKSIZE ∧
      (out.map fun o => o.2.2).getD [] = result.data ∧
      ∀ r' messages' data, out = some (r', messages', data) → r'.Carries (q ++ data) := by
  have hgrown : ∀ (data : List Char) (block' : Cells Char),
      (∀ (j : ℕ) ch, data[j]? = some ch → block'[j]? = some (some ch)) →
      ∃ r' messages', (do
        let (ring, messages) ← grow name data.length (((data.length : ℕ) : ℤ).toNat + 2) (r, messages)
        let (_, ring) ← ring.add block' data.length
        pure (some (ring, messages, data), block')) = Except.ok (some (r', messages', data), block') ∧
        r'.Carries (q ++ data) := by
    intro data block' hstored
    obtain ⟨r', messages', r'', hgrow, hadd, hr''⟩ := grow_add name hr data hstored messages
    refine ⟨r'', messages', ?_, hr''⟩
    rw [hgrow _ (by omega)]
    show ((r'.add block' data.length).bind _) = _
    rw [hadd]
    rfl
  cases result with
  | failed =>
      exact ⟨none, block, rfl, hblock, rfl, fun _ _ _ h => by cases h⟩
  | wouldBlock =>
      obtain ⟨r', messages', hcall, hr'⟩ := hgrown [] block fun j ch hch => by cases hch
      refine ⟨some (r', messages', []), block, hcall, hblock, rfl, fun _ _ _ h => ?_⟩
      cases h
      exact hr'
  | bytes data fits =>
      have hlen : (data.map some ++ block.drop data.length).length = BLOCKSIZE := by
        rw [List.length_append, List.length_map, List.length_drop, hblock]
        omega
      cases data with
      | nil => exact ⟨none, _, rfl, hlen, rfl, fun _ _ _ h => by cases h⟩
      | cons ch rest =>
          obtain ⟨r', messages', hcall, hr'⟩ := hgrown (ch :: rest) _ fun _ _ => getElem?_stored _
          refine ⟨some (r', messages', ch :: rest), _, hcall, hlen, rfl, fun _ _ _ h => ?_⟩
          cases h
          exact hr'

/-- What is written leaves the head of the queue. -/
theorem deliver_carries (result : WriteResult) {r : Ringcharbuff} {q : List Char} (hr : r.Carries q)
    {block : Cells Char} (hblock : block.length = BLOCKSIZE) :
    ∃ out block', deliver result r block = .ok (out, block') ∧ block'.length = BLOCKSIZE ∧
      ∀ r' written, out = some (r', written) →
        ∃ q', r'.Carries q' ∧ q.map some = written ++ q'.map some := by
  have hget := get_carries hr (n := BLOCKSIZE) (Nat.le_of_eq hblock.symm)
  let block' : Cells Char := (q.take BLOCKSIZE).map some ++ block.drop (min BLOCKSIZE q.length)
  have hlen : block'.length = BLOCKSIZE := by
    rw [List.length_append, List.length_map, List.length_take, List.length_drop, hblock]
    omega
  cases result with
  | failed =>
      refine ⟨none, block', ?_, hlen, fun _ _ h => by cases h⟩
      rw [deliver, hget]
      rfl
  | wouldBlock =>
      obtain ⟨r', hdec, hr'⟩ := dec_carries hr 0
      refine ⟨some (r', []), block', ?_, hlen, fun _ _ h => ?_⟩
      · rw [deliver, hget]
        show ((r.dec ((0 : ℕ) : ℤ)).bind _) = _
        rw [hdec]
        rfl
      · cases h
        exact ⟨q.drop 0, hr', rfl⟩
  | takes n =>
      let k := min n (min BLOCKSIZE q.length)
      obtain ⟨r', hdec, hr'⟩ := dec_carries hr k
      refine ⟨some (r', block'.take k), block', ?_, hlen, fun _ _ h => ?_⟩
      · rw [deliver, hget]
        show ((r.dec (k : ℤ)).bind _) = _
        rw [hdec]
        rfl
      · cases h
        refine ⟨q.drop k, hr', ?_⟩
        have htake : block'.take k = (q.take k).map some := by
          rw [List.take_append_of_le_length (by rw [List.length_map, List.length_take]; omega),
            ← List.map_take, List.take_take, Nat.min_eq_left (by omega)]
        rw [htake, ← List.map_append, List.take_append_drop]

/-! ### Rounds -/

/-- What was read and not yet written is what the ring carries. -/
def Relays (r : Ringcharbuff) (read : List Char) (written : Cells Char) : Prop :=
  ∃ q, r.Carries q ∧ read.map some = written ++ q.map some

structure Client.Inv (c : Client) : Prop where
  block : c.block.length = BLOCKSIZE
  output : Relays c.cring c.received c.shown
  input : Relays c.sring c.typed c.sent

theorem receive_relays (name : Ring) (result : ReadResult) {r : Ringcharbuff} {read : List Char}
    {written : Cells Char} (h : Relays r read written) {block : Cells Char} (hblock : block.length = BLOCKSIZE)
    (messages : List Message) :
    ∃ out block', receive name result r block messages = .ok (out, block') ∧ block'.length = BLOCKSIZE ∧
      (out.map fun o => o.2.2).getD [] = result.data ∧
      ∀ r' messages' data, out = some (r', messages', data) → Relays r' (read ++ data) written := by
  obtain ⟨q, hr, hread⟩ := h
  obtain ⟨out, block', hcall, hblock', hdata, hcarries⟩ := receive_carries name result hr hblock messages
  refine ⟨out, block', hcall, hblock', hdata, fun r' messages' data hout => ?_⟩
  refine ⟨q ++ data, hcarries r' messages' data hout, ?_⟩
  rw [List.map_append, List.map_append, hread, List.append_assoc]

theorem deliver_relays (result : WriteResult) {r : Ringcharbuff} {read : List Char} {written : Cells Char}
    (h : Relays r read written) {block : Cells Char} (hblock : block.length = BLOCKSIZE) :
    ∃ out block', deliver result r block = .ok (out, block') ∧ block'.length = BLOCKSIZE ∧
      ∀ r' taken, out = some (r', taken) → Relays r' read (written ++ taken) := by
  obtain ⟨q, hr, hread⟩ := h
  obtain ⟨out, block', hcall, hblock', hcarries⟩ := deliver_carries result hr hblock
  refine ⟨out, block', hcall, hblock', fun r' taken hout => ?_⟩
  obtain ⟨q', hr', hq⟩ := hcarries r' taken hout
  refine ⟨q', hr', ?_⟩
  rw [List.append_assoc, ← hq, hread]

theorem start_inv : start.Inv where
  block := List.length_replicate
  output := ⟨[], init_carries (by decide), rfl⟩
  input := ⟨[], init_carries (by decide), rfl⟩

/-- `select` has left the sets of the round. -/
def Selected (round : Round) (c : Client) : Prop := c.rs_cs = round.csReadable ∧ c.rs_si = round.siReadable

/-- The statement of the round ends, the streams are as they should be, and this is what it has read. -/
def Reads (round : Round) (statement : Client → Except Fault (Option ℤ × Client)) (read : List Char × List Char)
    (c : Client) : Prop :=
  ∃ code c', statement c = .ok (code, c') ∧ c'.Inv ∧ Selected round c' ∧ c'.typed = c.typed ++ read.1 ∧
    c'.received = c.received ++ read.2

section Statements

variable {round : Round} {c : Client} (hc : c.Inv)
include hc

theorem select_reads : Reads round (select round) ([], []) c :=
  ⟨none, _, rfl, ⟨hc.block, hc.output, hc.input⟩, ⟨rfl, rfl⟩, (List.append_nil _).symm, (List.append_nil _).symm⟩

variable (hselected : Selected round c)
include hselected

theorem readSocket_reads :
    Reads round (readSocket round) ([], if round.csReadable then round.csRead.data else []) c := by
  rw [Reads, readSocket, ← hselected.1]
  split_ifs
  · obtain ⟨out, block', hcall, hblock, hdata, hrelays⟩ :=
      receive_relays .cring round.csRead hc.output hc.block c.messages
    rw [hcall, ← hdata]
    cases out with
    | none =>
        exact ⟨some (-1), _, rfl, ⟨hblock, hc.output, hc.input⟩, hselected, (List.append_nil _).symm,
          (List.append_nil _).symm⟩
    | some out =>
        exact ⟨none, _, rfl, ⟨hblock, hrelays _ _ _ rfl, hc.input⟩, hselected, (List.append_nil _).symm, rfl⟩
  · exact ⟨none, c, rfl, hc, hselected, (List.append_nil _).symm, (List.append_nil _).symm⟩

theorem readInput_reads :
    Reads round (readInput round) (if round.siReadable then round.siRead.data else [], []) c := by
  rw [Reads, readInput, ← hselected.2]
  split_ifs
  · obtain ⟨out, block', hcall, hblock, hdata, hrelays⟩ :=
      receive_relays .sring round.siRead hc.input hc.block c.messages
    rw [hcall, ← hdata]
    cases out with
    | none =>
        exact ⟨some (-1), _, rfl, ⟨hblock, hc.output, hc.input⟩, hselected, (List.append_nil _).symm,
          (List.append_nil _).symm⟩
    | some out =>
        exact ⟨none, _, rfl, ⟨hblock, hc.output, hrelays _ _ _ rfl⟩, hselected, rfl, (List.append_nil _).symm⟩
  · exact ⟨none, c, rfl, hc, hselected, (List.append_nil _).symm, (List.append_nil _).symm⟩

theorem writeOutput_reads : Reads round (writeOutput round) ([], []) c := by
  rw [Reads, writeOutput, List.append_nil, List.append_nil]
  split_ifs
  · obtain ⟨out, block', hcall, hblock, hrelays⟩ := deliver_relays round.soWrite hc.output hc.block
    rw [hcall]
    cases out with
    | none => exact ⟨some 0, _, rfl, ⟨hblock, hc.output, hc.input⟩, hselected, rfl, rfl⟩
    | some out => exact ⟨none, _, rfl, ⟨hblock, hrelays _ _ rfl, hc.input⟩, hselected, rfl, rfl⟩
  · exact ⟨none, c, rfl, hc, hselected, rfl, rfl⟩

theorem writeSocket_reads : Reads round (writeSocket round) ([], []) c := by
  rw [Reads, writeSocket, List.append_nil, List.append_nil]
  split_ifs
  · obtain ⟨out, block', hcall, hblock, hrelays⟩ := deliver_relays round.csWrite hc.input hc.block
    rw [hcall]
    cases out with
    | none => exact ⟨some 0, _, rfl, ⟨hblock, hc.output, hc.input⟩, hselected, rfl, rfl⟩
    | some out => exact ⟨none, _, rfl, ⟨hblock, hc.output, hrelays _ _ rfl⟩, hselected, rfl, rfl⟩
  · exact ⟨none, c, rfl, hc, hselected, rfl, rfl⟩

end Statements

/-- A run of statements: they all are run unless the function returns, and each state has read what the statements up
to it read. -/
structure Runs (statements : List (Client → Except Fault (Option ℤ × Client))) (reads : List (List Char × List Char))
    (c : Client) (states : List Client) (code : Option ℤ) : Prop where
  run : runStatements statements c = .ok (states, code)
  le : states.length ≤ statements.length
  all : code = none → states.length = statements.length
  holds : ∀ k c', states[k]? = some c' → c'.Inv ∧ c'.typed = c.typed ++ (readBy reads (k + 1)).1 ∧
    c'.received = c.received ++ (readBy reads (k + 1)).2

/-- One statement more. -/
theorem Reads.runs {round : Round} {statement : Client → Except Fault (Option ℤ × Client)}
    {read : List Char × List Char} {c : Client} (h : Reads round statement read c)
    {statements : List (Client → Except Fault (Option ℤ × Client))} {reads : List (List Char × List Char)}
    (hrest : ∀ c' : Client, c'.Inv → Selected round c' → ∃ states code, Runs statements reads c' states code) :
    ∃ states code, Runs (statement :: statements) (read :: reads) c states code := by
  obtain ⟨code, c₁, hstep, hc₁, hselected, htyped, hreceived⟩ := h
  have hfirst : c₁.typed = c.typed ++ (readBy (read :: reads) 1).1 ∧
      c₁.received = c.received ++ (readBy (read :: reads) 1).2 := by
    simp [readBy, htyped, hreceived]
  cases code with
  | some code =>
      refine ⟨[c₁], some code, ?_, Nat.succ_le_succ (Nat.zero_le _), fun hnone => (by cases hnone),
        fun k c' hk => ?_⟩
      · rw [runStatements, hstep]
        rfl
      · cases k with
        | zero =>
            cases hk
            exact ⟨hc₁, hfirst⟩
        | succ k => cases hk
  | none =>
      obtain ⟨states, code, hruns⟩ := hrest c₁ hc₁ hselected
      refine ⟨c₁ :: states, code, ?_, Nat.succ_le_succ hruns.le, fun hnone => congrArg (· + 1) (hruns.all hnone),
        fun k c' hk => ?_⟩
      · rw [runStatements, hstep]
        show (runStatements statements c₁).bind _ = _
        rw [hruns.run]
        rfl
      · cases k with
        | zero =>
            cases hk
            exact ⟨hc₁, hfirst⟩
        | succ k =>
            obtain ⟨hc', htyped', hreceived'⟩ := hruns.holds k c' hk
            refine ⟨hc', ?_, ?_⟩
            · rw [htyped', htyped, List.append_assoc]
              rfl
            · rw [hreceived', hreceived, List.append_assoc]
              rfl

/-- The rounds run, and read what they bring. -/
theorem rounds_run (rounds : List Round) {c : Client} (hc : c.Inv) :
    ∃ states code, Runs (rounds.flatMap Round.statements) (rounds.flatMap Round.reads) c states code := by
  induction rounds generalizing c with
  | nil => exact ⟨[], none, rfl, Nat.le_refl _, fun _ => rfl, fun k c' hk => by cases hk⟩
  | cons round rounds ih =>
      rw [List.flatMap_cons, List.flatMap_cons, Round.statements, Round.reads]
      by_cases hstat : round.stat < 0
      · rw [if_pos hstat, if_pos hstat]
        exact ih hc
      · rw [if_neg hstat, if_neg hstat]
        refine (select_reads hc).runs fun c₁ hc₁ h₁ => (readSocket_reads hc₁ h₁).runs fun c₂ hc₂ h₂ => ?_
        refine (readInput_reads hc₂ h₂).runs fun c₃ hc₃ h₃ => (writeOutput_reads hc₃ h₃).runs fun c₄ hc₄ h₄ => ?_
        exact (writeSocket_reads hc₄ h₄).runs fun c₅ hc₅ _ => ih hc₅

/-- The ring is in order, what was written is a prefix of what was read, and the rest is its content. -/
def InOrder (r : Ringcharbuff) (read : List Char) (written : Cells Char) : Prop :=
  (0 ≤ r.used ∧ r.used ≤ r.size ∧ 0 ≤ r.h ∧ r.h < r.size) ∧ read.map some = written ++ r.content

/-- The next bytes read, however many rounds the growth loop is given beyond their number and two, find room and
are stored, all of them. -/
def StoresNext (name : Ring) (r : Ringcharbuff) (messages : List Message) : Prop :=
  ∀ (data : List Char) (rest : Cells Char), ∃ r' messages' r'',
    (∀ fuel, data.length + 2 ≤ fuel → grow name data.length fuel (r, messages) = .ok (r', messages')) ∧
    r'.add (data.map some ++ rest) data.length = .ok ((data.length : ℤ), r'')

theorem Relays.inOrder {r : Ringcharbuff} {read : List Char} {written : Cells Char} (h : Relays r read written) :
    InOrder r read written := by
  obtain ⟨q, hr, hread⟩ := h
  refine ⟨hr.bounds, ?_⟩
  rw [hr.content_eq, hread]

theorem Relays.storesNext {r : Ringcharbuff} {read : List Char} {written : Cells Char}
    (h : Relays r read written) (name : Ring) (messages : List Message) : StoresNext name r messages := by
  obtain ⟨q, hr, -⟩ := h
  intro data rest
  obtain ⟨r', messages', r'', hgrow, hadd, -⟩ := grow_add name hr data (fun _ _ => getElem?_stored rest) messages
  exact ⟨r', messages', r'', hgrow, hadd⟩

/-- **The echo client loses, repeats and reorders nothing**, whatever the rounds are and the system answers.  There is a
state for each statement of the rounds, up to the one that returns; by then what was read is what the rounds have
brought so far. -/
theorem echo_client_relays (rounds : List Round) :
    ∃ states code, echo_client rounds = .ok (states, code) ∧
      states.length ≤ (rounds.flatMap Round.statements).length ∧
      (code = none → states.length = (rounds.flatMap Round.statements).length) ∧
      ∀ k c, (start :: states)[k]? = some c →
        (c.typed, c.received) = readBy (rounds.flatMap Round.reads) k ∧
        InOrder c.sring c.typed c.sent ∧ InOrder c.cring c.received c.shown ∧
        StoresNext .sring c.sring c.messages ∧ StoresNext .cring c.cring c.messages := by
  obtain ⟨states, code, hruns⟩ := rounds_run rounds start_inv
  refine ⟨states, code, hruns.run, hruns.le, hruns.all, fun k c hk => ?_⟩
  have hc : c.Inv ∧ (c.typed, c.received) = readBy (rounds.flatMap Round.reads) k := by
    cases k with
    | zero =>
        cases hk
        exact ⟨start_inv, rfl⟩
    | succ k =>
        obtain ⟨hinv, htyped, hreceived⟩ := hruns.holds k c hk
        exact ⟨hinv, Prod.ext htyped hreceived⟩
  exact ⟨hc.2, hc.1.input.inOrder, hc.1.output.inOrder, hc.1.input.storesNext .sring _,
    hc.1.output.storesNext .cring _⟩

end EchoClient

end GlbBackend
