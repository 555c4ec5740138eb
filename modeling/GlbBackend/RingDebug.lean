import GlbBackend.BitArray
import GlbBackend.RingRefinement

/-!
# What `debug_str` shows of a ring buffer

`debug_str(true)` marks the cells in use in a `BitArray` and writes a row for every cell, with the byte in it if the
cell is marked.  It looks at the other cells as well; what a cell that was never written happens to hold is a parameter
(`junk`), and so are the addresses in the last line.

The rows are those of the queue (`debug_str_represents`): the text does not depend on what the cells not in use hold.
-/

namespace GlbBackend

open Text Imperative

namespace RingBuffer

open BitArray (Trap nothrow)

/-- `std::setw(width)` before a text. -/
def setw (width : ℕ) (s : Str) : Str := List.leftpad width ' ' s

/-- `strRepr` -/
def strRepr (ch : Char) : Str := if ch = '\n' then "\\n".toList else [ch]

/-- `ba.setBit(th, 1); th = (th + 1) % ds;` -/
def markStep (ds : ℤ) (_tu : ℕ) (s : ℤ × BitArray) : Except Trap (ℤ × BitArray) := do
  let ba ← s.2.setBit s.1 1
  let th ← nothrow (cmod (s.1 + 1) ds)
  pure (th, ba)

/-- The row of cell `i`. -/
def rowStep (data : Cells Char) (junk : ℕ → Char) (ba : BitArray) (i : ℕ) (os : Str) : Except Trap Str := do
  let c ← nothrow (peek data i)
  let ch := c.getD (junk i)
  let os := os ++ "rb[".toList ++ setw 4 (decimal i) ++ "]= ".toList
  let bit ← ba.getBit i
  let os := if bit = 1 then os ++ strRepr ch ++ " *".toList else os
  pure (os ++ ['\n'])

/-- `free_size()` -/
def free_size {δ : Type} (b : RingBuffer δ) : ℤ := b.data_size - b.used

/-- The last line. -/
def lastLine {δ : Type} (b : RingBuffer δ) (data_at : Str) (use_count : ℤ) (this_at : Str) : Str :=
  "\x7b\x7bused=".toList ++ decimal b.used ++ " free=".toList ++ decimal b.free_size ++ " h_idx=".toList
    ++ decimal b.h_idx ++ " data@".toList ++ data_at ++ " data usecount=".toList ++ decimal use_count
    ++ " this=".toList ++ this_at ++ "\x7d\n".toList

def debug_str (b : RingBuffer (Cells Char)) (showBuffer : Bool) (junk : ℕ → Char) (data_at : Str) (use_count : ℤ)
    (this_at : Str) : Except Trap Str :=
  if showBuffer then do
    let ba ← BitArray.construct b.data_size
    let (_, ba) ← forLoop (markStep b.data_size) b.used.toNat 0 (b.h_idx, ba)
    let os ← forLoop (rowStep b.data junk ba) b.data_size.toNat 0 []
    pure (os ++ b.lastLine data_at use_count this_at)
  else pure (b.lastLine data_at use_count this_at)

/-! ### The rows of a queue -/

/-- How far behind the head a cell is. -/
def slot (h size i : ℕ) : ℕ := (i + (size - h)) % size

theorem slot_eq_iff {h size i j : ℕ} (hh : h < size) (hi : i < size) (hj : j < size) :
    slot h size i = j ↔ i = (h + j) % size := by
  rw [slot]
  constructor
  · rintro rfl
    rw [Nat.add_mod_mod, show h + (i + (size - h)) = i + size by omega, Nat.add_mod_right, Nat.mod_eq_of_lt hi]
  · rintro rfl
    rw [Nat.mod_add_mod, show h + j + (size - h) = j + size by omega, Nat.add_mod_right, Nat.mod_eq_of_lt hj]

/-- The row of a cell in a buffer for the queue whose head is at cell `h`. -/
def row (q : ByteQueue) (h i : ℕ) : Str :=
  "rb[".toList ++ setw 4 (decimal i) ++ "]= ".toList
    ++ ((q.bytes[slot h q.capacity i]?.map fun ch => strRepr ch ++ " *".toList).getD []) ++ ['\n']

/-- After `n` rounds the first `n` cells behind the head are marked. -/
def Marked (h size n : ℕ) (s : ℤ × BitArray) : Prop :=
  s.1 = ((h + n) % size : ℕ) ∧ ∃ b : Bits, s.2 = b.toArray ∧ b.size = size ∧
    ∀ i < size, b.get i = decide (slot h size i < n)

theorem markStep_marked {h size n : ℕ} {s : ℤ × BitArray} (hh : h < size) (hn : n < size) (hs : Marked h size n s) :
    ∃ s', markStep size n s = .ok s' ∧ Marked h size (n + 1) s' := by
  obtain ⟨th, ba⟩ := s
  obtain ⟨rfl, b, rfl, hsize, hget⟩ := hs
  have hlt : (h + n) % size < b.size := by
    rw [hsize]
    exact Nat.mod_lt _ (by omega)
  refine ⟨(((h + (n + 1)) % size : ℕ), (b.set ((h + n) % size) true).toArray), ?_, rfl, _, rfl, hsize, fun i hi => ?_⟩
  · rw [markStep, BitArray.setBit_in b 1 hlt]
    show (nothrow (cmod ((((h + n) % size : ℕ) : ℤ) + 1) size)).bind _ = _
    rw [cmod_succ _ (by omega), Nat.mod_add_mod]
    rfl
  · have hslot := slot_eq_iff hh hi hn
    rw [Bits.get_set hlt, hget i hi]
    split_ifs with h'
    · exact (decide_eq_true (by have := hslot.mpr h'; omega)).symm
    · refine decide_eq_decide.mpr ?_
      have hne : slot h size i ≠ n := fun heq => h' (hslot.mp heq)
      omega

/-- The marking loop marks the cells under the queue. -/
theorem mark_loop {h size n : ℕ} (hh : n = 0 ∨ h < size) (hn : n ≤ size) :
    ∃ th b, forLoop (markStep size) n 0 ((h : ℤ), (Bits.fresh size).toArray) = .ok (th, Bits.toArray b) ∧
      b.size = size ∧ ∀ i < size, b.get i = decide (slot h size i < n) := by
  rcases Nat.eq_zero_or_pos n with rfl | hpos
  · refine ⟨h, Bits.fresh size, rfl, rfl, fun i _ => ?_⟩
    simp [Bits.get, Bits.fresh]
  · have hlt : h < size := by omega
    have hstart : Marked h size 0 ((h : ℤ), (Bits.fresh size).toArray) := by
      refine ⟨by rw [Nat.add_zero, Nat.mod_eq_of_lt hlt], _, rfl, rfl, fun i _ => ?_⟩
      simp [Bits.get, Bits.fresh]
    have hstep : ∀ i s, 0 ≤ i → i < 0 + n → Marked h size i s →
        ∃ s', markStep size i s = .ok s' ∧ Marked h size (i + 1) s' :=
      fun i s _ hi hs => markStep_marked hlt (by omega) hs
    obtain ⟨⟨th, ba⟩, hloop, -, b, rfl, hsize, hget⟩ := forLoop_inv (Marked h size) hstart hstep
    rw [Nat.zero_add] at hget
    exact ⟨th, b, hloop, hsize, hget⟩

variable {b : RingBuffer (Cells Char)} {q : ByteQueue}

theorem rowStep_row {data : Cells Char} {h : ℕ} {bits : Bits} (hq : Holds data h q.bytes)
    (hcap : data.length = q.capacity) (hsize : bits.size = q.capacity)
    (hget : ∀ i < q.capacity, bits.get i = decide (slot h q.capacity i < q.bytes.length)) (junk : ℕ → Char) {i : ℕ}
    (hi : i < q.capacity) (os : Str) :
    rowStep data junk bits.toArray i os = .ok (os ++ row q h i) := by
  have hfits := bits.fits
  have hh : h < q.capacity := by
    have := hq.head
    omega
  have hbit : bits.toArray.getBit i = .ok (((decide (slot h q.capacity i < q.bytes.length)).toNat : ℕ) : ℤ) := by
    rw [BitArray.getBit_in bits (by omega) (by omega), hget i hi]
  obtain ⟨c, hc⟩ : ∃ c, data[i]? = some c := ⟨_, List.getElem?_eq_getElem (by omega)⟩
  rw [rowStep, peek_of_getElem? hc]
  show (bits.toArray.getBit i).bind _ = _
  rw [hbit, row]
  show Except.ok _ = Except.ok _
  refine congrArg Except.ok ?_
  by_cases hlt : slot h q.capacity i < q.bytes.length
  · have hcell : data[i]? = some (some q.bytes[slot h q.capacity i]) := by
      have hslot := hq.cell _ _ (List.getElem?_eq_getElem hlt)
      have hmod := (slot_eq_iff hh hi (j := slot h q.capacity i) (Nat.mod_lt _ (by omega))).mp rfl
      rwa [hcap, ← hmod] at hslot
    rw [hc] at hcell
    cases hcell
    rw [decide_eq_true hlt, List.getElem?_eq_getElem hlt]
    simp
  · rw [decide_eq_false hlt, List.getElem?_eq_none (by omega)]
    simp

/-- **`debug_str(true)` shows the queue**: a row for every cell, with its byte and a mark if it is under the queue. -/
theorem debug_str_represents (hb : b.Represents q) (junk : ℕ → Char) (data_at : Str) (use_count : ℤ) (this_at : Str) :
    b.debug_str true junk data_at use_count this_at =
      .ok ((List.range q.capacity).flatMap (row q b.h_idx.toNat) ++ b.lastLine data_at use_count this_at) := by
  obtain ⟨data, h, rfl, hcap, hq⟩ := hb.exists_eq
  have hfits := q.fits
  obtain ⟨th, bits, hmark, hsize, hget⟩ :=
    mark_loop (show q.bytes.length = 0 ∨ h < q.capacity by have := hq.head; omega) hfits
  have hrows : forLoop (rowStep data junk bits.toArray) q.capacity 0 [] =
      .ok ((List.range q.capacity).flatMap (row q h)) := by
    have hstep : ∀ i os, 0 ≤ i → i < 0 + q.capacity → os = (List.range i).flatMap (row q h) →
        ∃ os', rowStep data junk bits.toArray i os = .ok os' ∧ os' = (List.range (i + 1)).flatMap (row q h) := by
      rintro i os - hi rfl
      refine ⟨_, rowStep_row hq hcap hsize hget junk (by omega) _, ?_⟩
      rw [List.range_succ, List.flatMap_append, List.flatMap_singleton]
    obtain ⟨os, hloop, hos⟩ := forLoop_inv (fun i os => os = (List.range i).flatMap (row q h)) rfl hstep
    rw [Nat.zero_add] at hos
    rw [← hos]
    exact hloop
  rw [debug_str, if_pos rfl]
  dsimp only
  rw [hcap, BitArray.construct_eq]
  show (forLoop (markStep q.capacity) ((q.bytes.length : ℕ) : ℤ).toNat 0
    ((h : ℤ), (Bits.fresh q.capacity).toArray)).bind _ = _
  rw [Int.toNat_natCast, hmark]
  show (forLoop (rowStep data junk bits.toArray) ((q.capacity : ℕ) : ℤ).toNat 0 []).bind _ = _
  rw [Int.toNat_natCast, Int.toNat_natCast, hrows]
  rfl

/-- The last line for a queue whose head is at cell `h`. -/
def summary (q : ByteQueue) (h : ℕ) (data_at : Str) (use_count : ℤ) (this_at : Str) : Str :=
  "\x7b\x7bused=".toList ++ decimal q.bytes.length ++ " free=".toList ++ decimal q.free ++ " h_idx=".toList
    ++ decimal h ++ " data@".toList ++ data_at ++ " data usecount=".toList ++ decimal use_count
    ++ " this=".toList ++ this_at ++ "\x7d\n".toList

theorem lastLine_represents (hb : b.Represents q) (data_at : Str) (use_count : ℤ) (this_at : Str) :
    b.lastLine data_at use_count this_at = summary q b.h_idx.toNat data_at use_count this_at := by
  obtain ⟨data, h, rfl, hcap, hq⟩ := hb.exists_eq
  have hfits := q.fits
  have hfree : (data.length : ℤ) - q.bytes.length = (q.free : ℕ) := by
    rw [ByteQueue.free, hcap]
    omega
  unfold lastLine summary free_size
  dsimp only
  rw [hfree, Int.toNat_natCast]

end RingBuffer

namespace RingStore

open RingBuffer

/-- **In every state of a run of sound statements** `debug_str` shows the queue of every buffer, whatever the cells
that are not in use happen to hold: a row for every cell, the bytes of the queue in the rows behind the head, and how
many bytes are used and free. -/
theorem debug_str_shows (ops : List Op) (hops : Along Op.Sound initial ops) :
    ∃ replies st, initial.run ops = .ok (replies, st) ∧
      ∀ (o : ℕ) b, st.objects[o]? = some b → ∃ cells q, st.heap[b.data]? = some (some cells) ∧
        (ByteQueue.run [] (ops.map Op.seen)).2[o]? = some q ∧
        ∀ (showBuffer : Bool) (junk : ℕ → Char) (data_at : Str) (use_count : ℤ) (this_at : Str),
          (b.onto cells).debug_str showBuffer junk data_at use_count this_at =
            .ok ((if showBuffer then (List.range q.capacity).flatMap (row q b.h_idx.toNat) else [])
              ++ summary q b.h_idx.toNat data_at use_count this_at) := by
  obtain ⟨st, hrun, hst⟩ := run_represents initial_represents hops
  refine ⟨_, st, hrun, fun o b ho => ?_⟩
  obtain ⟨q, hq⟩ := hst.queue ho
  obtain ⟨cells, hcells, hrep⟩ := hst.object ho hq
  refine ⟨cells, q, hcells, hq, fun showBuffer junk data_at use_count this_at => ?_⟩
  have hlast := lastLine_represents hrep data_at use_count this_at
  cases showBuffer with
  | false =>
      rw [debug_str, if_neg Bool.false_ne_true, hlast]
      rfl
  | true =>
      rw [debug_str_represents hrep, hlast]
      rfl

/-- Three bytes in a ring of four, two of them behind the end of the array. -/
theorem debug_str_shows_wrapped :
    ∃ replies st, initial.run [.construct 4, .write 0 "abc".toList, .dec 0 2, .write 0 "d\n".toList] = .ok (replies, st) ∧
      ∀ b, st.objects[0]? = some b → ∃ cells, ∀ junk : ℕ → Char,
        (b.onto cells).debug_str true junk "0x1".toList 1 "0x2".toList =
          .ok ("rb[   0]= \\n *\nrb[   1]= \nrb[   2]= c *\nrb[   3]= d *\n".toList
            ++ "\x7b\x7bused=3 free=1 h_idx=2 data@0x1 data usecount=1 this=0x2\x7d\n".toList) := by
  have hops : Along Op.Sound initial
      [.construct 4, .write 0 "abc".toList, .dec 0 2, .write 0 "d\n".toList] :=
    .of_step (show (0 : ℤ) ≤ 4 by decide) rfl
      (.of_step trivial rfl (.of_step (Or.inl (by decide)) rfl (.of_step trivial rfl trivial)))
  obtain ⟨replies, st, hrun, hshows⟩ := debug_str_shows _ hops
  refine ⟨replies, st, hrun, fun b hb => ?_⟩
  obtain ⟨cells, q, -, hq, htext⟩ := hshows 0 b hb
  have hqueue : (ByteQueue.run [] ([.construct 4, .write 0 "abc".toList, .dec 0 2, .write 0 "d\n".toList].map
      Op.seen)).2[0]? = some ⟨4, "cd\n".toList, by decide⟩ := by rfl
  have hstate : initial.run [.construct 4, .write 0 "abc".toList, .dec 0 2, .write 0 "d\n".toList] =
      .ok ([.nothing, .number 3, .number 2, .number 2], ⟨[some [some '\n', some 'b', some 'c', some 'd']], [⟨0, 4, 2, 3⟩]⟩) := by decide
  rw [hstate] at hrun
  cases hrun
  cases hb
  rw [hqueue] at hq
  cases hq
  exact ⟨cells, fun junk => htext true junk "0x1".toList 1 "0x2".toList⟩

end RingStore

end GlbBackend
