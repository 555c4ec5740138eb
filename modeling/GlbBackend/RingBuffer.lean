import GlbBackend.Imperative.Ring
import Mathlib.Data.List.TakeDrop

/-!
# The ring buffer of the demonstration program

`RingBuffer` is a `ring_buffer` object.  Its functions are written for the array itself in the place of `data`;
an object in the store has a pointer there.  What a buffer stands for is a `ByteQueue`, a queue of bytes with a
bound, and every function is settled by what it does to the queue (`write_represents`, `dec_represents`,
`readLine_represents`, `linesAvailable_represents`, `double_capacity_represents`, `copy_represents`).

The counters are not bounded, as the capacities are small; the length of a string is cut to an `int`.
-/

namespace GlbBackend

open Imperative

/-- A `ring_buffer`; `data` is its array or a pointer to it. -/
structure RingBuffer (δ : Type) where
  data : δ
  data_size : ℤ
  h_idx : ℤ
  used : ℤ
  deriving DecidableEq, Repr

namespace RingBuffer

variable {δ : Type}

/-- The same object with another thing in the place of `data`. -/
def onto (b : RingBuffer δ) {δ' : Type} (data : δ') : RingBuffer δ' := ⟨data, b.data_size, b.h_idx, b.used⟩

/-- `ring_buffer(int ds)` -/
def construct (ds : ℤ) : Except Fault (RingBuffer (Cells Char)) := do
  let data ← newArray ds
  pure { data := data, data_size := ds, h_idx := 0, used := 0 }

/-- `ring_buffer(const ring_buffer& orig)`: all cells are copied, those that hold nothing too. -/
def copy (orig : RingBuffer (Cells Char)) : Except Fault (RingBuffer (Cells Char)) := do
  let ds := orig.data_size
  let data ← newArray ds
  let data ← forLoop (mirrorStep orig.data orig.h_idx ds) ds.toNat 0 data
  pure { data := data, data_size := ds, h_idx := orig.h_idx, used := orig.used }

def dec (b : RingBuffer δ) (dec_size : ℤ) : Except Fault (ℤ × RingBuffer δ) :=
  let ds := b.data_size
  let n := if dec_size < b.used then dec_size else b.used
  if ds = 0 then pure (0, b)
  else do
    let h_idx ← cmod (b.h_idx + n) ds
    pure (n, { b with h_idx := h_idx, used := b.used - n })

/-- `write(const char *strPtr, int write_size)` -/
def writeChars (b : RingBuffer (Cells Char)) (strPtr : Cells Char) (write_size : ℤ) :
    Except Fault (ℤ × RingBuffer (Cells Char)) :=
  let f := b.data_size - b.used
  let ds := b.data_size
  if ds = 0 then pure (0, b)
  else do
    let ri ← cmod (b.h_idx + b.used) ds
    if ds ≤ 0 then pure (0, b)
    else
      let (di, _, data) ← boundedLoop write_size (fillStep strPtr ds) f.toNat 0 (ri, b.data)
      pure ((di : ℤ), { b with data := data, used := b.used + di })

/-- `int nBytes = str.length();` -/
def intLength (str : List Char) : ℤ := Int.bmod str.length (2 ^ 32)

/-- `write(std::string str)` -/
def write (b : RingBuffer (Cells Char)) (str : List Char) : Except Fault (ℤ × RingBuffer (Cells Char)) :=
  let nBytes := intLength str
  let strPtr := str.map some ++ [some '\x00']
  writeChars b strPtr nBytes

/-- The loop of `readLine` that computes the length of the line, with `u` bytes to go. -/
def lineLength (data : Cells Char) (ds : ℤ) : ℕ → ℤ → ℕ → Except Fault ℕ
  | 0, _, nBytes => pure nBytes
  | u + 1, ri, nBytes => do
      let ch ← load data ri
      if ch = '\n' then pure (nBytes + 1)
      else
        let ri ← cmod (ri + 1) ds
        lineLength data ds u ri (nBytes + 1)

def readLine (b : RingBuffer (Cells Char)) : Except Fault (Cells Char × RingBuffer (Cells Char)) := do
  let nBytes ← lineLength b.data b.data_size b.used.toNat b.h_idx 0
  let popped_line := List.replicate (nBytes + 1) (some '\x00')
  let (_, popped_line) ← forLoop (copyStep b.data b.data_size) nBytes 0 (b.h_idx, popped_line)
  let (_, b) ← b.dec nBytes
  pure (popped_line, b)

def linesAvailable (b : RingBuffer (Cells Char)) : Except Fault ℤ := do
  let (_, nLines) ← forLoop (scanStep b.data b.data_size fun ch nLines => if ch = '\n' then nLines + 1 else nLines)
    b.used.toNat 0 (b.h_idx, 0)
  pure nLines

def double_capacity (b : RingBuffer (Cells Char)) : Except Fault (ℤ × RingBuffer (Cells Char)) := do
  let ds := b.data_size
  let ns := ds * 2
  let tmp ← newArray ns
  let (_, tmp) ← forLoop (copyStep b.data ds) b.used.toNat 0 (b.h_idx, tmp)
  let data ← newArray ns
  let data ← forLoop (moveStep tmp) b.used.toNat 0 data
  pure (ns, { data := data, data_size := ns, h_idx := 0, used := b.used })

end RingBuffer

/-! ### The bounded queue -/

/-- A queue of bytes with a bound. -/
structure ByteQueue where
  capacity : ℕ
  bytes : List Char
  fits : bytes.length ≤ capacity

namespace ByteQueue

def empty (capacity : ℕ) : ByteQueue := ⟨capacity, [], Nat.zero_le _⟩

def free (q : ByteQueue) : ℕ := q.capacity - q.bytes.length

/-- The longest prefix of the string that fits comes behind the end. -/
def write (q : ByteQueue) (str : List Char) : ByteQueue :=
  ⟨q.capacity, q.bytes ++ str.take q.free, by
    have hfits := q.fits
    rw [List.length_append, List.length_take, free]
    omega⟩

def drop (q : ByteQueue) (n : ℕ) : ByteQueue :=
  ⟨q.capacity, q.bytes.drop n, by
    rw [List.length_drop]
    exact Nat.le_trans (Nat.sub_le _ _) q.fits⟩

@[simp] theorem write_bytes (q : ByteQueue) (str : List Char) :
    (q.write str).bytes = q.bytes ++ str.take q.free := rfl

@[simp] theorem drop_bytes (q : ByteQueue) (n : ℕ) : (q.drop n).bytes = q.bytes.drop n := rfl

/-- The bytes up to and including the first newline, or all of them. -/
def lineOf : List Char → List Char
  | [] => []
  | ch :: rest => if ch = '\n' then [ch] else ch :: lineOf rest

def line (q : ByteQueue) : List Char := lineOf q.bytes

def double (q : ByteQueue) : ByteQueue :=
  ⟨q.capacity * 2, q.bytes, Nat.le_trans q.fits (Nat.le_mul_of_pos_right _ (by decide))⟩

theorem lineOf_prefix (bytes : List Char) : lineOf bytes <+: bytes := by
  induction bytes with
  | nil => exact List.prefix_refl _
  | cons ch rest ih =>
      rw [lineOf]
      split_ifs with hch
      · exact List.prefix_append [ch] rest
      · exact (List.cons_prefix_cons).mpr ⟨rfl, ih⟩

end ByteQueue

/-! ### What the functions do to the queue -/

namespace RingBuffer

/-- The buffer stands for the queue. -/
structure Represents (b : RingBuffer (Cells Char)) (q : ByteQueue) : Prop where
  size : b.data_size = b.data.length
  capacity : b.data.length = q.capacity
  used : b.used = q.bytes.length
  ring : ∃ h : ℕ, b.h_idx = h ∧ Holds b.data h q.bytes

variable {b : RingBuffer (Cells Char)} {q : ByteQueue}

theorem Represents.exists_eq (hb : b.Represents q) :
    ∃ (data : Cells Char) (h : ℕ), b = ⟨data, data.length, h, q.bytes.length⟩ ∧
      data.length = q.capacity ∧ Holds data h q.bytes := by
  obtain ⟨hsize, hcap, hused, h, hh, hq⟩ := hb
  refine ⟨b.data, h, ?_, hcap, hq⟩
  rw [← hsize, ← hh, ← hused]

/-- Only the bound and the bytes of the queue matter. -/
theorem Represents.of_bytes (hb : b.Represents q) {q' : ByteQueue} (hcap : q'.capacity = q.capacity)
    (hbytes : q'.bytes = q.bytes) : b.Represents q' := by
  obtain ⟨hsize, hcap', hused, h, hh, hq⟩ := hb
  refine ⟨hsize, hcap'.trans hcap.symm, ?_, h, hh, ?_⟩
  · rw [hbytes, hused]
  · rwa [hbytes]

theorem Represents.bounds (hb : b.Represents q) :
    0 ≤ b.used ∧ b.used ≤ b.data_size ∧ 0 ≤ b.h_idx ∧
      (b.h_idx < b.data_size ∨ b.data_size = 0 ∧ b.h_idx = 0) := by
  obtain ⟨hsize, hcap, hused, h, hh, hq⟩ := hb
  have hfits := hq.fits
  have hhead := hq.head
  omega

theorem construct_represents (n : ℕ) :
    ∃ b, construct n = .ok b ∧ b.Represents (ByteQueue.empty n) := by
  refine ⟨⟨List.replicate n none, n, 0, 0⟩, ?_, ?_, List.length_replicate, rfl, 0, rfl, ?_⟩
  · rw [construct, newArray_natCast]
    rfl
  · rw [List.length_replicate]
  · exact Holds.nil (Or.inl rfl)

/-- `dec` takes the oldest bytes off. -/
theorem dec_represents (hb : b.Represents q) {n : ℤ} (hn : 0 ≤ n ∨ b.data_size = 0) :
    ∃ b', b.dec n = .ok (((min n.toNat q.bytes.length : ℕ) : ℤ), b') ∧ b'.Represents (q.drop n.toNat) := by
  obtain ⟨data, h, rfl, hcap, hq⟩ := hb.exists_eq
  dsimp only at hn
  rcases Nat.eq_zero_or_pos data.length with hzero | hpos
  · have hnil : q.bytes = [] := List.eq_nil_of_length_eq_zero (by have := hq.fits; omega)
    refine ⟨_, ?_, hb.of_bytes rfl ?_⟩
    · rw [dec, if_pos (by dsimp only; omega), hnil, List.length_nil, Nat.min_zero]
      rfl
    · rw [ByteQueue.drop_bytes, hnil, List.drop_nil]
  · obtain ⟨n, rfl⟩ := Int.eq_ofNat_of_zero_le (show 0 ≤ n by omega)
    have hmin : (if (n : ℤ) < q.bytes.length then (n : ℤ) else q.bytes.length) =
        ((min n q.bytes.length : ℕ) : ℤ) := by
      split_ifs <;> omega
    have hdrop : q.bytes.drop (min n q.bytes.length) = q.bytes.drop n := by
      rcases Nat.le_total n q.bytes.length with hle | hle
      · rw [Nat.min_eq_left hle]
      · rw [Nat.min_eq_right hle, List.drop_length, List.drop_eq_nil_of_le hle]
    refine ⟨⟨data, data.length, ((h + min n q.bytes.length) % data.length : ℕ),
      q.bytes.length - (min n q.bytes.length : ℕ)⟩, ?_, rfl, hcap, ?_, _, rfl, ?_⟩
    · rw [dec, if_neg (by dsimp only; omega)]
      dsimp only
      rw [hmin, ← Int.natCast_add, cmod_natCast _ hpos]
      rfl
    · dsimp only
      rw [ByteQueue.drop_bytes, Int.toNat_natCast, List.length_drop]
      omega
    · show Holds data _ (q.bytes.drop n)
      rw [← hdrop]
      exact hq.drop hpos _

/-- `write` appends the longest prefix of what it is given that fits. -/
theorem writeChars_represents (hb : b.Represents q) {strPtr : Cells Char} {write_size : ℤ} {str : List Char}
    (hsize : write_size.toNat = str.length)
    (hstr : ∀ (j : ℕ) ch, str[j]? = some ch → strPtr[j]? = some (some ch)) :
    ∃ b', b.writeChars strPtr write_size = .ok (((min str.length q.free : ℕ) : ℤ), b') ∧
      b'.Represents (q.write str) := by
  obtain ⟨data, h, rfl, hcap, hq⟩ := hb.exists_eq
  have hfits := hq.fits
  have hfree : q.free = data.length - q.bytes.length := by rw [ByteQueue.free, hcap]
  rcases Nat.eq_zero_or_pos data.length with hzero | hpos
  · have hnone : q.free = 0 := by omega
    refine ⟨_, ?_, hb.of_bytes rfl ?_⟩
    · rw [writeChars, if_pos (by dsimp only; omega), hnone, Nat.min_zero]
      rfl
    · rw [ByteQueue.write_bytes, hnone, List.take_zero, List.append_nil]
  · have hlen : (str.take q.free).length = min str.length q.free := by
      rw [List.length_take, Nat.min_comm]
    have hcells : ∀ (j : ℕ) ch, (str.take q.free)[j]? = some ch → strPtr[0 + j]? = some (some ch) := by
      intro j ch hch
      rw [List.getElem?_take] at hch
      split_ifs at hch
      rw [Nat.zero_add]
      exact hstr j ch hch
    obtain ⟨ri, data', hloop, hholds, hdata'⟩ := fill_loop hq (by omega) hcells
    refine ⟨⟨data', data.length, h, q.bytes.length + (min str.length q.free : ℕ)⟩, ?_, ?_, ?_, ?_, h, rfl,
      hholds⟩
    · rw [writeChars, if_neg (by dsimp only; omega)]
      dsimp only
      rw [← Int.natCast_add, cmod_natCast _ hpos]
      show (if _ then _ else _) = _
      rw [if_neg (by omega), boundedLoop_eq (n := min str.length q.free) (by omega), ← hlen, hloop, hlen,
        Nat.zero_add]
      rfl
    · exact congrArg _ hdata'.symm
    · exact hdata'.trans hcap
    · rw [ByteQueue.write_bytes, List.length_append, hlen, Nat.cast_add]

/-- What `write(std::string)` sees of a string: its length is cut to an `int`, and a negative one counts as 0. -/
def seen (str : List Char) : List Char := str.take (intLength str).toNat

theorem bmod_natCast_le (n m : ℕ) : Int.bmod n m ≤ n := by
  have hmod := Nat.mod_le n m
  rw [Int.bmod_def, ← Int.natCast_mod]
  split_ifs <;> omega

theorem intLength_le (str : List Char) : intLength str ≤ str.length := bmod_natCast_le _ _

theorem write_represents (hb : b.Represents q) (str : List Char) :
    ∃ b', b.write str = .ok (((min (seen str).length q.free : ℕ) : ℤ), b') ∧
      b'.Represents (q.write (seen str)) := by
  refine writeChars_represents hb ?_ ?_
  · have hle := intLength_le str
    rw [seen, List.length_take]
    omega
  · intro j ch hch
    rw [seen, List.getElem?_take] at hch
    split_ifs at hch
    exact getElem?_stored _ hch

theorem lineLength_eq {data : Cells Char} {h : ℕ} {bytes : List Char} (hq : Holds data h bytes) (nBytes : ℕ) :
    lineLength data data.length bytes.length h nBytes =
      .ok (nBytes + (ByteQueue.lineOf bytes).length) := by
  induction bytes generalizing h nBytes with
  | nil => rfl
  | cons ch rest ih =>
      rw [List.length_cons, lineLength, load_of_getElem? hq.head_cell]
      show (if ch = '\n' then _ else _) = _
      rw [ByteQueue.lineOf]
      split_ifs with hch
      · rfl
      · show (cmod ((h : ℤ) + 1) _).bind _ = _
        rw [cmod_succ h (hq.size_pos (List.cons_ne_nil ch rest))]
        show lineLength _ _ _ _ _ = _
        rw [ih hq.tail, List.length_cons, Nat.add_assoc, Nat.add_comm 1]

/-- `readLine` takes the oldest line off and returns it with a NUL behind it. -/
theorem readLine_represents (hb : b.Represents q) :
    ∃ b', b.readLine = .ok ((q.line ++ ['\x00']).map some, b') ∧ b'.Represents (q.drop q.line.length) := by
  have hprefix : q.line <+: q.bytes := ByteQueue.lineOf_prefix q.bytes
  obtain ⟨b', hdec, hb'⟩ := dec_represents hb (Or.inl (Int.natCast_nonneg q.line.length))
  refine ⟨b', ?_, hb'⟩
  obtain ⟨data, h, rfl, hcap, hq⟩ := hb.exists_eq
  have hout : 0 + q.line.length ≤ (List.replicate (q.line.length + 1) (some '\x00')).length := by
    rw [List.length_replicate]
    omega
  obtain ⟨ri, hloop⟩ := copy_loop hq hprefix.length_le hout
  rw [readLine]
  dsimp only
  rw [Int.toNat_natCast, lineLength_eq hq, Nat.zero_add]
  show (forLoop (copyStep data _) q.line.length 0
    (_, List.replicate (q.line.length + 1) (some '\x00'))).bind _ = _
  rw [hloop]
  show (dec _ (q.line.length : ℤ)).bind _ = _
  rw [hdec, List.take_zero, List.nil_append, ← List.prefix_iff_eq_take.mp hprefix, List.drop_replicate,
    List.map_append, show q.line.length + 1 - (0 + q.line.length) = 1 by omega]
  rfl

theorem foldl_newlines (bytes : List Char) (n : ℤ) :
    bytes.foldl (fun nLines ch => if ch = '\n' then nLines + 1 else nLines) n = n + bytes.count '\n' := by
  induction bytes generalizing n with
  | nil => exact (add_zero n).symm
  | cons ch rest ih =>
      rw [List.foldl_cons, ih, List.count_cons]
      split_ifs with hch hne hne
      · push_cast
        omega
      · exact absurd (beq_iff_eq.mpr hch) hne
      · exact absurd (beq_iff_eq.mp hne) hch
      · rfl

/-- `linesAvailable` counts the newlines. -/
theorem linesAvailable_represents (hb : b.Represents q) :
    b.linesAvailable = .ok (q.bytes.count '\n' : ℤ) := by
  obtain ⟨data, h, rfl, hcap, hq⟩ := hb.exists_eq
  obtain ⟨ri, hloop⟩ := scan_loop hq (fun ch nLines => if ch = '\n' then nLines + 1 else nLines) 0 (0 : ℤ)
  rw [linesAvailable]
  dsimp only
  rw [Int.toNat_natCast, hloop, foldl_newlines, zero_add]
  rfl

/-- `double_capacity` unrolls the ring into an array of twice the size. -/
theorem double_capacity_represents (hb : b.Represents q) :
    ∃ b', b.double_capacity = .ok ((q.double.capacity : ℤ), b') ∧ b'.Represents q.double := by
  obtain ⟨data, h, rfl, hcap, hq⟩ := hb.exists_eq
  have hns : (data.length : ℤ) * 2 = ((q.double.capacity : ℕ) : ℤ) := by
    rw [hcap]
    rfl
  have hfits : q.bytes.length ≤ q.double.capacity := q.double.fits
  let tmp : Cells Char := q.bytes.map some ++ List.replicate (q.double.capacity - q.bytes.length) none
  have hlen : tmp.length = q.double.capacity := by
    rw [List.length_append, List.length_map, List.length_replicate]
    omega
  have hbytes : tmp.take q.bytes.length = q.bytes.map some := List.take_left' (List.length_map _)
  obtain ⟨ri, hunroll⟩ := unroll_loop hq hfits
  have hmove : forLoop (moveStep tmp) q.bytes.length 0 (List.replicate q.double.capacity none) = .ok tmp := by
    rw [move_loop (by omega) (by rw [List.length_replicate]; exact hfits), hbytes, List.drop_replicate]
  refine ⟨⟨tmp, q.double.capacity, 0, q.bytes.length⟩, ?_, congrArg _ hlen.symm, hlen, rfl, 0, rfl,
    Holds.unrolled _ _⟩
  rw [double_capacity]
  dsimp only
  rw [hns, newArray_natCast]
  show (forLoop (copyStep data _) (q.bytes.length : ℤ).toNat 0 _).bind _ = _
  rw [Int.toNat_natCast, hunroll]
  show (forLoop (moveStep tmp) q.bytes.length 0 (List.replicate q.double.capacity none)).bind _ = _
  rw [hmove]
  rfl

/-- A copy holds the same queue. -/
theorem copy_represents (hb : b.Represents q) : ∃ b', b.copy = .ok b' ∧ b'.Represents q := by
  obtain ⟨data, h, rfl, hcap, hq⟩ := hb.exists_eq
  obtain ⟨data', hloop, hlen, hholds⟩ := mirror_loop hq List.length_replicate hq.fits (Nat.le_refl _)
  refine ⟨⟨data', data.length, h, q.bytes.length⟩, ?_, ?_, hlen.trans hcap, rfl, h, rfl, hholds⟩
  · rw [copy]
    dsimp only
    rw [newArray_natCast]
    show (forLoop (mirrorStep data _ _) (data.length : ℤ).toNat 0 _).bind _ = _
    rw [Int.toNat_natCast, hloop]
    rfl
  · exact congrArg _ hlen.symm

end RingBuffer

end GlbBackend
