import GlbBackend.Imperative.Memory
import GlbBackend.Text.Numeral
import GlbBackend.Text.Positional

/-!
# The bit array of the demonstration program

A `BitArray` keeps its bits in words of an array on the heap.  A member may throw `std::out_of_range`, which leaves the
object as it was; and as elsewhere what C++ leaves undefined is a `Fault`.

What an object stands for is a `Bits`: a number of so many bits, and how many words there are for them.  Every member
is settled by what it does to it, and `bit_array_refines` is the run of any calls.  `getBit` lets the position behind
the last bit through; there is a word for it only if the bits do not fill the words they have.
-/

namespace GlbBackend

open Text Imperative

structure BitArray where
  nBits : ℤ
  bits : Cells (BitVec 32)

namespace BitArray

/-- How a call ends without a result. -/
inductive Trap
  | out_of_range (what : Str)
  | fault (f : Fault)
  deriving DecidableEq

/-- What cannot throw. -/
def nothrow {α : Type} (p : Except Fault α) : Except Trap α := p.mapError Trap.fault

def INT_BITS : ℤ := 32

def hexMap : List Char := "0123456789ABCDEF".toList

/-- The words of a fresh array are set to zero. -/
def zeros (nInts : ℤ) : Except Fault (Cells (BitVec 32)) := do
  let bits ← newArray nInts
  forLoop (fun i bits => poke bits i (some 0#32)) nInts.toNat 0 bits

/-- `BitArray(int nBits)` -/
def construct (nBits : ℤ) : Except Trap BitArray :=
  if nBits < 0 then .error (.out_of_range (decimal nBits ++ " is not >= 1\n".toList))
  else nothrow do
    let q ← cdiv (nBits - 1) INT_BITS
    let bits ← zeros (q + 1)
    pure ⟨nBits, bits⟩

/-- `BitArray(const BitArray& orig)`: the bits of the original are not copied. -/
def copy (orig : BitArray) : Except Trap BitArray := nothrow do
  let q ← cdiv orig.nBits INT_BITS
  let bits ← zeros (q + 1)
  pure ⟨orig.nBits, bits⟩

def getBit (ba : BitArray) (bit_pos : ℤ) : Except Trap ℤ :=
  if bit_pos < 0 ∨ bit_pos > ba.nBits then
    .error (.out_of_range ("bit_pos = ".toList ++ decimal bit_pos ++ " is out of range [0,".toList
      ++ decimal ba.nBits ++ "]".toList))
  else nothrow do
    let i ← cdiv bit_pos INT_BITS
    let r ← cmod bit_pos INT_BITS
    let w ← load ba.bits i
    pure (((w >>> r.toNat) &&& 1#32).toNat : ℤ)

def setBit (ba : BitArray) (bit_pos val : ℤ) : Except Trap BitArray :=
  if bit_pos < 0 ∨ bit_pos ≥ ba.nBits then
    .error (.out_of_range ("bit_pos = ".toList ++ decimal bit_pos ++ " is out of range [0,".toList
      ++ decimal (ba.nBits - 1) ++ "]".toList))
  else nothrow do
    let i ← cdiv bit_pos INT_BITS
    let r ← cmod bit_pos INT_BITS
    let w ← load ba.bits i
    let w := if val.tmod 2 = 0 then w &&& ~~~(1#32 <<< r.toNat) else w ||| (1#32 <<< r.toNat)
    let bits ← poke ba.bits i (some w)
    pure { ba with bits := bits }

def getNBits (ba : BitArray) : ℤ := ba.nBits

/-- `hexMap[(intVal >> (4 * k)) & 0xf]` -/
def nibble (intVal : BitVec 32) (k : ℕ) : Char := hexMap.getD ((intVal >>> (4 * k)) &&& 0xf#32).toNat '0'

/-- The loop of `to_hex`, from word `n - 1` down: `strBuff` holds the eight digits of a word. -/
def hexLoop (bits : Cells (BitVec 32)) : ℕ → Except Fault Str
  | 0 => pure []
  | i + 1 => do
      let intVal ← load bits i
      let strBuff := digitsDown (nibble intVal) 8
      let rest ← hexLoop bits i
      pure (strBuff ++ rest)

def to_hex (ba : BitArray) : Except Trap Str :=
  if ba.nBits ≤ 0 then pure []
  else nothrow do
    let hi ← cdiv (ba.nBits - 1) INT_BITS
    hexLoop ba.bits (hi + 1).toNat

/-- The loop of `to_bin`, from bit `n - 1` down. -/
def binLoop (ba : BitArray) : ℕ → Except Trap Str
  | 0 => pure []
  | i + 1 => do
      let b ← ba.getBit i
      let rest ← binLoop ba i
      pure (decimal b ++ rest)

def to_bin (ba : BitArray) : Except Trap Str := binLoop ba ba.nBits.toNat

/-- What a program does with its bit array; `copied` goes on with a copy. -/
inductive Call
  | setBit (bit_pos val : ℤ)
  | getBit (bit_pos : ℤ)
  | getNBits
  | to_hex
  | to_bin
  | copied
  deriving DecidableEq

/-- What it sees of a call; it catches what is thrown. -/
inductive Outcome
  | done
  | thrown (what : Str)
  | number (n : ℤ)
  | text (s : Str)
  deriving DecidableEq

/-- The rest of the program, behind the handler of what is thrown; the object is as it was then. -/
def caught {α : Type} (ba : BitArray) (result : Except Trap α) (k : α → Outcome × BitArray) :
    Except Fault (Outcome × BitArray) :=
  match result with
  | .ok a => .ok (k a)
  | .error (.out_of_range what) => .ok (.thrown what, ba)
  | .error (.fault f) => .error f

def step (ba : BitArray) : Call → Except Fault (Outcome × BitArray)
  | .setBit bit_pos val => caught ba (ba.setBit bit_pos val) fun ba => (.done, ba)
  | .getBit bit_pos => caught ba (ba.getBit bit_pos) fun n => (.number n, ba)
  | .getNBits => .ok (.number ba.getNBits, ba)
  | .to_hex => caught ba ba.to_hex fun s => (.text s, ba)
  | .to_bin => caught ba ba.to_bin fun s => (.text s, ba)
  | .copied => caught ba ba.copy fun ba => (.done, ba)

def run : BitArray → List Call → Except Fault (List Outcome × BitArray)
  | ba, [] => .ok ([], ba)
  | ba, call :: calls => do
      let (outcome, ba) ← ba.step call
      let (outcomes, ba) ← run ba calls
      pure (outcome :: outcomes, ba)

end BitArray

/-! ### Numbers of so many bits -/

/-- A number of `size` bits, and the number of words of 32 bits there are for it. -/
structure Bits where
  size : ℕ
  words : ℕ
  value : BitVec size
  fits : size ≤ 32 * words

namespace Bits

/-- As many words as the bits need, but at least one. -/
def fresh (size : ℕ) : Bits := ⟨size, (size - 1) / 32 + 1, BitVec.zero size, by omega⟩

/-- As a copy has them: a word also for the bit behind the last one. -/
def blank (size : ℕ) : Bits := ⟨size, size / 32 + 1, BitVec.zero size, by omega⟩

def set (b : Bits) (i : ℕ) (bit : Bool) : Bits :=
  { b with value := if bit then b.value ||| BitVec.twoPow b.size i else b.value &&& ~~~BitVec.twoPow b.size i }

def get (b : Bits) (i : ℕ) : Bool := b.value.getLsbD i

/-- The bits from the last one down. -/
def binary (b : Bits) : Str := digitsDown (fun i => if b.get i then '1' else '0') b.size

/-- The digits in base 16 from the last one of the last word in use down. -/
def hexadecimal (b : Bits) : Str :=
  digitsDown (fun i => BitArray.hexMap.getD (b.value.toNat / 16 ^ i % 16) '0')
    (if b.size = 0 then 0 else 8 * ((b.size - 1) / 32 + 1))

/-- The object that stands for the bits. -/
def toArray (b : Bits) : BitArray :=
  ⟨b.size, (List.range b.words).map fun j => some (b.value.extractLsb' (32 * j) 32)⟩

/-- The text of the exception for a position, the greatest allowed one being `last`. -/
def outOfRange (bit_pos last : ℤ) : Str :=
  "bit_pos = ".toList ++ decimal bit_pos ++ " is out of range [0,".toList ++ decimal last ++ "]".toList

/-- What the calls do to the bits.  A position has to be below the size to be set, and at most the size to be
looked at; the one at the size itself is a bit only if the words leave room for it. -/
def step (b : Bits) : BitArray.Call → Except Fault (BitArray.Outcome × Bits)
  | .setBit p val =>
      if 0 ≤ p ∧ p < b.size then .ok (.done, b.set p.toNat (decide (val.tmod 2 ≠ 0)))
      else .ok (.thrown (outOfRange p (b.size - 1)), b)
  | .getBit p =>
      if 0 ≤ p ∧ p < 32 * b.words ∧ p ≤ b.size then .ok (.number (b.get p.toNat).toNat, b)
      else if p = b.size then .error .outOfRange
      else .ok (.thrown (outOfRange p b.size), b)
  | .getNBits => .ok (.number b.size, b)
  | .to_hex => .ok (.text b.hexadecimal, b)
  | .to_bin => .ok (.text b.binary, b)
  | .copied => .ok (.done, blank b.size)

def run : Bits → List BitArray.Call → Except Fault (List BitArray.Outcome × Bits)
  | b, [] => .ok ([], b)
  | b, call :: calls => do
      let (outcome, b) ← b.step call
      let (outcomes, b) ← run b calls
      pure (outcome :: outcomes, b)

theorem get_set {b : Bits} {i : ℕ} (hi : i < b.size) (bit : Bool) (j : ℕ) :
    (b.set i bit).get j = if j = i then bit else b.get j := by
  have hbit : (BitVec.twoPow b.size i).getLsbD j = decide (j = i) := by
    rw [BitVec.getLsbD_twoPow, decide_eq_true hi, Bool.true_and]
    exact decide_eq_decide.mpr eq_comm
  cases bit with
  | false =>
      rw [get, set, if_neg Bool.false_ne_true, BitVec.getLsbD_and, BitVec.getLsbD_not, hbit]
      by_cases hj : j = i
      · simp [hj]
      · by_cases hlt : j < b.size
        · simp [hj, hlt, get]
        · simp [hj, get, BitVec.getLsbD_of_ge b.value j (by omega)]
  | true =>
      rw [get, set, if_pos rfl, BitVec.getLsbD_or, hbit]
      by_cases hj : j = i
      · simp [hj]
      · simp [hj, get]

end Bits

/-! ### What the members do to the bits -/

namespace BitArray

variable (b : Bits)

theorem cdiv_bits (i : ℕ) : cdiv i INT_BITS = .ok ((i / 32 : ℕ) : ℤ) := by
  rw [cdiv, INT_BITS, if_neg (by decide), Int.ofNat_tdiv]
  rfl

theorem cmod_bits (i : ℕ) : cmod i INT_BITS = .ok ((i % 32 : ℕ) : ℤ) := cmod_natCast i (by decide)

theorem zeros_eq (n : ℕ) : zeros n = .ok ((List.range n).map fun _ => some 0#32) := by
  have hlen : n ≤ (List.replicate n (none : Option (BitVec 32))).length := by rw [List.length_replicate]
  rw [zeros, newArray_natCast]
  show forLoop _ (n : ℤ).toNat 0 _ = _
  rw [Int.toNat_natCast, store_loop (fun _ => some 0#32) hlen, List.drop_replicate, Nat.sub_self,
    List.replicate_zero, List.append_nil]

/-- Words that are zero stand for the number 0. -/
theorem toArray_zero {b : Bits} (h : b.value = 0#b.size) :
    b.toArray = ⟨b.size, (List.range b.words).map fun _ => some 0#32⟩ := by
  rw [Bits.toArray, h]
  simp

theorem construct_eq (n : ℕ) : construct n = .ok (Bits.fresh n).toArray := by
  have hwords : cdiv ((n : ℤ) - 1) INT_BITS = .ok (((n - 1) / 32 : ℕ) : ℤ) := by
    rcases Nat.eq_zero_or_pos n with rfl | hpos
    · rfl
    · rw [show (n : ℤ) - 1 = ((n - 1 : ℕ) : ℤ) by omega]
      exact cdiv_bits (n - 1)
  rw [construct, if_neg (by omega), hwords, toArray_zero rfl]
  show nothrow ((zeros (((n - 1) / 32 : ℕ) + 1)).bind _) = _
  rw [show ((((n - 1) / 32 : ℕ) : ℤ) + 1) = (((n - 1) / 32 + 1 : ℕ) : ℤ) by push_cast; ring, zeros_eq]
  rfl

theorem copy_eq : b.toArray.copy = .ok (Bits.blank b.size).toArray := by
  rw [copy, show b.toArray.nBits = (b.size : ℤ) from rfl, cdiv_bits, toArray_zero rfl]
  show nothrow ((zeros ((b.size / 32 : ℕ) + 1)).bind _) = _
  rw [show (((b.size / 32 : ℕ) : ℤ) + 1) = ((b.size / 32 + 1 : ℕ) : ℤ) by push_cast; ring, zeros_eq]
  rfl

theorem length_bits : b.toArray.bits.length = b.words := by
  rw [Bits.toArray, List.length_map, List.length_range]

theorem getElem?_bits (j : ℕ) :
    b.toArray.bits[j]? = if j < b.words then some (some (b.value.extractLsb' (32 * j) 32)) else none := by
  split_ifs with hj
  · rw [Bits.toArray, List.getElem?_map, List.getElem?_range hj]
    rfl
  · exact List.getElem?_eq_none (by rw [length_bits]; omega)

theorem load_word {j : ℕ} (hj : j < b.words) :
    load b.toArray.bits j = .ok (b.value.extractLsb' (32 * j) 32) :=
  load_of_getElem? (by rw [getElem?_bits, if_pos hj])

theorem load_past {j : ℕ} (hj : b.words ≤ j) : load b.toArray.bits j = .error .outOfRange := by
  rw [load, peek_of_le (by rw [length_bits]; exact hj)]
  rfl

/-- The bit that is shifted to the end of a word. -/
theorem shifted_bit (w : BitVec 32) (r : ℕ) : ((w >>> r) &&& 1#32).toNat = (w.getLsbD r).toNat := by
  rw [BitVec.and_one_eq_setWidth_ofBool_getLsbD, BitVec.getLsbD_ushiftRight, Nat.add_zero]
  cases w.getLsbD r <;> rfl

theorem word_bit {n : ℕ} (v : BitVec n) (i : ℕ) : (v.extractLsb' (32 * (i / 32)) 32).getLsbD (i % 32) = v.getLsbD i := by
  rw [BitVec.getLsbD_extractLsb', decide_eq_true (Nat.mod_lt i (by decide)), Bool.true_and, Nat.div_add_mod]

theorem getBit_out {p : ℤ} (hp : p < 0 ∨ (b.size : ℤ) < p) :
    b.toArray.getBit p = .error (.out_of_range ("bit_pos = ".toList ++ decimal p ++
      " is out of range [0,".toList ++ decimal b.size ++ "]".toList)) := if_pos hp

theorem getBit_in {i : ℕ} (hi : i ≤ b.size) (hword : i < 32 * b.words) :
    b.toArray.getBit i = .ok ((b.get i).toNat : ℤ) := by
  have hload := load_word b (show i / 32 < b.words by omega)
  rw [getBit, if_neg (by simp [Bits.toArray]; omega), cdiv_bits, cmod_bits]
  show nothrow ((load b.toArray.bits ((i / 32 : ℕ) : ℤ)).bind _) = _
  rw [hload]
  show Except.ok ((((b.value.extractLsb' (32 * (i / 32)) 32) >>> ((i % 32 : ℕ) : ℤ).toNat) &&& 1#32).toNat : ℤ) = _
  rw [Int.toNat_natCast, shifted_bit, word_bit]
  rfl

/-- The position behind the last bit, if the words are full. -/
theorem getBit_past (hfull : b.size = 32 * b.words) : b.toArray.getBit b.size = .error (.fault .outOfRange) := by
  have hload := load_past b (show b.words ≤ b.size / 32 by omega)
  rw [getBit, if_neg (by simp [Bits.toArray]), cdiv_bits, cmod_bits]
  show nothrow ((load b.toArray.bits ((b.size / 32 : ℕ) : ℤ)).bind _) = _
  rw [hload]
  rfl

theorem setBit_out {p : ℤ} (val : ℤ) (hp : p < 0 ∨ (b.size : ℤ) ≤ p) :
    b.toArray.setBit p val = .error (.out_of_range ("bit_pos = ".toList ++ decimal p ++
      " is out of range [0,".toList ++ decimal (b.size - 1) ++ "]".toList)) := if_pos hp

/-- The word of a bit that is set, and no other word, changes by the mask of the bit. -/
theorem word_set {i : ℕ} (hi : i < b.size) (bit : Bool) (j : ℕ) :
    (b.set i bit).value.extractLsb' (32 * j) 32 =
      if j = i / 32 then
        (if bit then b.value.extractLsb' (32 * j) 32 ||| (1#32 <<< (i % 32))
          else b.value.extractLsb' (32 * j) 32 &&& ~~~(1#32 <<< (i % 32)))
      else b.value.extractLsb' (32 * j) 32 := by
  apply BitVec.eq_of_getLsbD_eq
  intro r hr
  have hleft : ((b.set i bit).value.extractLsb' (32 * j) 32).getLsbD r =
      if 32 * j + r = i then bit else b.value.getLsbD (32 * j + r) := by
    rw [BitVec.getLsbD_extractLsb', decide_eq_true hr, Bool.true_and]
    exact Bits.get_set hi bit _
  have hmask : (1#32 <<< (i % 32)).getLsbD r = decide (r = i % 32) := by
    rw [← BitVec.twoPow_eq, BitVec.getLsbD_twoPow, decide_eq_true (Nat.mod_lt i (by decide)), Bool.true_and]
    exact decide_eq_decide.mpr eq_comm
  have hword : (b.value.extractLsb' (32 * j) 32).getLsbD r = b.value.getLsbD (32 * j + r) := by
    rw [BitVec.getLsbD_extractLsb', decide_eq_true hr, Bool.true_and]
  have hsame : 32 * j + r = i ↔ j = i / 32 ∧ r = i % 32 := by omega
  rw [hleft]
  by_cases hj : j = i / 32
  · rw [if_pos hj]
    cases bit with
    | false =>
        rw [if_neg Bool.false_ne_true, BitVec.getLsbD_and, BitVec.getLsbD_not, hmask, hword, decide_eq_true hr,
          Bool.true_and]
        by_cases hr' : r = i % 32
        · rw [if_pos (hsame.mpr ⟨hj, hr'⟩), decide_eq_true hr', Bool.not_true, Bool.and_false]
        · rw [if_neg fun h => hr' (hsame.mp h).2, decide_eq_false hr', Bool.not_false, Bool.and_true]
    | true =>
        rw [if_pos rfl, BitVec.getLsbD_or, hmask, hword]
        by_cases hr' : r = i % 32
        · rw [if_pos (hsame.mpr ⟨hj, hr'⟩), decide_eq_true hr', Bool.or_true]
        · rw [if_neg fun h => hr' (hsame.mp h).2, decide_eq_false hr', Bool.or_false]
  · rw [if_neg hj, if_neg fun h => hj (hsame.mp h).1, hword]

theorem setBit_in {i : ℕ} (val : ℤ) (hi : i < b.size) :
    b.toArray.setBit i val = .ok (b.set i (decide (val.tmod 2 ≠ 0))).toArray := by
  have hword : i / 32 < b.words := by
    have hfits := b.fits
    omega
  have hlen : i / 32 < b.toArray.bits.length := by rwa [length_bits]
  rw [setBit, if_neg (by simp [Bits.toArray]; omega), cdiv_bits, cmod_bits]
  show nothrow ((load b.toArray.bits ((i / 32 : ℕ) : ℤ)).bind _) = _
  rw [load_word b hword]
  show nothrow ((poke b.toArray.bits ((i / 32 : ℕ) : ℤ) _).bind _) = _
  rw [poke_of_lt hlen, Int.toNat_natCast]
  refine congrArg Except.ok (congrArg (BitArray.mk _) (List.ext_getElem? fun j => ?_))
  show _ = (b.set i (decide (val.tmod 2 ≠ 0))).toArray.bits[j]?
  rw [List.getElem?_set, getElem?_bits, getElem?_bits, word_set b hi]
  by_cases hj : i / 32 = j
  · rw [if_pos hj, if_pos hlen, if_pos hj.symm, ← hj]
    show _ = if i / 32 < b.words then _ else _
    rw [if_pos hword]
    by_cases hval : val.tmod 2 = 0
    · rw [if_pos hval, decide_eq_false (not_not_intro hval), if_neg Bool.false_ne_true]
    · rw [if_neg hval, decide_eq_true hval, if_pos rfl]
  · rw [if_neg hj, if_neg (Ne.symm hj)]
    rfl

/-! #### The texts -/

/-- The digits of a word are those of the whole number from its position on. -/
theorem nibble_word {n : ℕ} (v : BitVec n) (j : ℕ) {k : ℕ} (hk : k < 8) :
    nibble (v.extractLsb' (32 * j) 32) k = hexMap.getD (v.toNat / 16 ^ (k + 8 * j) % 16) '0' := by
  have hpow : (16 : ℕ) ^ (k + 8 * j) = 2 ^ (32 * j) * 2 ^ (4 * k) := by
    rw [show (16 : ℕ) = 2 ^ 4 from rfl, ← pow_mul, ← pow_add]
    congr 1
    ring
  have hsplit : (2 : ℕ) ^ 32 = 2 ^ (4 * k) * 2 ^ (32 - 4 * k) := by
    rw [← pow_add]
    congr 1
    omega
  have hdvd : 16 ∣ 2 ^ (32 - 4 * k) := pow_dvd_pow 2 (show 4 ≤ 32 - 4 * k by omega)
  have hdigit : ((v.toNat >>> (32 * j)) % 2 ^ 32) >>> (4 * k) &&& 15 = v.toNat / 16 ^ (k + 8 * j) % 16 := by
    rw [show 15 = 2 ^ 4 - 1 from rfl, Nat.and_two_pow_sub_one_eq_mod, Nat.shiftRight_eq_div_pow,
      Nat.shiftRight_eq_div_pow, hsplit, Nat.mod_mul_right_div_self, Nat.mod_mod_of_dvd _ hdvd, hpow,
      Nat.div_div_eq_div_mul]
  rw [nibble, BitVec.toNat_and, BitVec.toNat_ushiftRight, BitVec.extractLsb'_toNat]
  exact congrArg (hexMap.getD · '0') hdigit

theorem hexLoop_eq {k : ℕ} (hk : k ≤ b.words) :
    hexLoop b.toArray.bits k = .ok (digitsDown (fun i => hexMap.getD (b.value.toNat / 16 ^ i % 16) '0') (8 * k)) := by
  induction k with
  | zero => rfl
  | succ k ih =>
      have hdigits : digitsDown (nibble (b.value.extractLsb' (32 * k) 32)) 8 =
          digitsDown (fun i => hexMap.getD (b.value.toNat / 16 ^ (i + 8 * k) % 16) '0') 8 :=
        digitsDown_congr fun i hi => nibble_word b.value k hi
      rw [hexLoop, load_word b (by omega)]
      show (hexLoop b.toArray.bits k).bind _ = _
      rw [ih (by omega), show 8 * (k + 1) = 8 + 8 * k by ring, digitsDown_add, ← hdigits]
      rfl

theorem to_hex_eq : b.toArray.to_hex = .ok b.hexadecimal := by
  have hfits := b.fits
  rcases Nat.eq_zero_or_pos b.size with hzero | hpos
  · rw [to_hex, if_pos (by simp [Bits.toArray, hzero]), Bits.hexadecimal, if_pos hzero]
    rfl
  · rw [to_hex, if_neg (by simp [Bits.toArray]; omega), Bits.hexadecimal, if_neg (by omega),
      show b.toArray.nBits - 1 = ((b.size - 1 : ℕ) : ℤ) by simp [Bits.toArray]; omega, cdiv_bits]
    show nothrow (hexLoop b.toArray.bits (((b.size - 1) / 32 : ℕ) + 1 : ℤ).toNat) = _
    rw [show ((((b.size - 1) / 32 : ℕ) : ℤ) + 1).toNat = (b.size - 1) / 32 + 1 by omega, hexLoop_eq b (by omega)]
    rfl

theorem binLoop_eq {k : ℕ} (hk : k ≤ b.size) :
    binLoop b.toArray k = .ok (digitsDown (fun i => if b.get i then '1' else '0') k) := by
  have hfits := b.fits
  induction k with
  | zero => rfl
  | succ k ih =>
      have hdigit : decimal ((b.get k).toNat : ℤ) = [if b.get k then '1' else '0'] := by
        cases b.get k <;> decide
      rw [binLoop, getBit_in b (by omega) (by omega)]
      show (binLoop b.toArray k).bind _ = _
      rw [ih (by omega), digitsDown, ← List.singleton_append, ← hdigit]
      rfl

theorem to_bin_eq : b.toArray.to_bin = .ok b.binary := by
  rw [to_bin, show b.toArray.nBits.toNat = b.size from Int.toNat_natCast _, binLoop_eq b (Nat.le_refl _)]
  rfl

/-! ### Runs -/

/-- **Every call does to the object what it does to the bits.** -/
theorem step_eq (call : Call) : b.toArray.step call = (b.step call).map fun r => (r.1, r.2.toArray) := by
  have hfits := b.fits
  cases call with
  | setBit p val =>
      rw [step, Bits.step]
      by_cases hp : 0 ≤ p ∧ p < b.size
      · obtain ⟨i, rfl⟩ := Int.eq_ofNat_of_zero_le hp.1
        rw [if_pos hp, setBit_in b val (by omega), Int.toNat_natCast]
        rfl
      · rw [if_neg hp, setBit_out b val (by omega)]
        rfl
  | getBit p =>
      rw [step, Bits.step]
      by_cases hp : 0 ≤ p ∧ p < 32 * b.words ∧ p ≤ b.size
      · obtain ⟨i, rfl⟩ := Int.eq_ofNat_of_zero_le hp.1
        rw [if_pos hp, getBit_in b (by omega) (by omega), Int.toNat_natCast]
        rfl
      · rw [if_neg hp]
        by_cases hlast : p = b.size
        · rw [if_pos hlast, hlast, getBit_past b (by omega)]
          rfl
        · rw [if_neg hlast, getBit_out b (by omega)]
          rfl
  | getNBits => rfl
  | to_hex =>
      rw [step, to_hex_eq]
      rfl
  | to_bin =>
      rw [step, to_bin_eq]
      rfl
  | copied =>
      rw [step, copy_eq]
      rfl

theorem run_eq (calls : List Call) : b.toArray.run calls = (b.run calls).map fun r => (r.1, r.2.toArray) := by
  induction calls generalizing b with
  | nil => rfl
  | cons call calls ih =>
      rw [run, Bits.run, step_eq]
      cases b.step call with
      | error f => rfl
      | ok r =>
          show (r.2.toArray.run calls).bind _ = ((r.2.run calls).bind _).map _
          rw [ih]
          cases r.2.run calls <;> rfl

/-- The bits leave no room in their words. -/
def Full (b : Bits) : Prop := b.size = 32 * b.words

theorem step_error_iff (call : Call) {f : Fault} :
    b.step call = .error f ↔ f = .outOfRange ∧ Full b ∧ call = .getBit b.size := by
  have hfits := b.fits
  cases call with
  | setBit p val =>
      rw [Bits.step]
      split_ifs <;> simp
  | getBit p =>
      rw [Bits.step, Full, Call.getBit.injEq]
      split_ifs with hp hlast
      · refine ⟨fun h => (by cases h), fun h => ?_⟩
        omega
      · constructor
        · intro h
          cases h
          exact ⟨rfl, by omega, hlast⟩
        · rintro ⟨rfl, -⟩
          rfl
      · exact ⟨fun h => (by cases h), fun h => absurd h.2.2 hlast⟩
  | getNBits => simp [Bits.step]
  | to_hex => simp [Bits.step]
  | to_bin => simp [Bits.step]
  | copied => simp [Bits.step]

/-- The size stays, and so does the number of words until a copy takes over; its bits never fill their words. -/
theorem step_size {call : Call} {r : Outcome × Bits} (h : b.step call = .ok r) :
    r.2.size = b.size ∧ (Full r.2 ↔ Full b ∧ call ≠ .copied) := by
  cases call with
  | setBit p val =>
      rw [Bits.step] at h
      split_ifs at h <;> cases h <;> simp [Bits.set, Full]
  | getBit p =>
      rw [Bits.step] at h
      split_ifs at h <;> cases h <;> simp
  | getNBits =>
      cases h
      simp
  | to_hex =>
      cases h
      simp
  | to_bin =>
      cases h
      simp
  | copied =>
      cases h
      refine ⟨rfl, fun h => ?_, fun h => absurd rfl h.2⟩
      have hfull : b.size = 32 * (b.size / 32 + 1) := h
      omega

theorem run_size {b : Bits} {calls : List Call} {r : List Outcome × Bits} (h : b.run calls = .ok r) :
    r.2.size = b.size := by
  induction calls generalizing b r with
  | nil =>
      cases h
      rfl
  | cons call calls ih =>
      change (b.step call).bind _ = _ at h
      cases hstep : b.step call with
      | error f =>
          rw [hstep] at h
          cases h
      | ok s =>
          rw [hstep] at h
          change (s.2.run calls).bind _ = _ at h
          cases hrest : s.2.run calls with
          | error f =>
              rw [hrest] at h
              cases h
          | ok t =>
              rw [hrest] at h
              cases h
              exact (ih hrest).trans (step_size b hstep).1

theorem run_error_iff (calls : List Call) {f : Fault} :
    b.run calls = .error f ↔
      f = .outOfRange ∧ Full b ∧ Call.getBit b.size ∈ calls.takeWhile (· ≠ .copied) := by
  induction calls generalizing b with
  | nil => simp [Bits.run]
  | cons call calls ih =>
      show (b.step call).bind _ = _ ↔ _
      cases hstep : b.step call with
      | error f' =>
          obtain ⟨rfl, hfull, rfl⟩ := (step_error_iff b call).mp hstep
          constructor
          · intro h
            cases h
            exact ⟨rfl, hfull, by simp⟩
          · rintro ⟨rfl, -⟩
            rfl
      | ok r =>
          obtain ⟨hsize, hfull⟩ := step_size b hstep
          have hno : f = .outOfRange → Full b → call ≠ .getBit b.size := by
            rintro rfl hb rfl
            rw [(step_error_iff b _).mpr ⟨rfl, hb, rfl⟩] at hstep
            cases hstep
          have hrest : (r.2.run calls).bind (fun s => .ok (r.1 :: s.1, s.2)) = .error f ↔
              r.2.run calls = .error f := by
            cases r.2.run calls <;> simp [Except.bind]
          refine hrest.trans ((ih r.2).trans ?_)
          rw [hsize, hfull, List.takeWhile_cons]
          by_cases hcopied : call = .copied
          · simp [hcopied]
          · simp only [ne_eq, hcopied, not_false_eq_true, and_true, decide_true, if_true, List.mem_cons]
            constructor
            · rintro ⟨rfl, hb, hmem⟩
              exact ⟨rfl, hb, Or.inr hmem⟩
            · rintro ⟨rfl, hb, rfl | hmem⟩
              · exact absurd rfl (hno rfl hb)
              · exact ⟨rfl, hb, hmem⟩

/-- **Exactly when a program reads outside the array**: when the number of bits is a positive multiple of 32 and it
asks for the bit behind the last one before it goes on with a copy. -/
theorem run_outOfRange_iff (n : ℕ) (calls : List Call) :
    ∃ ba, construct n = .ok ba ∧
      (∀ f, ba.run calls = .error f ↔
        f = .outOfRange ∧ 0 < n ∧ 32 ∣ n ∧ Call.getBit n ∈ calls.takeWhile (· ≠ .copied)) := by
  refine ⟨_, construct_eq n, fun f => ?_⟩
  have hfull : Full (Bits.fresh n) ↔ 0 < n ∧ 32 ∣ n := by
    rw [Full]
    show n = 32 * ((n - 1) / 32 + 1) ↔ _
    omega
  have herror : (Bits.fresh n).toArray.run calls = .error f ↔ (Bits.fresh n).run calls = .error f := by
    rw [run_eq]
    cases (Bits.fresh n).run calls <;> simp [Except.map]
  rw [herror, run_error_iff, hfull, and_assoc]
  rfl

/-! #### Two numerals for one number -/

def binValue (c : Char) : ℕ := if c = '1' then 1 else 0

def hexValue (c : Char) : ℕ := hexMap.idxOf c

theorem hexValue_getD : ∀ n < 16, hexValue (hexMap.getD n '0') = n := by decide

theorem positional_binary : positional 2 binValue b.binary = b.value.toNat := by
  have hdigit : ∀ i < b.size, binValue (if b.get i then '1' else '0') = b.value.toNat / 2 ^ i % 2 := by
    intro i _
    have hbit : b.get i = b.value.toNat.testBit i := rfl
    rw [hbit, Nat.testBit_eq_decide_div_mod_eq]
    rcases Nat.mod_two_eq_zero_or_one (b.value.toNat / 2 ^ i) with h | h <;> rw [h] <;> rfl
  rw [Bits.binary, positional_digitsDown hdigit, Nat.mod_eq_of_lt b.value.isLt]

theorem positional_hexadecimal : positional 16 hexValue b.hexadecimal = b.value.toNat := by
  have hdigit : ∀ i, hexValue (hexMap.getD (b.value.toNat / 16 ^ i % 16) '0') = b.value.toNat / 16 ^ i % 16 :=
    fun i => hexValue_getD _ (Nat.mod_lt _ (by decide))
  have hlt : b.value.toNat < 16 ^ (if b.size = 0 then 0 else 8 * ((b.size - 1) / 32 + 1)) := by
    refine Nat.lt_of_lt_of_le b.value.isLt ?_
    rw [show (16 : ℕ) = 2 ^ 4 from rfl, ← pow_mul]
    refine Nat.pow_le_pow_right (by decide) ?_
    split_ifs <;> omega
  rw [Bits.hexadecimal, positional_digitsDown fun i _ => hdigit i, Nat.mod_eq_of_lt hlt]

/-- The digits in base 16: eight for each word in use. -/
def hexLength (n : ℕ) : ℕ := if n = 0 then 0 else 8 * ((n - 1) / 32 + 1)

/-- **Both texts stand for the same number**, whatever was called before: `to_bin` has a digit for each bit, `to_hex`
eight for each word, and `getBit` reads the digits of that number. -/
theorem numerals_agree {n : ℕ} {calls : List Call} {ba₀ ba : BitArray} {outcomes : List Outcome}
    (hnew : construct n = .ok ba₀) (hrun : ba₀.run calls = .ok (outcomes, ba)) :
    ∃ bin hex, ba.to_bin = .ok bin ∧ ba.to_hex = .ok hex ∧ bin.length = n ∧ hex.length = hexLength n ∧
      positional 2 binValue bin = positional 16 hexValue hex ∧
      ∀ i < n, ba.getBit i = .ok ((positional 16 hexValue hex / 2 ^ i % 2 : ℕ) : ℤ) := by
  rw [construct_eq] at hnew
  cases hnew
  rw [run_eq] at hrun
  cases hbits : (Bits.fresh n).run calls with
  | error f =>
      rw [hbits] at hrun
      cases hrun
  | ok r =>
      rw [hbits] at hrun
      cases hrun
      have hsize := run_size hbits
      refine ⟨_, _, to_bin_eq _, to_hex_eq _, ?_, ?_, ?_, fun i hi => ?_⟩
      · rw [Bits.binary, length_digitsDown, hsize]
        rfl
      · rw [Bits.hexadecimal, length_digitsDown, hsize]
        rfl
      · rw [positional_binary, positional_hexadecimal]
      · have hfits := r.2.fits
        have hlt : i < r.2.size := by rwa [hsize]
        have hbit : r.2.get i = r.2.value.toNat.testBit i := rfl
        rw [getBit_in r.2 (by omega) (by omega), positional_hexadecimal, hbit, Nat.testBit_eq_decide_div_mod_eq]
        rcases Nat.mod_two_eq_zero_or_one (r.2.value.toNat / 2 ^ i) with h | h <;> rw [h] <;> rfl

/-- Bits 0 and 4 of five are set. -/
theorem numerals_agree_fiveBits : ∃ ba₀ ba bin hex, construct 5 = .ok ba₀ ∧
    ba₀.run [.setBit 0 1, .setBit 4 (-3)] = .ok ([.done, .done], ba) ∧ ba.to_bin = .ok bin ∧ ba.to_hex = .ok hex ∧
    bin.length = 5 ∧ hex.length = 8 ∧ positional 2 binValue bin = positional 16 hexValue hex := by
  obtain ⟨ba, hrun⟩ : ∃ ba, (Bits.fresh 5).toArray.run [.setBit 0 1, .setBit 4 (-3)] = .ok ([.done, .done], ba) :=
    ⟨_, rfl⟩
  obtain ⟨bin, hex, hbin, hhex, hlen, hlen', heq, -⟩ := numerals_agree (construct_eq 5) hrun
  exact ⟨_, ba, bin, hex, construct_eq 5, hrun, hbin, hhex, hlen, hlen', heq⟩

end BitArray

end GlbBackend
