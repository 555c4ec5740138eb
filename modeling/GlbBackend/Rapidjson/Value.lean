import Mathlib.Data.BitVec
import GlbBackend.JsonWriter

/-!
# Values and events of `rapidjson`

A `GenericValue` is a tree; what a reader, a document and a writer exchange are the events of its traversal.  A number
is stored in 64 bits, with flags for the types that can hold it, and `Accept` hands it on as the smallest of these:
which constructor made it does not show, only which integer it is (`Number.accept_eq`).

Floating point numbers are a parameter, `D`.
-/

namespace GlbBackend

open Text

namespace Rapidjson

variable {D : Type}

/-! ### Numbers -/

/-- A number, by the constructor of `GenericValue` that makes it. -/
inductive Number (D : Type)
  | int (i : BitVec 32)
  | uint (u : BitVec 32)
  | int64 (i64 : BitVec 64)
  | uint64 (u64 : BitVec 64)
  | double (d : D)

/-- `kIntFlag`, `kUintFlag`, `kInt64Flag` and `kUint64Flag`. -/
structure Flags where
  int : Bool
  uint : Bool
  int64 : Bool
  uint64 : Bool

namespace Number

/-- The flags that the constructors set. -/
def flags : Number D → Flags
  | int i => ⟨true, decide (0 ≤ i.toInt), true, decide (0 ≤ i.toInt)⟩
  | uint u => ⟨u &&& 0x80000000#32 == 0#32, true, true, true⟩
  | int64 i64 =>
      if 0 ≤ i64.toInt then
        ⟨i64 &&& 0xFFFFFFFF80000000#64 == 0#64, i64 &&& 0xFFFFFFFF00000000#64 == 0#64, true, true⟩
      else ⟨decide (-2147483648 ≤ i64.toInt), false, true, false⟩
  | uint64 u64 =>
      ⟨u64 &&& 0xFFFFFFFF80000000#64 == 0#64, u64 &&& 0xFFFFFFFF00000000#64 == 0#64,
        u64 &&& 0x8000000000000000#64 == 0#64, true⟩
  | double _ => ⟨false, false, false, false⟩

/-- The 64 bits of `data_.n`; those of a floating point number are not looked at. -/
def data : Number D → BitVec 64
  | int i => i.signExtend 64
  | uint u => u.setWidth 64
  | int64 i64 => i64
  | uint64 u64 => u64
  | double _ => 0#64

/-- The number that `Accept` hands to the handler. -/
def accept (n : Number D) : Number D :=
  match n with
  | double d => double d
  | n =>
      if n.flags.int then int (n.data.setWidth 32)
      else if n.flags.uint then uint (n.data.setWidth 32)
      else if n.flags.int64 then int64 n.data
      else uint64 n.data

/-- The integer, if it is one. -/
def value? : Number D → Option ℤ
  | int i => some i.toInt
  | uint u => some u.toNat
  | int64 i64 => some i64.toInt
  | uint64 u64 => some u64.toNat
  | double _ => none

/-- The smallest type that holds an integer. -/
def ofInt (z : ℤ) : Number D :=
  if -2 ^ 31 ≤ z ∧ z < 2 ^ 31 then int (BitVec.ofInt 32 z)
  else if 0 ≤ z ∧ z < 2 ^ 32 then uint (BitVec.ofInt 32 z)
  else if z < 2 ^ 63 then int64 (BitVec.ofInt 64 z)
  else uint64 (BitVec.ofInt 64 z)

/-- No bit from `k` on is set. -/
theorem and_high_eq_zero {w : ℕ} (k : ℕ) (x mask : BitVec w) (hmask : ∀ i < w, mask.getLsbD i = decide (k ≤ i)) :
    (x &&& mask == 0#w) = decide (x.toNat < 2 ^ k) := by
  rw [beq_eq_decide, decide_eq_decide]
  constructor
  · intro h
    refine Nat.lt_pow_two_of_testBit _ fun i hi => ?_
    by_cases hw : i < w
    · have hbit := congrArg (fun y : BitVec w => y.getLsbD i) h
      simp only [BitVec.getLsbD_and, hmask i hw, decide_eq_true hi, Bool.and_true, BitVec.getLsbD_zero] at hbit
      exact hbit
    · exact Nat.testBit_lt_two_pow (lt_of_lt_of_le x.isLt (Nat.pow_le_pow_right (by decide) (Nat.le_of_not_lt hw)))
  · intro h
    refine BitVec.eq_of_getLsbD_eq fun i hi => ?_
    rw [BitVec.getLsbD_and, hmask i hi, BitVec.getLsbD_zero]
    by_cases hk : k ≤ i
    · have hbit : x.getLsbD i = false :=
        Nat.testBit_lt_two_pow (lt_of_lt_of_le h (Nat.pow_le_pow_right (by decide) hk))
      rw [hbit, Bool.false_and]
    · rw [decide_eq_false hk, Bool.and_false]

theorem setWidth_signExtend (i : BitVec 32) : (i.signExtend 64).setWidth 32 = i := by
  refine BitVec.eq_of_getLsbD_eq fun k hk => ?_
  rw [BitVec.getLsbD_setWidth, BitVec.getLsbD_signExtend]
  simp only [hk, decide_true, Bool.true_and, if_true, show k < 64 by omega]

theorem ofInt_toNat {w : ℕ} (x : BitVec w) : BitVec.ofInt w x.toNat = x := by
  rw [BitVec.ofInt_natCast, BitVec.ofNat_toNat, BitVec.setWidth_eq]

/-- The low bits of an integer. -/
theorem setWidth_eq_ofInt (x : BitVec 64) : x.setWidth 32 = BitVec.ofInt 32 x.toInt := by
  refine BitVec.eq_of_toNat_eq ?_
  rw [BitVec.toNat_setWidth, BitVec.toNat_ofInt, BitVec.toInt_eq_toNat_cond]
  split_ifs <;> omega

/-- **Only the integer shows.** -/
theorem accept_eq {n : Number D} {z : ℤ} (h : n.value? = some z) : n.accept = ofInt z := by
  cases n with
  | int i =>
      cases h
      have hlt := i.toInt_lt
      have hle := i.le_toInt
      rw [ofInt, if_pos (by omega), BitVec.ofInt_toInt]
      show int ((i.signExtend 64).setWidth 32) = int i
      rw [setWidth_signExtend]
  | uint u =>
      cases h
      have hlt := u.isLt
      have hint : (uint u : Number D).flags.int = decide (u.toNat < 2 ^ 31) := and_high_eq_zero 31 u _ (by decide)
      have hdata : ((uint u : Number D).data.setWidth 32) = u := by
        show (u.setWidth 64).setWidth 32 = u
        rw [BitVec.setWidth_setWidth_of_le _ (by omega), BitVec.setWidth_eq]
      show (if (uint u : Number D).flags.int then int ((uint u : Number D).data.setWidth 32) else
        uint ((uint u : Number D).data.setWidth 32)) = _
      rw [hint, hdata, ofInt]
      by_cases hsmall : u.toNat < 2 ^ 31
      · rw [if_pos (decide_eq_true hsmall), if_pos (by omega), ofInt_toNat]
      · rw [if_neg (by simpa using hsmall), if_neg (by omega), if_pos (by omega), ofInt_toNat]
  | int64 i64 =>
      cases h
      have hlt := i64.toInt_lt
      have hle := i64.le_toInt
      have hnat := BitVec.toInt_eq_toNat_cond i64
      have hisLt := i64.isLt
      have hint : (int64 i64 : Number D).flags.int = decide (-2 ^ 31 ≤ i64.toInt ∧ i64.toInt < 2 ^ 31) := by
        rw [flags]
        split_ifs with hsign
        · refine (and_high_eq_zero 31 i64 _ (by decide)).trans (decide_eq_decide.mpr ?_)
          omega
        · exact decide_eq_decide.mpr (by omega)
      have huint : (int64 i64 : Number D).flags.uint = decide (0 ≤ i64.toInt ∧ i64.toInt < 2 ^ 32) := by
        rw [flags]
        split_ifs with hsign
        · refine (and_high_eq_zero 32 i64 _ (by decide)).trans (decide_eq_decide.mpr ?_)
          omega
        · exact (decide_eq_false (by omega)).symm
      show (if (int64 i64 : Number D).flags.int then int (i64.setWidth 32) else
        if (int64 i64 : Number D).flags.uint then uint (i64.setWidth 32) else
          if (int64 i64 : Number D).flags.int64 then int64 i64 else uint64 i64) = _
      have hint64 : (int64 i64 : Number D).flags.int64 = true := by
        rw [flags]
        split_ifs <;> rfl
      rw [hint, huint, hint64, if_pos rfl, ofInt, setWidth_eq_ofInt, BitVec.ofInt_toInt, if_pos hlt]
      simp only [decide_eq_true_eq]
  | uint64 u64 =>
      cases h
      have hlt := u64.isLt
      have hint : (uint64 u64 : Number D).flags.int = decide (u64.toNat < 2 ^ 31) := and_high_eq_zero 31 u64 _ (by decide)
      have huint : (uint64 u64 : Number D).flags.uint = decide (u64.toNat < 2 ^ 32) := and_high_eq_zero 32 u64 _ (by decide)
      have hint64 : (uint64 u64 : Number D).flags.int64 = decide (u64.toNat < 2 ^ 63) :=
        and_high_eq_zero 63 u64 _ (by decide)
      have hlow : u64.setWidth 32 = BitVec.ofInt 32 u64.toNat := by
        rw [BitVec.ofInt_natCast]
        rfl
      show (if (uint64 u64 : Number D).flags.int then int (u64.setWidth 32) else
        if (uint64 u64 : Number D).flags.uint then uint (u64.setWidth 32) else
          if (uint64 u64 : Number D).flags.int64 then int64 u64 else uint64 u64) = _
      rw [hint, huint, hint64, ofInt, hlow, ofInt_toNat]
      simp only [decide_eq_true_eq]
      split_ifs <;> first | rfl | omega
  | double d => cases h

/-- The integers that there are numbers for. -/
theorem value?_bounds {n : Number D} {z : ℤ} (h : n.value? = some z) : -2 ^ 63 ≤ z ∧ z < 2 ^ 64 := by
  cases n with
  | int i =>
      cases h
      have hlt := i.toInt_lt
      have hle := i.le_toInt
      omega
  | uint u =>
      cases h
      have hlt := u.isLt
      omega
  | int64 i64 =>
      cases h
      have hlt := i64.toInt_lt
      have hle := i64.le_toInt
      omega
  | uint64 u64 =>
      cases h
      have hlt := u64.isLt
      omega
  | double d => cases h

theorem value?_ofInt {z : ℤ} (hle : -2 ^ 63 ≤ z) (hlt : z < 2 ^ 64) : (ofInt z : Number D).value? = some z := by
  have hbmod : ∀ w : ℕ, -2 ^ w ≤ z → z < 2 ^ w → z.bmod (2 ^ (w + 1)) = z := by
    intro w hle hlt
    have hpow : (2 : ℤ) ^ (w + 1) = 2 * 2 ^ w := by rw [pow_succ, mul_comm]
    refine Int.bmod_eq_of_le ?_ ?_ <;> push_cast <;> omega
  rw [ofInt]
  split_ifs with h1 h2 h3
  · show some (BitVec.ofInt 32 z).toInt = some z
    rw [BitVec.toInt_ofInt, hbmod 31 h1.1 h1.2]
  · show some ((BitVec.ofInt 32 z).toNat : ℤ) = some z
    rw [BitVec.toNat_ofInt]
    congr 1
    omega
  · show some (BitVec.ofInt 64 z).toInt = some z
    rw [BitVec.toInt_ofInt, hbmod 63 hle h3]
  · show some ((BitVec.ofInt 64 z).toNat : ℤ) = some z
    rw [BitVec.toNat_ofInt]
    congr 1
    omega

/-- `Accept` hands on the integer that was stored. -/
theorem value?_accept (n : Number D) : n.accept.value? = n.value? := by
  cases hn : n.value? with
  | none =>
      cases n with
      | double d => rfl
      | _ => cases hn
  | some z =>
      obtain ⟨hle, hlt⟩ := value?_bounds hn
      rw [accept_eq hn, value?_ofInt hle hlt]

end Number

/-! ### Values -/

/-- A `GenericValue`. -/
inductive Value (D : Type)
  | null
  | bool (b : Bool)
  | number (n : Number D)
  | string (s : Str)
  | array (es : List (Value D))
  | object (ms : List (Str × Value D))

/-- What a `Handler` is told.  `Int`, `Uint`, `Int64`, `Uint64` and `Double` are the numbers of that type. -/
inductive Event (D : Type)
  | null
  | bool (b : Bool)
  | number (n : Number D)
  | string (s : Str)
  | startObject
  | endObject (memberCount : ℕ)
  | startArray
  | endArray (elementCount : ℕ)

section Events

variable (f : Number D → Number D)

mutual

/-- The events of a value, with its numbers handed on as `f` says. -/
def Value.events : Value D → List (Event D)
  | .null => [.null]
  | .bool b => [.bool b]
  | .number n => [.number (f n)]
  | .string s => [.string s]
  | .array es => .startArray :: elementEvents es ++ [.endArray es.length]
  | .object ms => .startObject :: memberEvents ms ++ [.endObject ms.length]

/-- The elements of an array, one after the other. -/
def elementEvents : List (Value D) → List (Event D)
  | [] => []
  | v :: es => v.events ++ elementEvents es

/-- The members of an object: each time a name and a value. -/
def memberEvents : List (Str × Value D) → List (Event D)
  | [] => []
  | (n, v) :: ms => .string n :: v.events ++ memberEvents ms

end

end Events

/-- `GenericValue::Accept`. -/
def Value.accept (v : Value D) : List (Event D) := v.events Number.accept

section Map

variable (f : Number D → Number D)

mutual

/-- A value with other numbers. -/
def Value.map : Value D → Value D
  | .null => .null
  | .bool b => .bool b
  | .number n => .number (f n)
  | .string s => .string s
  | .array es => .array (mapElements es)
  | .object ms => .object (mapMembers ms)

def mapElements : List (Value D) → List (Value D)
  | [] => []
  | v :: es => v.map :: mapElements es

def mapMembers : List (Str × Value D) → List (Str × Value D)
  | [] => []
  | (n, v) :: ms => (n, v.map) :: mapMembers ms

end

theorem length_mapElements (es : List (Value D)) : (mapElements f es).length = es.length := by
  induction es with
  | nil => rfl
  | cons v es ih => rw [mapElements, List.length_cons, ih, List.length_cons]

theorem length_mapMembers (ms : List (Str × Value D)) : (mapMembers f ms).length = ms.length := by
  induction ms with
  | nil => rfl
  | cons m ms ih => rw [mapMembers, List.length_cons, ih, List.length_cons]

variable (g : Number D → Number D)

mutual

/-- The events of a value with other numbers. -/
theorem Value.events_map (v : Value D) : (v.map f).events g = v.events (fun n => g (f n)) := by
  match v with
  | .null => rfl
  | .bool b => rfl
  | .number n => rfl
  | .string s => rfl
  | .array es => rw [Value.map, Value.events, Value.events, elementEvents_map es, length_mapElements]
  | .object ms => rw [Value.map, Value.events, Value.events, memberEvents_map ms, length_mapMembers]

theorem elementEvents_map (es : List (Value D)) :
    elementEvents g (mapElements f es) = elementEvents (fun n => g (f n)) es := by
  match es with
  | [] => rfl
  | v :: es => rw [mapElements, elementEvents, elementEvents, Value.events_map v, elementEvents_map es]

theorem memberEvents_map (ms : List (Str × Value D)) :
    memberEvents g (mapMembers f ms) = memberEvents (fun n => g (f n)) ms := by
  match ms with
  | [] => rfl
  | (n, v) :: ms => rw [mapMembers, memberEvents, memberEvents, Value.events_map v, memberEvents_map ms]

end

end Map

/-- May the value stand at the root? -/
def Value.isContainer : Value D → Bool
  | .array _ => true
  | .object _ => true
  | _ => false

section Integral

mutual

/-- No number of the value is a floating point number. -/
def Value.integral : Value D → Bool
  | .number n => n.value?.isSome
  | .array es => integralElements es
  | .object ms => integralMembers ms
  | _ => true

def integralElements : List (Value D) → Bool
  | [] => true
  | v :: es => v.integral && integralElements es

def integralMembers : List (Str × Value D) → Bool
  | [] => true
  | (_, v) :: ms => v.integral && integralMembers ms

end

end Integral

end Rapidjson

end GlbBackend
