import GlbBackend.Imperative.Loop
import Mathlib.Data.List.Basic

/-!
# Arrays and integer division of C

An array is a list of cells, and a cell of a fresh array holds nothing (`none`) until it is stored to.  Every
operation that C leaves undefined ends in a `Fault`: an index out of range, a division by zero, the use of
the value of a cell that holds none, an access to an array that was freed.  Copying a cell that holds nothing
(`peek` and `poke`) is no fault; looking at its value (`load`) is.
-/

namespace Imperative

inductive Fault
  | outOfRange
  | indeterminate
  | dangling
  | divisionByZero
  | badAlloc
  | stuck
  deriving DecidableEq, Repr

abbrev Cells (α : Type) := List (Option α)

variable {α β : Type}

/-- `new char[n]`; a negative size throws. -/
def newArray (n : ℤ) : Except Fault (Cells α) :=
  if n < 0 then .error .badAlloc else .ok (List.replicate n.toNat none)

/-- `xs[i]` as a value to be copied. -/
def peek (xs : List β) (i : ℤ) : Except Fault β :=
  if i < 0 then .error .outOfRange
  else
    match xs[i.toNat]? with
    | some x => .ok x
    | none => .error .outOfRange

/-- `xs[i] = x`. -/
def poke (xs : List β) (i : ℤ) (x : β) : Except Fault (List β) :=
  if i < 0 ∨ xs.length ≤ i.toNat then .error .outOfRange else .ok (xs.set i.toNat x)

/-- `cells[i]` as a value to be looked at. -/
def load (cells : Cells α) (i : ℤ) : Except Fault α := do
  match ← peek cells i with
  | some x => pure x
  | none => .error .indeterminate

/-- `a % b`, of the sign of `a`. -/
def cmod (a b : ℤ) : Except Fault ℤ :=
  if b = 0 then .error .divisionByZero else .ok (a.tmod b)

/-- `a / b`, rounded towards zero. -/
def cdiv (a b : ℤ) : Except Fault ℤ :=
  if b = 0 then .error .divisionByZero else .ok (a.tdiv b)

/-- `data[i] = src[i];` -/
def moveStep (src : List β) (i : ℕ) (data : List β) : Except Fault (List β) := do
  let c ← peek src i
  poke data i c

theorem newArray_natCast (n : ℕ) : newArray (α := α) n = .ok (List.replicate n none) := by
  rw [newArray, if_neg (by omega), Int.toNat_natCast]

theorem peek_of_getElem? {xs : List β} {i : ℕ} {x : β} (h : xs[i]? = some x) : peek xs i = .ok x := by
  rw [peek, if_neg (by omega), Int.toNat_natCast, h]

theorem peek_of_le {xs : List β} {i : ℕ} (h : xs.length ≤ i) : peek xs i = .error .outOfRange := by
  rw [peek, if_neg (by omega), Int.toNat_natCast, List.getElem?_eq_none h]

theorem poke_of_lt {xs : List β} {i : ℕ} (h : i < xs.length) (x : β) : poke xs i x = .ok (xs.set i x) := by
  rw [poke, if_neg (by simp; omega), Int.toNat_natCast]

theorem load_of_getElem? {cells : Cells α} {i : ℕ} {x : α} (h : cells[i]? = some (some x)) :
    load cells i = .ok x := by
  rw [load, peek_of_getElem? h]
  rfl

/-- What was stored at the start of an array. -/
theorem getElem?_stored {xs : List α} (rest : Cells α) {j : ℕ} {x : α} (hx : xs[j]? = some x) :
    (xs.map some ++ rest)[j]? = some (some x) := by
  have hj : j < (xs.map some).length := by
    rw [List.length_map]
    exact (List.getElem?_eq_some_iff.mp hx).1
  rw [List.getElem?_append_left hj, List.getElem?_map, hx]
  rfl

theorem cmod_natCast (a : ℕ) {b : ℕ} (hb : 0 < b) : cmod a b = .ok ((a % b : ℕ) : ℤ) := by
  rw [cmod, if_neg (by omega), Int.ofNat_tmod]

/-- A loop that copies the first cells leaves the others as they were. -/
theorem move_loop {src data : List β} {n : ℕ} (hsrc : n ≤ src.length) (hdata : n ≤ data.length) :
    forLoop (moveStep src) n 0 data = .ok (src.take n ++ data.drop n) := by
  have hstep : ∀ i d, 0 ≤ i → i < 0 + n → d = src.take i ++ data.drop i →
      ∃ d', moveStep src i d = .ok d' ∧ d' = src.take (i + 1) ++ data.drop (i + 1) := by
    rintro i d - hi rfl
    have hlen : (src.take i).length = i := List.length_take_of_le (by omega)
    have hi' : i < (src.take i ++ data.drop i).length := by
      rw [List.length_append, hlen, List.length_drop]
      omega
    refine ⟨_, ?_, rfl⟩
    rw [moveStep, peek_of_getElem? (List.getElem?_eq_getElem (by omega))]
    show poke _ _ _ = _
    rw [poke_of_lt hi', List.set_append_right _ _ (by omega), hlen, Nat.sub_self,
      List.drop_eq_getElem_cons (by omega), List.set_cons_zero, List.take_add_one,
      List.getElem?_eq_getElem (by omega), List.append_assoc]
    rfl
  obtain ⟨d, hloop, hd⟩ := forLoop_inv (fun i d => d = src.take i ++ data.drop i) rfl hstep
  rw [Nat.zero_add] at hd
  rw [← hd]
  exact hloop

/-- A loop that stores to the first cells leaves the others as they were. -/
theorem store_loop (f : ℕ → β) {data : List β} {n : ℕ} (hn : n ≤ data.length) :
    forLoop (fun i data => poke data i (f i)) n 0 data = .ok ((List.range n).map f ++ data.drop n) := by
  have hstep : ∀ i d, 0 ≤ i → i < 0 + n → d = (List.range i).map f ++ data.drop i →
      ∃ d', poke d i (f i) = .ok d' ∧ d' = (List.range (i + 1)).map f ++ data.drop (i + 1) := by
    rintro i d - hi rfl
    have hlen : ((List.range i).map f).length = i := by rw [List.length_map, List.length_range]
    have hi' : i < ((List.range i).map f ++ data.drop i).length := by
      rw [List.length_append, hlen, List.length_drop]
      omega
    refine ⟨_, poke_of_lt hi' (f i), ?_⟩
    rw [List.set_append_right _ _ (by omega), hlen, Nat.sub_self, List.drop_eq_getElem_cons (by omega),
      List.set_cons_zero, List.range_succ, List.map_append, List.append_assoc]
    rfl
  obtain ⟨d, hloop, hd⟩ := forLoop_inv (fun i d => d = (List.range i).map f ++ data.drop i) rfl hstep
  rw [Nat.zero_add] at hd
  rw [← hd]
  exact hloop

end Imperative
