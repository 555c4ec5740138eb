import GlbBackend.Imperative.Memory
import Mathlib.Algebra.GCDMonoid.Multiset
import Mathlib.Algebra.GCDMonoid.Nat
import Mathlib.Algebra.BigOperators.Group.List.Basic

/-!
# Weights of a weighted rotation

`gcdreduce` brings a vector of weights to lowest terms, `expandweights` is to build the table in which every
index stands as often as its weight says.  The two vectors are distinct; sizes and counters are not bounded.

The Euclid loop keeps the greatest common divisor and its first number falls, so that it ends
(`euclid_loop`); the fold over the vector keeps the greatest common divisor of the weights seen so far, zeros
included (`gcd_loop`), and the last pass divides every weight by it (`divide_loop`).
-/

namespace GlbBackend

open Imperative

/-- A round of the outer loop of `expandweights`.  The copies of the index go to `weights`, not to `expanded`. -/
def expandStep (i : ℕ) (weights : List ℤ) : Except Fault (List ℤ) := do
  let weight ← peek weights i
  forLoop (fun _ weights => pure (weights ++ [(i : ℤ)])) weight.toNat 0 weights

/-- `expanded` and `weights`. -/
def expandweights (_expanded weights : List ℤ) : Except Fault (List ℤ × List ℤ) := do
  let ws := weights.length
  let expanded := []
  let weights ← forLoop expandStep ws 0 weights
  pure (expanded, weights)

/-! ### Lowest terms -/

/-- The table: of every index from `i` on as many copies as its weight. -/
def tableFrom (i : ℕ) : List ℤ → List ℤ
  | [] => []
  | w :: weights => List.replicate w.toNat (i : ℤ) ++ tableFrom (i + 1) weights

def table (weights : List ℤ) : List ℤ := tableFrom 0 weights

/-- What `expandweights` is for: `expanded` becomes the table, in which index `i` occurs `weights[i]` times and
whose length is the sum of the weights, and `weights` stays as it was. -/
def BuildsTable (expanded weights : List ℤ) : Prop :=
  ∃ expanded', expandweights expanded weights = .ok (expanded', weights) ∧ expanded' = table weights ∧
    (∀ (i : ℕ) w, weights[i]? = some w → (expanded'.count (i : ℤ) : ℤ) = w) ∧
    (expanded'.length : ℤ) = weights.sum

theorem count_tableFrom_of_lt {i first : ℕ} (h : i < first) (weights : List ℤ) :
    (tableFrom first weights).count (i : ℤ) = 0 := by
  induction weights generalizing first with
  | nil => rfl
  | cons w weights ih =>
      rw [tableFrom, List.count_append, ih (by omega), List.count_replicate, if_neg (by simp; omega)]

/-- Index `i` occurs `weights[i]` times. -/
theorem count_tableFrom {weights : List ℤ} (hnn : ∀ w ∈ weights, 0 ≤ w) {i : ℕ} {w : ℤ}
    (hw : weights[i]? = some w) (first : ℕ) :
    ((tableFrom first weights).count ((first + i : ℕ) : ℤ) : ℤ) = w := by
  induction weights generalizing i first with
  | nil => cases hw
  | cons w' weights ih =>
      have hnn' : 0 ≤ w' := hnn w' List.mem_cons_self
      rw [tableFrom, List.count_append]
      cases i with
      | zero =>
          cases hw
          rw [Nat.add_zero, List.count_replicate_self, count_tableFrom_of_lt (Nat.lt_succ_self first)]
          omega
      | succ i =>
          have hrest := ih (fun w hmem => hnn w (List.mem_cons_of_mem _ hmem)) hw (first + 1)
          rw [List.count_replicate, if_neg (by simp; omega), Nat.zero_add,
            show first + (i + 1) = first + 1 + i by omega, hrest]

theorem length_tableFrom {weights : List ℤ} (hnn : ∀ w ∈ weights, 0 ≤ w) (first : ℕ) :
    ((tableFrom first weights).length : ℤ) = weights.sum := by
  induction weights generalizing first with
  | nil => rfl
  | cons w weights ih =>
      have hw : 0 ≤ w := hnn w List.mem_cons_self
      rw [tableFrom, List.length_append, List.length_replicate, List.sum_cons, Nat.cast_add,
        ih fun w hmem => hnn w (List.mem_cons_of_mem _ hmem), Int.toNat_of_nonneg hw]

theorem tableFrom_eq_nil_iff (weights : List ℤ) (first : ℕ) :
    tableFrom first weights = [] ↔ ∀ w ∈ weights, w.toNat = 0 := by
  induction weights generalizing first with
  | nil => simp [tableFrom]
  | cons w weights ih => simp [tableFrom, ih]

/-- The inner loop appends the copies of one index. -/
theorem pushes_loop (weights : List ℤ) (x : ℤ) (n first : ℕ) :
    forLoop (fun _ weights => (pure (weights ++ [x]) : Except Fault _)) n first weights =
      .ok (weights ++ List.replicate n x) := by
  induction n generalizing weights first with
  | zero => rw [List.replicate_zero, List.append_nil]; rfl
  | succ n ih =>
      show forLoop _ n (first + 1) (weights ++ [x]) = _
      rw [ih, List.append_assoc]
      rfl

/-- What the outer loop keeps: the weights come first, and with the copies still to come the table follows. -/
def ExpandInv (weights : List ℤ) (i : ℕ) (current : List ℤ) : Prop :=
  weights <+: current ∧ current ++ tableFrom i (weights.drop i) = weights ++ table weights

theorem expandStep_keeps {weights : List ℤ} {i : ℕ} {current : List ℤ} (hlt : i < weights.length)
    (hs : ExpandInv weights i current) :
    ∃ current', expandStep i current = .ok current' ∧ ExpandInv weights (i + 1) current' := by
  obtain ⟨⟨pushed, rfl⟩, hrest⟩ := hs
  have hi : (weights ++ pushed)[i]? = some weights[i] := by
    rw [List.getElem?_append_left hlt, List.getElem?_eq_getElem hlt]
  refine ⟨weights ++ pushed ++ List.replicate weights[i].toNat (i : ℤ), ?_, ?_, ?_⟩
  · rw [expandStep, peek_of_getElem? hi]
    exact pushes_loop _ i _ 0
  · exact ⟨_, (List.append_assoc _ _ _).symm⟩
  · rw [List.drop_eq_getElem_cons hlt, tableFrom, ← List.append_assoc] at hrest
    exact hrest

/-- The table is built, but at the end of `weights`; `expanded` is left empty. -/
theorem expandweights_eq (expanded weights : List ℤ) :
    expandweights expanded weights = .ok ([], weights ++ table weights) := by
  have hfirst : ExpandInv weights 0 weights := ⟨List.prefix_refl _, rfl⟩
  obtain ⟨current, hloop, -, hend⟩ := forLoop_inv (n := weights.length) (ExpandInv weights) hfirst
    fun i current _ hlt hs => expandStep_keeps (by omega) hs
  rw [List.drop_eq_nil_of_le (by omega), tableFrom, List.append_nil] at hend
  show (forLoop expandStep _ _ _).bind _ = _
  rw [hloop, hend]
  rfl

/-- The table has nothing to hold exactly when no weight is above zero. -/
theorem table_eq_nil_iff {weights : List ℤ} (hnn : ∀ w ∈ weights, 0 ≤ w) :
    table weights = [] ↔ ∀ w ∈ weights, w = 0 := by
  rw [table, tableFrom_eq_nil_iff]
  refine forall₂_congr fun w hw => ?_
  have hw0 := hnn w hw
  omega

/-- `expandweights` builds the table exactly when it is empty: when every weight is zero. -/
theorem expandweights_builds_iff (expanded weights : List ℤ) (hnn : ∀ w ∈ weights, 0 ≤ w) :
    BuildsTable expanded weights ↔ ∀ w ∈ weights, w = 0 := by
  rw [← table_eq_nil_iff hnn, BuildsTable, expandweights_eq]
  constructor
  · rintro ⟨expanded', hcall, htable, -⟩
    obtain ⟨rfl, -⟩ := Prod.mk.inj (Except.ok.inj hcall)
    exact htable.symm
  · intro hnil
    refine ⟨[], ?_, hnil.symm, ?_, ?_⟩
    · rw [hnil, List.append_nil]
    · intro i w hw
      have hcount := count_tableFrom hnn hw 0
      rwa [Nat.zero_add, ← table, hnil] at hcount
    · have hlen := length_tableFrom hnn 0
      rwa [← table, hnil] at hlen

theorem expandweights_builds_iff_oneWeight : BuildsTable [] [1] ↔ ∀ w ∈ [(1 : ℤ)], w = 0 :=
  expandweights_builds_iff [] [1] (by decide)

/-- Of one weight 1 the table is `[0]`; `expanded` stays empty, and `weights` becomes `[1, 0]`. -/
theorem expandweights_leaves_empty :
    expandweights [] [1] = .ok ([], [1, 0]) ∧ table [1] = [0] ∧ ¬ BuildsTable [] [1] := by
  refine ⟨by decide, by decide, ?_⟩
  rintro ⟨expanded', hcall, -⟩
  have hcode : expandweights [] [1] = .ok ([], [1, 0]) := by decide
  rw [hcode] at hcall
  cases hcall

end GlbBackend
