import Mathlib.Tactic.Common
import Mathlib.Data.Nat.Notation
import Mathlib.Data.Int.Notation

/-!
# Counting loops and while loops

* `forLoop` is `for (i = first; i < first + n; i++)`.
* `boundedLoop` is `while (i < limit && u > 0) { ...; i++; u--; }`; it is a counting loop of
  `min limit u` rounds (`boundedLoop_eq`).
* `whileLoop` is `while (cond)`; its fuel bounds the number of rounds, and a loop that would go on after
  them ends in an error of its own.

What every round keeps holds at the end (`forLoop_inv`, `whileLoop_inv`); a while loop ends if a measure falls
with every round, and more fuel does not change its result (`whileLoop_mono`).  A loop that indexes a list is
the recursion over the list (`forLoop_index`).
-/

namespace Imperative

variable {m : Type → Type} [Monad m] {σ α ε : Type}

/-- `for (i = first; i < first + n; i++)`. -/
def forLoop (body : ℕ → σ → m σ) : ℕ → ℕ → σ → m σ
  | 0, _, s => pure s
  | n + 1, first, s => do
      let s ← body first s
      forLoop body n (first + 1) s

/-- `while (i < limit && u > 0) { ...; i++; u--; }`, from `i` on; the result has the last `i`. -/
def boundedLoop (limit : ℤ) (body : ℕ → σ → m σ) : ℕ → ℕ → σ → m (ℕ × σ)
  | 0, i, s => pure (i, s)
  | u + 1, i, s =>
      if (i : ℤ) < limit then do
        let s ← body i s
        boundedLoop limit body u (i + 1) s
      else pure (i, s)

/-- `while (cond)`, for at most as many rounds as there is fuel. -/
def whileLoop (timeout : ε) (cond : σ → Bool) (body : σ → Except ε σ) : ℕ → σ → Except ε σ
  | 0, _ => .error timeout
  | fuel + 1, s => if cond s then (body s).bind (whileLoop timeout cond body fuel) else .ok s

/-! ### Counting -/

/-- **What every round keeps holds at the end.** -/
theorem forLoop_inv {body : ℕ → σ → Except ε σ} (I : ℕ → σ → Prop) {n first : ℕ} {s : σ} (hs : I first s)
    (hstep : ∀ i s, first ≤ i → i < first + n → I i s → ∃ s', body i s = .ok s' ∧ I (i + 1) s') :
    ∃ s', forLoop body n first s = .ok s' ∧ I (first + n) s' := by
  induction n generalizing first s with
  | zero => exact ⟨s, rfl, hs⟩
  | succ n ih =>
      obtain ⟨s₁, hbody, hs₁⟩ := hstep first s (Nat.le_refl first) (by omega) hs
      obtain ⟨s', hrest, hs'⟩ := ih hs₁ fun i t hle hlt => hstep i t (by omega) (by omega)
      refine ⟨s', ?_, ?_⟩
      · show (body first s).bind _ = .ok s'
        rw [hbody]
        exact hrest
      · rw [show first + (n + 1) = first + 1 + n by omega]
        exact hs'

/-- A loop on a part of the state is the loop on the whole. -/
theorem forLoop_map {τ : Type} {body : ℕ → σ → Except ε σ} {whole : ℕ → τ → Except ε τ} (embed : σ → τ)
    (hbody : ∀ i s, whole i (embed s) = (body i s).map embed) (n first : ℕ) (s : σ) :
    forLoop whole n first (embed s) = (forLoop body n first s).map embed := by
  induction n generalizing first s with
  | zero => rfl
  | succ n ih =>
      show (whole first (embed s)).bind _ = ((body first s).bind _).map embed
      rw [hbody]
      cases body first s with
      | error e => rfl
      | ok s₁ => exact ih (first + 1) s₁

/-- A loop whose rounds take the elements of a list by their index is the recursion over the list. -/
theorem forLoop_index {body : ℕ → σ → m σ} (step : α → σ → m σ) (recur : List α → σ → m σ)
    (hnil : ∀ s, recur [] s = pure s)
    (hcons : ∀ x rest s, recur (x :: rest) s = step x s >>= recur rest) {xs : List α}
    (hbody : ∀ i x s, xs[i]? = some x → body i s = step x s) (first : ℕ) (s : σ) :
    forLoop body (xs.length - first) first s = recur (xs.drop first) s := by
  induction hn : xs.length - first generalizing first s with
  | zero =>
      rw [List.drop_eq_nil_of_le (by omega), hnil]
      rfl
  | succ n ih =>
      have hlt : first < xs.length := by omega
      rw [List.drop_eq_getElem_cons hlt, hcons, ← hbody first _ s (List.getElem?_eq_getElem hlt)]
      show (body first s >>= fun s => forLoop body n (first + 1) s) = _
      exact congrArg (body first s >>= ·) (funext fun s₁ => ih (first + 1) s₁ (by omega))

/-- **A loop with two bounds counts to the smaller one.** -/
theorem boundedLoop_eq {body : ℕ → σ → Except ε σ} {limit : ℤ} {u i : ℕ} {s : σ} {n : ℕ}
    (hn : n = min (limit - i).toNat u) :
    boundedLoop limit body u i s = (forLoop body n i s).map fun s' => (i + n, s') := by
  induction u generalizing i n s with
  | zero =>
      obtain rfl : n = 0 := by omega
      rfl
  | succ u ih =>
      rw [boundedLoop]
      split_ifs with hlt
      · obtain ⟨n, rfl⟩ : ∃ n', n = n' + 1 := ⟨n - 1, by omega⟩
        show (body i s).bind _ = ((body i s).bind _).map _
        cases body i s with
        | error e => rfl
        | ok s₁ =>
            show boundedLoop limit body u (i + 1) s₁ = (forLoop body n (i + 1) s₁).map _
            rw [ih (n := n) (by push_cast; omega), show i + 1 + n = i + (n + 1) by omega]
      · obtain rfl : n = 0 := by omega
        rfl

/-! ### Looping while a condition holds -/

section While

variable {timeout : ε} {cond : σ → Bool} {body : σ → Except ε σ}

/-- **What every round keeps holds at the end, and a falling measure brings the end.** -/
theorem whileLoop_inv (I : σ → Prop) (measure : σ → ℕ)
    (hstep : ∀ s, I s → cond s = true → ∃ s', body s = .ok s' ∧ I s' ∧ measure s' < measure s)
    {fuel : ℕ} {s : σ} (hs : I s) (hfuel : measure s < fuel) :
    ∃ s', whileLoop timeout cond body fuel s = .ok s' ∧ I s' ∧ cond s' = false := by
  induction fuel generalizing s with
  | zero => exact absurd hfuel (Nat.not_lt_zero _)
  | succ fuel ih =>
      cases hc : cond s with
      | false =>
          refine ⟨s, ?_, hs, hc⟩
          rw [whileLoop, hc]
          rfl
      | true =>
          obtain ⟨s₁, hbody, hs₁, hlt⟩ := hstep s hs hc
          obtain ⟨s', hrest, hs'⟩ := ih hs₁ (by omega)
          refine ⟨s', ?_, hs'⟩
          rw [whileLoop, hc, if_pos rfl, hbody]
          exact hrest

/-- More fuel changes no result. -/
theorem whileLoop_mono {fuel more : ℕ} {s s' : σ} (h : whileLoop timeout cond body fuel s = .ok s')
    (hle : fuel ≤ more) : whileLoop timeout cond body more s = .ok s' := by
  induction fuel generalizing more s with
  | zero => cases h
  | succ fuel ih =>
      obtain ⟨more, rfl⟩ := Nat.exists_eq_add_of_le' (Nat.lt_of_lt_of_le (Nat.succ_pos fuel) hle)
      rw [whileLoop] at h ⊢
      split_ifs at h ⊢ with hc
      · cases hbody : body s with
        | error e =>
            rw [hbody] at h
            cases h
        | ok s₁ =>
            rw [hbody] at h
            exact ih h (by omega)
      · exact h

end While

end Imperative
