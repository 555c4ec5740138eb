import Mathlib.Data.List.Forall2

/-!
# Runs with answers, and unwinding

A system takes inputs one at a time, answers each of them and goes on in another state.  Its steps are a relation, as
an answer may depend on what the states do not show.  `Journal` is a run with its inputs and answers.

Two runs of a system can be compared step by step, the second without some of the inputs of the first.  If an input
that is left out keeps the states related, and an input that both runs have keeps them related and is answered alike,
then the runs end in related states and the inputs they share are answered alike (`Journal.unwind`).
-/

namespace Concurrent

variable {σ ι ω : Type}

/-- A run, with the inputs and how they were answered. -/
inductive Journal (step : σ → ι → ω → σ → Prop) : σ → List (ι × ω) → σ → Prop
  | nil (s : σ) : Journal step s [] s
  | cons {s s₁ s₂ : σ} {i : ι} {o : ω} {rs : List (ι × ω)} (hstep : step s i o s₁)
      (hrest : Journal step s₁ rs s₂) : Journal step s ((i, o) :: rs) s₂

/-- The relation `R` survives the inputs that are left out and those that are kept; the latter are answered alike. -/
structure Unwinding (step : σ → ι → ω → σ → Prop) (keep : ι → Bool) (R : σ → σ → Prop)
    (alike : ι → ω → ω → Prop) : Prop where
  dropped : ∀ {s s' t : σ} {i : ι} {o : ω}, keep i = false → R s t → step s i o s' → R s' t
  kept : ∀ {s s' t t' : σ} {i : ι} {o p : ω}, keep i = true → R s t → step s i o s' → step t i p t' →
    alike i o p ∧ R s' t'

variable {step : σ → ι → ω → σ → Prop} {keep : ι → Bool} {R : σ → σ → Prop} {alike : ι → ω → ω → Prop}

/-- The inputs are the same and were answered alike. -/
def AnsweredAlike (alike : ι → ω → ω → Prop) (r p : ι × ω) : Prop := r.1 = p.1 ∧ alike r.1 r.2 p.2

/-- **Unwinding.** -/
theorem Journal.unwind (hu : Unwinding step keep R alike) {s s' t t' : σ} {rs ps : List (ι × ω)}
    (hrs : Journal step s rs s') (hps : Journal step t ps t') (hR : R s t)
    (hinputs : (rs.map Prod.fst).filter keep = ps.map Prod.fst) :
    R s' t' ∧ List.Forall₂ (AnsweredAlike alike) (rs.filter fun r => keep r.1) ps := by
  induction hrs generalizing t ps with
  | nil s =>
      cases hps with
      | nil => exact ⟨hR, List.Forall₂.nil⟩
      | cons hstep hrest => cases hinputs
  | @cons s s₁ s₂ i o rs hstep hrest ih =>
      rw [List.map_cons, List.filter_cons] at hinputs
      rw [List.filter_cons]
      cases hkeep : keep i with
      | false =>
          rw [hkeep, if_neg Bool.false_ne_true] at hinputs
          rw [if_neg Bool.false_ne_true]
          exact ih hps (hu.dropped hkeep hR hstep) hinputs
      | true =>
          rw [hkeep, if_pos rfl] at hinputs
          rw [if_pos rfl]
          cases hps with
          | nil => cases hinputs
          | @cons _ t₁ _ j p ps hstep' hrest' =>
              obtain ⟨rfl, htail⟩ := List.cons.inj hinputs
              obtain ⟨halike, hR₁⟩ := hu.kept hkeep hR hstep hstep'
              obtain ⟨hR', hrest⟩ := ih hrest' hR₁ htail
              exact ⟨hR', List.Forall₂.cons ⟨rfl, halike⟩ hrest⟩

/-- Two runs on the same inputs. -/
theorem Journal.compare (hu : Unwinding step (fun _ => true) R alike) {s s' t t' : σ} {rs ps : List (ι × ω)}
    (hrs : Journal step s rs s') (hps : Journal step t ps t') (hR : R s t)
    (hinputs : rs.map Prod.fst = ps.map Prod.fst) :
    R s' t' ∧ List.Forall₂ (AnsweredAlike alike) rs ps := by
  have h := hrs.unwind hu hps hR (by rw [List.filter_true]; exact hinputs)
  rwa [List.filter_true] at h

end Concurrent
