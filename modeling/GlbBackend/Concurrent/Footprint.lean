import Mathlib

/-!
# Footprints

A state that is read cell by cell, and operations of which is known which cells decide what they do
(`reads`) and which ones they may change (`writes`).

* `Local.comm` — two operations commute, replies and states, if neither writes what the other reads or
  writes.
* `perform_alone` — a client whose operations read its own cells only, while those of the others write none
  of them, gets in every schedule what it gets alone.
-/

namespace Concurrent

variable {Cell A R Op T : Type} {V : Cell → Type}

section Local

variable (get : (c : Cell) → A → V c)

/-- The states agree on the cells. -/
def Agree (F : Set Cell) (a b : A) : Prop := ∀ c ∈ F, get c a = get c b

/-- An operation changes no cell but those it `writes`, and what it replies and leaves there depends on the
cells it `reads` only. -/
structure Local (reads writes : Set Cell) (op : A → R × A) : Prop where
  frame : ∀ a, ∀ c, c ∉ writes → get c (op a).2 = get c a
  congr : ∀ a b, Agree get reads a b → (op a).1 = (op b).1 ∧ Agree get writes (op a).2 (op b).2

end Local

section Commute

variable {get : (c : Cell) → A → V c} {reads writes reads' writes' F : Set Cell} {op op' : A → R × A}

/-- An operation spares the cells it does not write. -/
theorem Local.spares (h : Local get reads writes op) (hF : Disjoint writes F) (a : A) :
    Agree get F (op a).2 a := fun c hc => h.frame a c (hF.notMem_of_mem_right hc)

/-- On cells that cover what it reads an operation does the same to states that agree. -/
theorem Local.serves (h : Local get reads writes op) (hF : reads ⊆ F) {a b : A} (hab : Agree get F a b) :
    (op a).1 = (op b).1 ∧ Agree get F (op a).2 (op b).2 := by
  obtain ⟨hreply, hwrites⟩ := h.congr a b fun c hc => hab c (hF hc)
  refine ⟨hreply, fun c hc => ?_⟩
  by_cases hw : c ∈ writes
  · exact hwrites c hw
  · rw [h.frame a c hw, h.frame b c hw, hab c hc]

/-- The cells an operation writes do not tell whether another ran before it. -/
theorem Local.after (h : Local get reads writes op) (h' : Local get reads' writes' op')
    (hreads : Disjoint writes' reads) (hwrites : Disjoint writes' writes) (a : A) {c : Cell}
    (hc : c ∈ writes) :
    get c (op' (op a).2).2 = get c (op (op' a).2).2 := by
  rw [h'.frame _ c (hwrites.notMem_of_mem_right hc)]
  exact ((h.congr _ _ (h'.spares hreads a)).2 c hc).symm

/-- **Operations with footprints apart commute.** -/
theorem Local.comm (hext : ∀ a b, (∀ c, get c a = get c b) → a = b) (h : Local get reads writes op)
    (h' : Local get reads' writes' op') (hwrites : Disjoint writes writes') (hreads : Disjoint writes reads')
    (hreads' : Disjoint writes' reads) (a : A) :
    (op' (op a).2).1 = (op' a).1 ∧ (op (op' a).2).1 = (op a).1 ∧ (op' (op a).2).2 = (op (op' a).2).2 := by
  refine ⟨(h'.congr _ _ (h.spares hreads a)).1, (h.congr _ _ (h'.spares hreads' a)).1, hext _ _ fun c => ?_⟩
  by_cases hc : c ∈ writes
  · exact h.after h' hreads' hwrites.symm a hc
  · by_cases hc' : c ∈ writes'
    · exact (h'.after h hreads hwrites a hc').symm
    · rw [h'.frame _ c hc', h.frame _ c hc, h.frame _ c hc, h'.frame _ c hc']

end Commute

/-! ### Schedules -/

/-- The operations of some clients, one after the other, with what each client is replied. -/
def perform (apply : Op → A → R × A) : List (T × Op) → A → List (T × R) × A
  | [], a => ([], a)
  | (t, op) :: sched, a =>
      ((t, (apply op a).1) :: (perform apply sched (apply op a).2).1, (perform apply sched (apply op a).2).2)

/-- **Every client gets what it gets alone**, in every schedule: its replies, and what is in its cells. -/
theorem perform_alone [DecidableEq T] {get : (c : Cell) → A → V c} (apply : Op → A → R × A)
    {reads writes : T × Op → Set Cell} {sched : List (T × Op)} {t : T} {view : Set Cell}
    (hlocal : ∀ e ∈ sched, Local get (reads e) (writes e) (apply e.2))
    (hown : ∀ e ∈ sched, e.1 = t → reads e ⊆ view)
    (hother : ∀ e ∈ sched, e.1 ≠ t → Disjoint (writes e) view) {a b : A} (hab : Agree get view a b) :
    (perform apply sched a).1.filter (·.1 = t) = (perform apply (sched.filter (·.1 = t)) b).1 ∧
      Agree get view (perform apply sched a).2 (perform apply (sched.filter (·.1 = t)) b).2 := by
  induction sched generalizing a b with
  | nil => exact ⟨rfl, hab⟩
  | cons e sched ih =>
      obtain ⟨u, op⟩ := e
      have hop := hlocal _ List.mem_cons_self
      have hrest := @ih (fun e he => hlocal e (List.mem_cons_of_mem _ he))
        (fun e he => hown e (List.mem_cons_of_mem _ he)) fun e he => hother e (List.mem_cons_of_mem _ he)
      by_cases hu : u = t
      · -- an operation of the client does the same in both
        obtain ⟨hreply, hagree⟩ := hop.serves (hown _ List.mem_cons_self hu) hab
        obtain ⟨hreplies, hstate⟩ := hrest hagree
        simp only [perform, List.filter_cons, hu, decide_true, if_true, hreplies, hreply]
        exact ⟨trivial, hstate⟩
      · -- one of another client does not show
        have hagree : Agree get view (apply op a).2 b := fun c hc =>
          (hop.spares (hother _ List.mem_cons_self hu) a c hc).trans (hab c hc)
        obtain ⟨hreplies, hstate⟩ := hrest hagree
        simp only [perform, List.filter_cons, hu, decide_false, Bool.false_eq_true, if_false]
        exact ⟨hreplies, hstate⟩

end Concurrent
