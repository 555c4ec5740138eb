import Mathlib.Logic.Relation
import GlbBackend.Concurrent.Machine

/-!
# Progress: no thread waits for ever in a circle

A thread that is not done can move unless it waits for a lock.  If a lock that is taken inside others ranks
above them, then whoever holds a lock waits, if at all, for one of a greater rank; so from any thread that
is not done a chain of threads, each waiting for the next, ends at one that can move (`Orderly.progress`).

That holds also if new readers of a lock are held back while a writer waits for it: `gate` is the set of the
locks where this is so, and it may be any set of locks that some writer waits for.  Which thread moves in a
run, and when an implementation holds readers back, is left open: every run of it is one of `Machine.Runs`.

No thread may stop at a fault; `Machine.Sound` is the invariant that excludes it.
-/

namespace Concurrent

open Proc

variable {T L S σ : Type}

namespace Machine

/-! ### No faults -/

/-- The shared state satisfies the invariant, and the code of every thread is safe, seen from some earlier
state. -/
structure Sound (I : σ → Prop) (G : σ → σ → Prop) (x : Machine T L S σ) : Prop where
  inv : I x.shared
  threads : ∀ t, ∃ h, G h x.shared ∧ Safe I G (fun _ _ => True) h (x.threads t).code

section Sound

variable {I : σ → Prop} {G : σ → σ → Prop} {x y : Machine T L S σ} {t : T}

theorem Sound.ne_fault (h : x.Sound I G) (t : T) : (x.threads t).code ≠ fault := by
  intro hcode
  obtain ⟨h', -, hsafe⟩ := h.threads t
  rw [hcode] at hsafe
  exact hsafe

variable [DecidableEq T]

/-- A thread goes on safely, and the state changes as the guarantee allows. -/
theorem Sound.put (h : x.Sound I G) (htrans : ∀ {s t u}, G s t → G t u → G s u) {th : Thread L S σ} {s : σ}
    (hs : I s) (hG : G x.shared s) (hth : ∃ h', G h' s ∧ Safe I G (fun _ _ => True) h' th.code) :
    (x.put t th s).Sound I G := by
  refine ⟨hs, fun u => ?_⟩
  by_cases hu : u = t
  · rw [hu, put_self]
    exact hth
  · rw [put_other x hu]
    obtain ⟨h', hh', hsafe⟩ := h.threads u
    exact ⟨h', htrans hh' hG, hsafe⟩

variable [DecidableEq L] [DecidableEq S]

/-- **A move keeps the machine sound.** -/
theorem Sound.moves (h : x.Sound I G) (hrefl : ∀ s, G s s) (htrans : ∀ {s t u}, G s t → G t u → G s u)
    (hmove : x.Moves t y) : y.Sound I G := by
  obtain ⟨h', hh', hsafe⟩ := h.threads t
  cases hmove with
  | acquire hcode hfree =>
      rw [hcode] at hsafe
      exact h.put htrans h.inv (hrefl _) ⟨h', hh', hsafe⟩
  | release hcode =>
      rw [hcode] at hsafe
      exact h.put htrans h.inv (hrefl _) ⟨h', hh', hsafe⟩
  | enter hcode =>
      rw [hcode] at hsafe
      exact h.put htrans h.inv (hrefl _) ⟨h', hh', hsafe⟩
  | leave hcode =>
      rw [hcode] at hsafe
      exact h.put htrans h.inv (hrefl _) ⟨h', hh', hsafe⟩
  | access hcode =>
      rw [hcode] at hsafe
      obtain ⟨hinv, hG, hrest⟩ := hsafe x.shared h.inv hh'
      exact h.put htrans hinv hG ⟨_, hrefl _, hrest⟩

/-- **In every interleaving** every machine reached is sound. -/
theorem Sound.runs {x₀ : Machine T L S σ} {ms : List (Machine T L S σ × T)} (h : x₀.Sound I G)
    (hrefl : ∀ s, G s s) (htrans : ∀ {s t u}, G s t → G t u → G s u) (hrun : Runs x₀ ms x) :
    ∀ z ∈ reached ms x, z.Sound I G :=
  hrun.invariant (C := fun _ _ => True) h (fun hx _ hmove => hx.moves hrefl htrans hmove) fun _ _ => trivial

end Sound

/-! ### Waiting -/

section Waiting

variable (gate : L → Prop) (x : Machine T L S σ) {t u : T} {l : L} {m : Mode} {k : Proc L S σ Unit}

/-- `u` stands in the way of `t`: it holds the lock that `t` waits for, or it waits to take that lock
exclusively while new readers are held back. -/
inductive Awaits (t u : T) : Prop
  | holder {l : L} {m m' : Mode} {k : Proc L S σ Unit} (hcode : (x.threads t).code = acquire l m k)
      (hheld : .lock l m' ∈ (x.threads u).frames) (hmode : m = .exclusive ∨ m' = .exclusive) : Awaits t u
  | writer {l : L} {k k' : Proc L S σ Unit} (hcode : (x.threads t).code = acquire l .shared k)
      (hgate : gate l) (hwaits : (x.threads u).code = acquire l .exclusive k') : Awaits t u

/-- A lock that cannot be taken is held. -/
theorem free_or_held (l : L) (m : Mode) :
    x.Free l m ∨ ∃ u m', .lock l m' ∈ (x.threads u).frames ∧ (m = .exclusive ∨ m' = .exclusive) := by
  cases m with
  | exclusive =>
      by_cases hheld : ∃ u m', Frame.lock l m' ∈ (x.threads u).frames
      · obtain ⟨u, m', hheld⟩ := hheld
        exact Or.inr ⟨u, m', hheld, Or.inl rfl⟩
      · exact Or.inl fun u m' hmem => hheld ⟨u, m', hmem⟩
  | shared =>
      by_cases hheld : ∃ u, Frame.lock l .exclusive ∈ (x.threads u).frames
      · obtain ⟨u, hheld⟩ := hheld
        exact Or.inr ⟨u, .exclusive, hheld, Or.inr rfl⟩
      · exact Or.inl fun u hmem => hheld ⟨u, hmem⟩

variable [DecidableEq T] [DecidableEq L] [DecidableEq S]

/-- Thread `t` can move, also if new readers of the locks in `gate` are held back. -/
def CanMove (t : T) : Prop :=
  (∃ y, x.Moves t y) ∧ ∀ l k, (x.threads t).code = acquire l .shared k → ¬ gate l

variable {gate x}

theorem canMove_of_free (hcode : (x.threads t).code = acquire l m k) (hfree : x.Free l m)
    (hgate : ¬ (m = .shared ∧ gate l)) : x.CanMove gate t := by
  refine ⟨⟨_, .acquire hcode hfree⟩, fun l' k' hcode' hmem => ?_⟩
  obtain ⟨rfl, rfl, -⟩ := Proc.acquire.inj (hcode.symm.trans hcode')
  exact hgate ⟨rfl, hmem⟩

/-- All that a thread can wait for is a lock. -/
theorem canMove_or_acquires (hfault : (x.threads t).code ≠ fault) (hdone : (x.threads t).code ≠ ret ()) :
    x.CanMove gate t ∨ ∃ l m k, (x.threads t).code = acquire l m k := by
  have hother : (∀ l m k, (x.threads t).code ≠ acquire l m k) → (∃ y, x.Moves t y) → x.CanMove gate t :=
    fun hno hmove => ⟨hmove, fun l k hcode => absurd hcode (hno l _ k)⟩
  cases hcode : (x.threads t).code with
  | ret a => exact absurd hcode hdone
  | fault => exact absurd hcode hfault
  | acquire l m k => exact Or.inr ⟨l, m, k, rfl⟩
  | release l k => exact Or.inl (hother (by simp [hcode]) ⟨_, .release hcode⟩)
  | enter c k => exact Or.inl (hother (by simp [hcode]) ⟨_, .enter hcode⟩)
  | leave c k => exact Or.inl (hother (by simp [hcode]) ⟨_, .leave hcode⟩)
  | atom f k => exact Or.inl (hother (by simp [hcode]) ⟨_, .access hcode⟩)

end Waiting

end Machine

/-! ### Ranks -/

namespace Policy

/-- A lock that is taken inside others ranks above them. -/
def Ranked (P : Policy L S σ) (rank : L → ℕ) : Prop :=
  ∀ K l m, P.admits K (.lock l m) → ∀ l' m', .lock l' m' ∈ K → rank l' < rank l

section Ranked

variable {P : Policy L S σ} {rank : L → ℕ} {x : Machine T L S σ} {t : T} {l l' : L} {m m' : Mode}
  {k : Proc L S σ Unit}

/-- A thread waits for locks of greater rank than those it holds. -/
theorem Orderly.rank_lt (h : P.Orderly x) (hP : P.Ranked rank) (hcode : (x.threads t).code = acquire l m k)
    (hheld : .lock l' m' ∈ (x.threads t).frames) : rank l' < rank l := by
  have hd := h.disciplined t
  rw [hcode] at hd
  exact hP _ l m hd.1 l' m' hheld

/-- **No thread waits for a lock that it holds.** -/
theorem Orderly.not_held (h : P.Orderly x) (hP : P.Ranked rank) (hcode : (x.threads t).code = acquire l m k) :
    .lock l m' ∉ (x.threads t).frames := fun hheld => Nat.lt_irrefl _ (h.rank_lt hP hcode hheld)

/-- A thread that is inside something is not done. -/
theorem Orderly.not_done (h : P.Orderly x) {fr : Frame L S} (hfr : fr ∈ (x.threads t).frames) :
    (x.threads t).code ≠ ret () := by
  intro hcode
  have hd := h.disciplined t
  rw [hcode] at hd
  have hnil : (x.threads t).frames = [] := hd
  rw [hnil] at hfr
  exact List.not_mem_nil hfr

variable [DecidableEq T] [DecidableEq L] [DecidableEq S]

/-- **Progress.**  Every thread that is not done waits, through a chain of threads each of which waits for
the next, for one that can move. -/
theorem Orderly.progress (h : P.Orderly x) (hP : P.Ranked rank) {bound : ℕ} (hbound : ∀ l, rank l ≤ bound)
    (hfault : ∀ t, (x.threads t).code ≠ fault) {gate : L → Prop}
    (hgate : ∀ l, gate l → ∃ t k, (x.threads t).code = acquire l .exclusive k)
    (hdone : (x.threads t).code ≠ ret ()) :
    ∃ u, Relation.ReflTransGen (x.Awaits gate) t u ∧ x.CanMove gate u := by
  -- by induction on how far the rank of the lock waited for is below the greatest
  have hwait : ∀ n t l m k, (x.threads t).code = acquire l m k → bound < rank l + n →
      ∃ u, Relation.ReflTransGen (x.Awaits gate) t u ∧ x.CanMove gate u := by
    intro n
    induction n with
    | zero =>
        intro t l m k hcode hrank
        exact absurd (hbound l) (by omega)
    | succ n ih =>
        intro t l m k hcode hrank
        have hholder : ∀ u m', .lock l m' ∈ (x.threads u).frames →
            ∃ v, Relation.ReflTransGen (x.Awaits gate) u v ∧ x.CanMove gate v := by
          intro u m' hheld
          rcases Machine.canMove_or_acquires (hfault u) (h.not_done hheld) with hmove | ⟨l', m'', k', hcode'⟩
          · exact ⟨u, .refl, hmove⟩
          · have hlt := h.rank_lt hP hcode' hheld
            exact ih u l' m'' k' hcode' (by omega)
        have hwriter : ∀ u k', (x.threads u).code = acquire l .exclusive k' →
            ∃ v, Relation.ReflTransGen (x.Awaits gate) u v ∧ x.CanMove gate v := by
          intro u k' hcode'
          rcases x.free_or_held l .exclusive with hfree | ⟨v, m', hheld, hmode⟩
          · exact ⟨u, .refl, Machine.canMove_of_free hcode' hfree (by simp)⟩
          · obtain ⟨w, hchain, hmove⟩ := hholder v m' hheld
            exact ⟨w, hchain.head (.holder hcode' hheld hmode), hmove⟩
        by_cases hback : m = .shared ∧ gate l
        · -- a reader that is held back waits for the writer
          obtain ⟨rfl, hmem⟩ := hback
          obtain ⟨u, k', hcode'⟩ := hgate l hmem
          obtain ⟨v, hchain, hmove⟩ := hwriter u k' hcode'
          exact ⟨v, hchain.head (.writer hcode hmem hcode'), hmove⟩
        · rcases x.free_or_held l m with hfree | ⟨u, m', hheld, hmode⟩
          · exact ⟨t, .refl, Machine.canMove_of_free hcode hfree hback⟩
          · obtain ⟨v, hchain, hmove⟩ := hholder u m' hheld
            exact ⟨v, hchain.head (.holder hcode hheld hmode), hmove⟩
  rcases Machine.canMove_or_acquires (hfault t) hdone with hmove | ⟨l, m, k, hcode⟩
  · exact ⟨t, .refl, hmove⟩
  · exact hwait (bound + 1) t l m k hcode (by omega)

end Ranked

end Policy

end Concurrent
