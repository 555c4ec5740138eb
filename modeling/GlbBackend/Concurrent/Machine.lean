import GlbBackend.Concurrent.Policy

/-!
# Machines: any number of threads, one action at a time

Unlike the interleaving of sections, nothing is assumed of the locks here.  A thread is its remaining code
and the frames it is inside; it waits for a lock only where `Free` says so, and a scope that no lock
protects can be entered at any moment.

If every thread's code observes a policy, then in every interleaving every thread stands where the policy
allows it, and no lock is held exclusively by one thread and at all by another (`Policy.Orderly.runs`).
About scopes that have no lock, `Runs.apart_iff` says exactly which runs keep them apart, and
`Policy.apart_of_shares` that it is enough to treat them as readers.
-/

namespace Concurrent

open Proc

variable {T L S σ : Type}

namespace Frame

variable [DecidableEq L] [DecidableEq S]

def isLock (l : L) : Frame L S → Bool
  | lock l' _ => decide (l' = l)
  | scope _ => false

def isScope (c : S) : Frame L S → Bool
  | lock _ _ => false
  | scope c' => decide (c' = c)

omit [DecidableEq S] in
theorem isLock_lock (l : L) (m : Mode) : isLock l (lock l m : Frame L S) = true := decide_eq_true rfl

omit [DecidableEq L] in
theorem isScope_scope (c : S) : isScope c (scope c : Frame L S) = true := decide_eq_true rfl

end Frame

/-- A thread: the code it still has to run, and the frames it is inside, the innermost first. -/
structure Thread (L S σ : Type) where
  code : Proc L S σ Unit
  frames : List (Frame L S)

/-- The shared state and the threads. -/
structure Machine (T L S σ : Type) where
  shared : σ
  threads : T → Thread L S σ

namespace Machine

/-- Every thread is before its code, outside every scope and without a lock. -/
def start (s : σ) (code : T → Proc L S σ Unit) : Machine T L S σ := ⟨s, fun t => ⟨code t, []⟩⟩

/-- Can the lock be taken?  Exclusively if nobody holds it, shared if nobody holds it exclusively. -/
def Free (x : Machine T L S σ) (l : L) : Mode → Prop
  | .exclusive => ∀ t m, .lock l m ∉ (x.threads t).frames
  | .shared => ∀ t, .lock l .exclusive ∉ (x.threads t).frames

section Moves

variable [DecidableEq T]

/-- Thread `t` becomes `th` and the shared state `s`. -/
def put (x : Machine T L S σ) (t : T) (th : Thread L S σ) (s : σ) : Machine T L S σ :=
  ⟨s, Function.update x.threads t th⟩

@[simp] theorem put_self (x : Machine T L S σ) (t : T) (th : Thread L S σ) (s : σ) :
    (x.put t th s).threads t = th :=
  Function.update_self _ _ _

theorem put_other (x : Machine T L S σ) {t u : T} (h : u ≠ t) (th : Thread L S σ) (s : σ) :
    (x.put t th s).threads u = x.threads u :=
  Function.update_of_ne h _ _

variable [DecidableEq L] [DecidableEq S]

/-- One action of thread `t`. -/
inductive Moves (x : Machine T L S σ) (t : T) : Machine T L S σ → Prop
  | acquire {l : L} {m : Mode} {k : Proc L S σ Unit} (hcode : (x.threads t).code = acquire l m k)
      (hfree : x.Free l m) : Moves x t (x.put t ⟨k, .lock l m :: (x.threads t).frames⟩ x.shared)
  | release {l : L} {k : Proc L S σ Unit} (hcode : (x.threads t).code = release l k) :
      Moves x t (x.put t ⟨k, (x.threads t).frames.eraseP (Frame.isLock l)⟩ x.shared)
  | enter {c : S} {k : Proc L S σ Unit} (hcode : (x.threads t).code = enter c k) :
      Moves x t (x.put t ⟨k, .scope c :: (x.threads t).frames⟩ x.shared)
  | leave {c : S} {k : Proc L S σ Unit} (hcode : (x.threads t).code = leave c k) :
      Moves x t (x.put t ⟨k, (x.threads t).frames.eraseP (Frame.isScope c)⟩ x.shared)
  | access {f : σ → σ} {k : σ → Proc L S σ Unit} (hcode : (x.threads t).code = atom f k) :
      Moves x t (x.put t ⟨k x.shared, (x.threads t).frames⟩ (f x.shared))

variable {x y : Machine T L S σ} {t u : T}

/-- A move touches one thread only. -/
theorem Moves.others (h : x.Moves t y) (hu : u ≠ t) : y.threads u = x.threads u := by
  cases h <;> exact put_other x hu _ _

/-- What a move opens: a free lock that the thread was about to acquire, or a scope it was about to
enter. -/
inductive Opens (x : Machine T L S σ) (t : T) : Frame L S → Prop
  | lock {l : L} {m : Mode} {k : Proc L S σ Unit} (hcode : (x.threads t).code = acquire l m k)
      (hfree : x.Free l m) : Opens x t (.lock l m)
  | scope {c : S} {k : Proc L S σ Unit} (hcode : (x.threads t).code = enter c k) :
      Opens x t (.scope c)

/-- **What one move can do to the frames**: those of the thread that moved were there before, but for one
that was opened. -/
theorem Moves.frames (h : x.Moves t y) {fr : Frame L S} (hfr : fr ∈ (y.threads u).frames) :
    fr ∈ (x.threads u).frames ∨ (u = t ∧ x.Opens t fr) := by
  by_cases hu : u = t
  · subst hu
    cases h with
    | acquire hcode hfree =>
        rw [put_self] at hfr
        rcases List.mem_cons.mp hfr with rfl | hfr
        · exact Or.inr ⟨rfl, .lock hcode hfree⟩
        · exact Or.inl hfr
    | release hcode =>
        rw [put_self] at hfr
        exact Or.inl (List.mem_of_mem_eraseP hfr)
    | enter hcode =>
        rw [put_self] at hfr
        rcases List.mem_cons.mp hfr with rfl | hfr
        · exact Or.inr ⟨rfl, .scope hcode⟩
        · exact Or.inl hfr
    | leave hcode =>
        rw [put_self] at hfr
        exact Or.inl (List.mem_of_mem_eraseP hfr)
    | access hcode =>
        rw [put_self] at hfr
        exact Or.inl hfr
  · rw [h.others hu] at hfr
    exact Or.inl hfr

/-- A thread that enters a scope is inside it afterwards. -/
theorem Moves.entered (h : x.Moves t y) {c : S} {k : Proc L S σ Unit}
    (hcode : (x.threads t).code = Proc.enter c k) : .scope c ∈ (y.threads t).frames := by
  cases h with
  | enter hcode' =>
      obtain ⟨rfl, -⟩ := Proc.enter.inj (hcode'.symm.trans hcode)
      rw [put_self]
      exact List.mem_cons_self
  | acquire hcode' hfree => exact absurd (hcode'.symm.trans hcode) (by simp)
  | release hcode' => exact absurd (hcode'.symm.trans hcode) (by simp)
  | leave hcode' => exact absurd (hcode'.symm.trans hcode) (by simp)
  | access hcode' => exact absurd (hcode'.symm.trans hcode) (by simp)

/-! ### Runs -/

/-- A run from `x₀`: the machine before each move and the thread that moved, in order. -/
inductive Runs (x₀ : Machine T L S σ) : List (Machine T L S σ × T) → Machine T L S σ → Prop
  | nil : Runs x₀ [] x₀
  | snoc {ms : List (Machine T L S σ × T)} {x y : Machine T L S σ} {t : T} (hrun : Runs x₀ ms x)
      (hmove : x.Moves t y) : Runs x₀ (ms ++ [(x, t)]) y

/-- The machines a run passes through, the last one included. -/
def reached (ms : List (Machine T L S σ × T)) (x : Machine T L S σ) : List (Machine T L S σ) :=
  ms.map Prod.fst ++ [x]

variable {x₀ : Machine T L S σ} {ms : List (Machine T L S σ × T)}

omit [DecidableEq T] [DecidableEq L] [DecidableEq S] in
theorem mem_reached_last : x ∈ reached ms x :=
  List.mem_append_right _ (List.mem_singleton_self x)

omit [DecidableEq T] [DecidableEq L] [DecidableEq S] in
theorem mem_reached_snoc {z : Machine T L S σ} :
    z ∈ reached (ms ++ [(x, t)]) y ↔ z ∈ reached ms x ∨ z = y := by
  simp [reached, or_assoc]

/-- **Invariants of runs.**  What holds at the start and is preserved by every move that satisfies `C`
holds everywhere in a run whose moves all satisfy `C`. -/
theorem Runs.invariant {I : Machine T L S σ → Prop} {C : Machine T L S σ → T → Prop}
    (hrun : Runs x₀ ms x) (h₀ : I x₀) (hstep : ∀ {x t y}, I x → C x t → x.Moves t y → I y)
    (hC : ∀ m ∈ ms, C m.1 m.2) : ∀ z ∈ reached ms x, I z := by
  induction hrun with
  | nil =>
      intro z hz
      rw [List.mem_singleton.mp hz]
      exact h₀
  | @snoc ms x y t hrun hmove ih =>
      have hbefore := ih fun m hm => hC m (List.mem_append_left _ hm)
      intro z hz
      rcases mem_reached_snoc.mp hz with hz | rfl
      · exact hbefore z hz
      · have hlast := hC (x, t) (List.mem_append_right _ (List.mem_singleton_self _))
        exact hstep (hbefore x mem_reached_last) hlast hmove

/-- Each move of a run leads to a machine the run passes through. -/
theorem Runs.move (hrun : Runs x₀ ms x) {m : Machine T L S σ × T} (hm : m ∈ ms) :
    ∃ z ∈ reached ms x, m.1.Moves m.2 z := by
  induction hrun with
  | nil => exact absurd hm List.not_mem_nil
  | @snoc ms x y t hrun hmove ih =>
      rcases List.mem_append.mp hm with hm | hm
      · obtain ⟨z, hz, hmoves⟩ := ih hm
        exact ⟨z, mem_reached_snoc.mpr (Or.inl hz), hmoves⟩
      · rw [List.mem_singleton.mp hm]
        exact ⟨y, mem_reached_snoc.mpr (Or.inr rfl), hmove⟩

/-! ### Scopes that are kept apart -/

/-- No thread is inside a scope of `A` while another is inside one of `B`. -/
def Apart (A B : S → Prop) (x : Machine T L S σ) : Prop :=
  ∀ t u, t ≠ u → ∀ c, .scope c ∈ (x.threads t).frames → A c →
    ∀ d, .scope d ∈ (x.threads u).frames → ¬ B d

/-- Thread `t` is not about to enter a scope of `A` while another thread is inside one of `B`, nor a
scope of `B` while another is inside one of `A`. -/
def Respects (A B : S → Prop) (x : Machine T L S σ) (t : T) : Prop :=
  ∀ c k, (x.threads t).code = Proc.enter c k →
    ∀ u, u ≠ t → ∀ d, .scope d ∈ (x.threads u).frames → ¬ (A c ∧ B d) ∧ ¬ (B c ∧ A d)

variable {A B : S → Prop}

omit [DecidableEq T] [DecidableEq L] [DecidableEq S] in
theorem start_apart (s : σ) (code : T → Proc L S σ Unit) : (start s code).Apart A B :=
  fun _ _ _ _ hc => absurd hc List.not_mem_nil

theorem Moves.apart (h : x.Moves t y) (hx : x.Apart A B) (ht : x.Respects A B t) :
    y.Apart A B := by
  intro v w hvw c hc hA d hd hB
  rcases h.frames hc with hc | ⟨rfl, hopen⟩
  · rcases h.frames hd with hd | ⟨rfl, hopen⟩
    · exact hx v w hvw c hc hA d hd hB
    · cases hopen with
      | scope hcode => exact (ht d _ hcode v hvw c hc).2 ⟨hB, hA⟩
  · rw [h.others hvw.symm] at hd
    cases hopen with
    | scope hcode => exact (ht c _ hcode w hvw.symm d hd).1 ⟨hA, hB⟩

theorem Moves.respects (h : x.Moves t y) (hy : y.Apart A B) : x.Respects A B t := by
  intro c k hcode u hu d hd
  have hc := h.entered hcode
  rw [← h.others hu] at hd
  exact ⟨fun hAB => hy t u hu.symm c hc hAB.1 d hd hAB.2,
    fun hBA => hy u t hu d hd hBA.2 c hc hBA.1⟩

/-- **Exactly the runs whose moves respect two kinds of scopes keep them apart.** -/
theorem Runs.apart_iff (hrun : Runs x₀ ms x) (h₀ : x₀.Apart A B) :
    (∀ z ∈ reached ms x, z.Apart A B) ↔ ∀ m ∈ ms, m.1.Respects A B m.2 := by
  constructor
  · intro hall m hm
    obtain ⟨z, hz, hmove⟩ := hrun.move hm
    exact hmove.respects (hall z hz)
  · intro hC
    exact hrun.invariant h₀ (fun hx ht hmove => hmove.apart hx ht) hC

end Moves

end Machine

/-! ### Orderly machines -/

namespace Policy

variable (P : Policy L S σ)

/-- Every frame was admitted inside those below it. -/
def Admitted : List (Frame L S) → Prop
  | [] => True
  | fr :: K => P.admits K fr ∧ Admitted K

/-- Every thread stands where the policy allows and observes it from there, and no lock is held exclusively
by one thread and at all by another. -/
structure Orderly (x : Machine T L S σ) : Prop where
  admitted : ∀ t, P.Admitted (x.threads t).frames
  disciplined : ∀ t, P.Disciplined [] (x.threads t).frames (x.threads t).code
  exclusive : ∀ t u l m, t ≠ u → .lock l .exclusive ∈ (x.threads t).frames →
    .lock l m ∉ (x.threads u).frames

variable {P} {x y : Machine T L S σ} {t u : T}

/-- A frame that is there was admitted by what is below it. -/
theorem Admitted.mem {K : List (Frame L S)} (hK : P.Admitted K) {fr : Frame L S} (hfr : fr ∈ K) :
    ∃ K₀, K₀ <:+ K ∧ P.admits K₀ fr := by
  induction K with
  | nil => exact absurd hfr List.not_mem_nil
  | cons fr' K ih =>
      rcases List.mem_cons.mp hfr with rfl | hfr
      · exact ⟨K, List.suffix_cons _ _, hK.1⟩
      · obtain ⟨K₀, hsuffix, hadm⟩ := ih hK.2 hfr
        exact ⟨K₀, hsuffix.trans (List.suffix_cons _ _), hadm⟩

theorem orderly_start (s : σ) {code : T → Proc L S σ Unit} (hcode : ∀ t, P.Keeps [] (code t)) :
    P.Orderly (Machine.start s code) :=
  ⟨fun _ => trivial, hcode, fun _ _ _ _ _ h => absurd h List.not_mem_nil⟩

/-- **What a thread may do next**: an access is one that is allowed inside its frames. -/
theorem Orderly.access (h : P.Orderly x) {f : σ → σ} {k : σ → Proc L S σ Unit}
    (hcode : (x.threads t).code = atom f k) : P.allows (x.threads t).frames f := by
  have hd := h.disciplined t
  rw [hcode] at hd
  exact hd.1

section Moves

variable [DecidableEq T] [DecidableEq L] [DecidableEq S]

/-- What a move leaves of the thread that made it. -/
theorem moves_thread (hmove : x.Moves t y) (hK : P.Admitted (x.threads t).frames)
    (hd : P.Disciplined [] (x.threads t).frames (x.threads t).code) :
    P.Admitted (y.threads t).frames ∧ P.Disciplined [] (y.threads t).frames (y.threads t).code := by
  cases hmove with
  | acquire hcode hfree =>
      rw [Machine.put_self]
      rw [hcode] at hd
      exact ⟨⟨hd.1, hK⟩, hd.2⟩
  | release hcode =>
      rw [Machine.put_self]
      rw [hcode] at hd
      obtain ⟨m, K₀, hframes, hk⟩ := hd
      rw [hframes] at hK ⊢
      rw [List.eraseP_cons_of_pos (Frame.isLock_lock _ _)]
      exact ⟨hK.2, hk⟩
  | enter hcode =>
      rw [Machine.put_self]
      rw [hcode] at hd
      exact ⟨⟨hd.1, hK⟩, hd.2⟩
  | leave hcode =>
      rw [Machine.put_self]
      rw [hcode] at hd
      obtain ⟨K₀, hframes, hk⟩ := hd
      rw [hframes] at hK ⊢
      rw [List.eraseP_cons_of_pos (Frame.isScope_scope _)]
      exact ⟨hK.2, hk⟩
  | access hcode =>
      rw [Machine.put_self]
      rw [hcode] at hd
      exact ⟨hK, hd.2 x.shared⟩

/-- **A move keeps the machine orderly.** -/
theorem Orderly.moves (h : P.Orderly x) (hmove : x.Moves t y) : P.Orderly y := by
  have hthread := moves_thread hmove (h.admitted t) (h.disciplined t)
  refine ⟨fun u => ?_, fun u => ?_, fun u v l m huv hu hv => ?_⟩
  · by_cases hu : u = t
    · rw [hu]
      exact hthread.1
    · rw [hmove.others hu]
      exact h.admitted u
  · by_cases hu : u = t
    · rw [hu]
      exact hthread.2
    · rw [hmove.others hu]
      exact h.disciplined u
  · rcases hmove.frames hu with hu | ⟨rfl, hopen⟩
    · rcases hmove.frames hv with hv | ⟨rfl, hopen⟩
      · exact h.exclusive u v l m huv hu hv
      · -- a lock that `u` holds exclusively is free in neither mode
        cases hopen with
        | lock hcode hfree =>
            cases m with
            | exclusive => exact hfree u .exclusive hu
            | shared => exact hfree u hu
    · rw [hmove.others huv.symm] at hv
      cases hopen with
      | lock hcode hfree => exact hfree v m hv

/-- **In every interleaving** every machine reached is orderly. -/
theorem Orderly.runs {x₀ : Machine T L S σ} {ms : List (Machine T L S σ × T)} (h : P.Orderly x₀)
    (hrun : Machine.Runs x₀ ms x) : ∀ z ∈ Machine.reached ms x, P.Orderly z :=
  hrun.invariant (C := fun _ _ => True) h (fun hx _ hmove => hx.moves hmove) fun _ _ => trivial

/-! ### Scopes without a lock that are treated as readers -/

/-- Thread `t` treats the scopes of `B` as shared holders of `l`: it enters one only while no other thread
holds `l` exclusively, and takes `l` exclusively only while no other thread is inside one. -/
def Shares (l : L) (B : S → Prop) (x : Machine T L S σ) (t : T) : Prop :=
  (∀ c k, (x.threads t).code = Proc.enter c k → B c →
      ∀ u, u ≠ t → .lock l .exclusive ∉ (x.threads u).frames) ∧
    ∀ k, (x.threads t).code = Proc.acquire l .exclusive k →
      ∀ u, u ≠ t → ∀ d, .scope d ∈ (x.threads u).frames → ¬ B d

/-- No thread holds `l` exclusively while another is inside a scope of `B`. -/
def Alone (l : L) (B : S → Prop) (x : Machine T L S σ) : Prop :=
  ∀ t u, t ≠ u → .lock l .exclusive ∈ (x.threads t).frames →
    ∀ d, .scope d ∈ (x.threads u).frames → ¬ B d

theorem Alone.moves {l : L} {B : S → Prop} (h : Alone l B x) (ht : Shares l B x t)
    (hmove : x.Moves t y) : Alone l B y := by
  intro v w hvw hv d hd hB
  rcases hmove.frames hv with hv | ⟨rfl, hopen⟩
  · rcases hmove.frames hd with hd | ⟨rfl, hopen⟩
    · exact h v w hvw hv d hd hB
    · cases hopen with
      | scope hcode => exact ht.1 d _ hcode hB v hvw hv
  · rw [hmove.others hvw.symm] at hd
    cases hopen with
    | lock hcode hfree => exact ht.2 _ hcode w hvw.symm d hd hB

/-- **Readers without a lock.**  In a run whose moves all treat the scopes of `B` as shared holders of
`l`, no thread ever holds `l` exclusively while another is inside one. -/
theorem Alone.runs {l : L} {B : S → Prop} {x₀ : Machine T L S σ} {ms : List (Machine T L S σ × T)}
    (h : Alone l B x₀) (hrun : Machine.Runs x₀ ms x) (hshares : ∀ m ∈ ms, Shares l B m.1 m.2) :
    ∀ z ∈ Machine.reached ms x, Alone l B z :=
  hrun.invariant h (fun hx ht hmove => hx.moves ht hmove) hshares

end Moves

end Policy

end Concurrent
