import GlbBackend.Concurrent.Accesses

/-!
# One lock at a time

Threads that hold no lock while they take one cannot block each other for good.  A thread inside frames comes out of
them without waiting, and when every thread is outside its frames, any one of them runs to its end; so every fine run
can be continued until all operations have returned (`FineRun.completes`).
-/

namespace Concurrent

open Proc

variable {T Op L S σ R α : Type}

/-- The code takes locks only outside all frames, never faults and closes what it opens. -/
def OneLock : List (Frame L S) → Proc L S σ α → Prop
  | K, ret _ => K = []
  | _, fault => False
  | K, acquire l m k => K = [] ∧ OneLock [.lock l m] k
  | K, release l k => ∃ m K₀, K = .lock l m :: K₀ ∧ OneLock K₀ k
  | K, enter c k => OneLock (.scope c :: K) k
  | K, leave c k => ∃ K₀, K = .scope c :: K₀ ∧ OneLock K₀ k
  | K, atom _ k => ∀ s, OneLock K (k s)

theorem OneLock.bind {β : Type} {K : List (Frame L S)} {p : Proc L S σ α} {q : α → Proc L S σ β} (hp : OneLock K p)
    (hq : ∀ a, OneLock [] (q a)) : OneLock K (p.bind q) := by
  induction p generalizing K with
  | ret a =>
      have hK : K = [] := hp
      rw [hK]
      exact hq a
  | fault => exact hp.elim
  | acquire l m k ih => exact ⟨hp.1, ih hp.2⟩
  | release l k ih =>
      obtain ⟨m, K₀, hK, hk⟩ := hp
      exact ⟨m, K₀, hK, ih hk⟩
  | enter c k ih => exact ih hp
  | leave c k ih =>
      obtain ⟨K₀, hK, hk⟩ := hp
      exact ⟨K₀, hK, ih hk⟩
  | atom f k ih => exact fun s => ih s (hp s)

section Runs

variable {sys : System T Op L S σ R} {c₀ c : Fine T L S σ R} {es : List (Event T Op S σ R)} {t : T}

/-- Every thread takes one lock at a time, and has no more operations behind it than it has. -/
structure Fine.Single (sys : System T Op L S σ R) (c : Fine T L S σ R) : Prop where
  code : ∀ t b, c.running t = some b → OneLock b.frames b.code
  finished : ∀ t, c.finished t ≤ (sys.program t).length
  running : ∀ t b, c.running t = some b → c.finished t < (sys.program t).length

/-- When nobody is inside frames, every lock is free. -/
theorem Fine.free_of_outside (h : ∀ u, c.frames u = []) (l : L) (m : Mode) : c.Free l m := by
  cases m with
  | exclusive =>
      intro u m' hm'
      rw [h u] at hm'
      cases hm'
  | shared =>
      intro u hm'
      rw [h u] at hm'
      cases hm'

variable [DecidableEq T]

theorem Fine.Single.become (h : c.Single sys) {b b' : Busy L S σ R} (hbusy : c.running t = some b)
    (hb : OneLock b'.frames b'.code) (s : σ) : (c.become t (some b') s).Single sys where
  code u b'' hu := by
    rw [Fine.become_running] at hu
    split_ifs at hu with hut
    · cases hu
      exact hb
    · exact h.code u b'' hu
  finished := h.finished
  running u b'' hu := by
    rw [Fine.become_running] at hu
    split_ifs at hu with hut
    · rw [hut]
      exact h.running t b hbusy
    · exact h.running u b'' hu

theorem Fine.Single.invoke (h : c.Single sys) {op : Op} (hop : (sys.program t)[c.finished t]? = some op)
    (hcode : OneLock [] (sys.code op)) : (c.become t (some ⟨sys.code op, []⟩) c.shared).Single sys where
  code u b hu := by
    rw [Fine.become_running] at hu
    split_ifs at hu with hut
    · cases hu
      exact hcode
    · exact h.code u b hu
  finished := h.finished
  running u b hu := by
    rw [Fine.become_running] at hu
    split_ifs at hu with hut
    · rw [hut]
      exact (List.getElem?_eq_some_iff.mp hop).1
    · exact h.running u b hu

theorem Fine.Single.respond (h : c.Single sys) {b : Busy L S σ R} (hdone : c.running t = some b) :
    (c.responded t).Single sys where
  code u b hu := by
    rw [Fine.responded_running] at hu
    split_ifs at hu
    exact h.code u b hu
  finished u := by
    show Function.update c.finished t (c.finished t + 1) u ≤ _
    rw [Function.update_apply]
    split_ifs with hut
    · rw [hut]
      exact h.running t b hdone
    · exact h.finished u
  running u b hu := by
    rw [Fine.responded_running] at hu
    split_ifs at hu with hut
    show Function.update c.finished t (c.finished t + 1) u < _
    rw [Function.update_of_ne hut]
    exact h.running u b hu

theorem Fine.become_self {b : Busy L S σ R} (h : c.running t = some b) : c.become t (some b) c.shared = c := by
  rw [become, ← h, Function.update_eq_self]

theorem Fine.become_become (b b' : Option (Busy L S σ R)) (s s' : σ) :
    (c.become t b s).become t b' s' = c.become t b' s' := by
  rw [become, become, become, Function.update_idem]

theorem Fine.become_running_self (b : Option (Busy L S σ R)) (s : σ) : (c.become t b s).running t = b :=
  Function.update_self _ _ _

theorem Fine.become_others (b : Option (Busy L S σ R)) (s : σ) (h : ∀ u, u ≠ t → c.frames u = []) :
    ∀ u, u ≠ t → (c.become t b s).frames u = [] := by
  intro u hut
  rw [Fine.become_frames, if_neg hut]
  exact h u hut

variable [DecidableEq L] [DecidableEq S]

theorem Acts.oneLock {free : L → Mode → Prop} {b b' : Busy L S σ R} {s s' : σ} (h : Acts free b s b' s')
    (hb : OneLock b.frames b.code) : OneLock b'.frames b'.code := by
  cases h with
  | @acquire l m k K _ hfree =>
      obtain ⟨hK, hk⟩ := hb
      have hK : K = [] := hK
      rw [hK]
      exact hk
  | @release l k K _ =>
      obtain ⟨m, K₀, hK, hk⟩ := hb
      have hK : K = .lock l m :: K₀ := hK
      rw [hK]
      show OneLock (List.eraseP _ _) k
      rw [List.eraseP_cons_of_pos (Frame.isLock_lock l m)]
      exact hk
  | enter => exact hb
  | @leave c k K _ =>
      obtain ⟨K₀, hK, hk⟩ := hb
      have hK : K = .scope c :: K₀ := hK
      rw [hK]
      show OneLock (List.eraseP _ _) k
      rw [List.eraseP_cons_of_pos (Frame.isScope_scope c)]
      exact hk
  | access => exact hb _

/-- One lock at a time, all along a run. -/
theorem FineRun.single {s₀ : σ} (hcode : ∀ t, ∀ op ∈ sys.program t, OneLock [] (sys.code op))
    (hrun : FineRun sys (Fine.start s₀) es c) : c.Single sys := by
  induction hrun with
  | nil =>
      refine ⟨fun t b hb => ?_, fun t => Nat.zero_le _, fun t b hb => ?_⟩
      · cases hb
      · cases hb
  | @invoke es c t op _ _ hop ih => exact ih.invoke hop (hcode t op (List.mem_of_getElem? hop))
  | act _ hbusy hact ih => exact ih.become hbusy (hact.oneLock (ih.code _ _ hbusy)) _
  | respond _ hdone ih => exact ih.respond hdone

/-! ### Going on -/

/-- A thread runs on its own: to the end of its frames, or to its end if no other thread is inside any. -/
theorem FineRun.alone {p : Proc L S σ R} {K : List (Frame L S)} (hp : OneLock K p) (hbusy : c.running t = some ⟨p, K⟩)
    (hrun : FineRun sys c₀ es c) :
    ∃ p' s, OneLock [] p' ∧ FineRun sys c₀ es (c.become t (some ⟨p', []⟩) s) ∧
      ((∀ u, u ≠ t → c.frames u = []) → ∃ r, p' = ret r) := by
  induction p generalizing K c with
  | ret r =>
      have hK : K = [] := hp
      rw [hK] at hbusy
      exact ⟨ret r, c.shared, rfl, by rw [Fine.become_self hbusy]; exact hrun, fun _ => ⟨r, rfl⟩⟩
  | fault => exact hp.elim
  | acquire l m k ih =>
      obtain ⟨rfl, hk⟩ := hp
      by_cases hothers : ∀ u, u ≠ t → c.frames u = []
      · have houtside : ∀ u, c.frames u = [] := by
          intro u
          by_cases hut : u = t
          · rw [hut, Fine.frames, hbusy]
            rfl
          · exact hothers u hut
        obtain ⟨p', s, hp', hrun', hend⟩ := ih hk (Fine.become_running_self _ _)
          (hrun.act hbusy (.acquire (Fine.free_of_outside houtside l m)))
        rw [Fine.become_become] at hrun'
        exact ⟨p', s, hp', hrun', fun _ => hend (Fine.become_others _ _ hothers)⟩
      · exact ⟨acquire l m k, c.shared, ⟨rfl, hk⟩, by rw [Fine.become_self hbusy]; exact hrun,
          fun h => absurd h hothers⟩
  | release l k ih =>
      obtain ⟨m, K₀, rfl, hk⟩ := hp
      have hact := hrun.act hbusy .release
      rw [List.eraseP_cons_of_pos (Frame.isLock_lock l m)] at hact
      obtain ⟨p', s, hp', hrun', hend⟩ := ih hk (Fine.become_running_self _ _) hact
      rw [Fine.become_become] at hrun'
      exact ⟨p', s, hp', hrun', fun hothers => hend (Fine.become_others _ _ hothers)⟩
  | enter c k ih =>
      obtain ⟨p', s, hp', hrun', hend⟩ := ih hp (Fine.become_running_self _ _) (hrun.act hbusy .enter)
      rw [Fine.become_become] at hrun'
      exact ⟨p', s, hp', hrun', fun hothers => hend (Fine.become_others _ _ hothers)⟩
  | leave c' k ih =>
      obtain ⟨K₀, rfl, hk⟩ := hp
      have hact := hrun.act hbusy .leave
      rw [List.eraseP_cons_of_pos (Frame.isScope_scope c')] at hact
      obtain ⟨p', s, hp', hrun', hend⟩ := ih hk (Fine.become_running_self _ _) hact
      rw [Fine.become_become] at hrun'
      exact ⟨p', s, hp', hrun', fun hothers => hend (Fine.become_others _ _ hothers)⟩
  | atom f k ih =>
      obtain ⟨p', s, hp', hrun', hend⟩ :=
        ih c.shared (hp c.shared) (Fine.become_running_self _ _) (hrun.act hbusy .access)
      rw [Fine.become_become] at hrun'
      exact ⟨p', s, hp', hrun', fun hothers => hend (Fine.become_others _ _ hothers)⟩

/-- The threads of a list come out of their frames. -/
theorem FineRun.settle (hsingle : c.Single sys) (hrun : FineRun sys c₀ es c) (ts : List T) :
    ∃ c', FineRun sys c₀ es c' ∧ c'.Single sys ∧ ∀ t, t ∈ ts ∨ c.frames t = [] → c'.frames t = [] := by
  induction ts with
  | nil => exact ⟨c, hrun, hsingle, fun t ht => ht.resolve_left List.not_mem_nil⟩
  | cons t ts ih =>
      obtain ⟨c₁, hrun₁, hsingle₁, hout⟩ := ih
      cases hbusy : c₁.running t with
      | none =>
          refine ⟨c₁, hrun₁, hsingle₁, fun u hu => ?_⟩
          by_cases hut : u = t
          · rw [hut, Fine.frames, hbusy]
            rfl
          · exact hout u (hu.imp_left fun hmem => (List.mem_cons.mp hmem).resolve_left hut)
      | some b =>
          obtain ⟨p', s, hp', hrun₂, -⟩ := hrun₁.alone (hsingle₁.code t b hbusy) hbusy
          refine ⟨_, hrun₂, hsingle₁.become hbusy hp' s, fun u hu => ?_⟩
          rw [Fine.become_frames]
          by_cases hut : u = t
          · rw [if_pos hut]
            rfl
          · rw [if_neg hut]
            exact hout u (hu.imp_left fun hmem => (List.mem_cons.mp hmem).resolve_left hut)

/-- When no thread is inside frames, an operation that is running runs to its end and returns. -/
theorem FineRun.returns (hsingle : c.Single sys) (hout : ∀ u, c.frames u = []) (hrun : FineRun sys c₀ es c)
    {b : Busy L S σ R} (hbusy : c.running t = some b) :
    ∃ e s, FineRun sys c₀ (es ++ [e]) ((c.become t (some b) s).responded t) ∧
      ((c.become t (some b) s).responded t).Single sys := by
  obtain ⟨p', s, hp', hrun', hend⟩ := hrun.alone (hsingle.code t b hbusy) hbusy
  obtain ⟨r, rfl⟩ := hend fun u _ => hout u
  have hdone : (c.become t (some ⟨ret r, []⟩) s).running t = some ⟨ret r, []⟩ := Fine.become_running_self _ _
  have hsame : (c.become t (some ⟨ret r, []⟩) s).responded t = (c.become t (some b) s).responded t := by
    show Fine.mk _ _ (Function.update (Function.update _ _ _) _ _) =
      Fine.mk _ _ (Function.update (Function.update _ _ _) _ _)
    rw [Function.update_idem, Function.update_idem]
    rfl
  refine ⟨_, s, hsame ▸ hrun'.respond hdone, hsame ▸ ?_⟩
  exact Fine.Single.respond (hsingle.become hbusy hp' s) hdone

/-- When no thread is inside frames, one of them finishes, and the others stay where they are. -/
theorem FineRun.finish (hcode : ∀ op ∈ sys.program t, OneLock [] (sys.code op)) (n : ℕ) (hsingle : c.Single sys)
    (hout : ∀ u, c.frames u = []) (hn : (sys.program t).length = c.finished t + n) (hrun : FineRun sys c₀ es c) :
    ∃ es' c', FineRun sys c₀ (es ++ es') c' ∧ c'.Single sys ∧ (∀ u, c'.frames u = []) ∧ c'.running t = none ∧
      c'.finished t = (sys.program t).length ∧
      ∀ u, u ≠ t → c'.running u = c.running u ∧ c'.finished u = c.finished u := by
  induction n generalizing c es with
  | zero =>
      have hidle : c.running t = none := by
        cases hbusy : c.running t with
        | none => rfl
        | some b =>
            have := hsingle.running t b hbusy
            omega
      exact ⟨[], c, by rw [List.append_nil]; exact hrun, hsingle, hout, hidle, by omega, fun u _ => ⟨rfl, rfl⟩⟩
  | succ n ih =>
      -- what is left after one more operation
      have hnext : ∀ {es : List (Event T Op S σ R)} {c' : Fine T L S σ R} {b : Busy L S σ R}, c'.Single sys →
          (∀ u, c'.frames u = []) → FineRun sys c₀ es c' → c'.running t = some b → c'.finished = c.finished →
          (∀ u, u ≠ t → c'.running u = c.running u) →
          ∃ es' c'', FineRun sys c₀ (es ++ es') c'' ∧ c''.Single sys ∧ (∀ u, c''.frames u = []) ∧
            c''.running t = none ∧ c''.finished t = (sys.program t).length ∧
            ∀ u, u ≠ t → c''.running u = c.running u ∧ c''.finished u = c.finished u := by
        intro es c' b hsingle' hout' hrun' hbusy hfin hothers
        obtain ⟨e, s, hrun₁, hsingle₁⟩ := hrun'.returns hsingle' hout' hbusy
        have hfinished : ∀ u, ((c'.become t (some b) s).responded t).finished u =
            if u = t then c.finished t + 1 else c.finished u := by
          intro u
          rw [← hfin]
          exact Function.update_apply _ _ _ _
        have hrunning : ∀ u, u ≠ t → ((c'.become t (some b) s).responded t).running u = c.running u := by
          intro u hut
          rw [Fine.responded_running, if_neg hut, Fine.become_running, if_neg hut, hothers u hut]
        obtain ⟨es', c'', hrun₂, hsingle₂, hout₂, hidle, hall, hsame⟩ := ih hsingle₁ (fun u => by
            rw [Fine.responded_frames]
            split_ifs with hut
            · rfl
            · rw [Fine.become_frames, if_neg hut]
              exact hout' u) (by rw [hfinished, if_pos rfl]; omega) hrun₁
        refine ⟨e :: es', c'', by rw [List.append_cons]; exact hrun₂, hsingle₂, hout₂, hidle, hall, fun u hut => ?_⟩
        rw [(hsame u hut).1, (hsame u hut).2, hrunning u hut, hfinished, if_neg hut]
        exact ⟨rfl, rfl⟩
      cases hbusy : c.running t with
      | some b => exact hnext hsingle hout hrun hbusy rfl fun _ _ => rfl
      | none =>
          obtain ⟨op, hop⟩ : ∃ op, (sys.program t)[c.finished t]? = some op :=
            ⟨_, List.getElem?_eq_getElem (by omega)⟩
          have hop' := hcode op (List.mem_of_getElem? hop)
          obtain ⟨es', c'', hrun', hrest⟩ := hnext (hsingle.invoke hop hop') (fun u => by
              rw [Fine.become_frames]
              split_ifs
              · rfl
              · exact hout u) (hrun.invoke hbusy hop) (Fine.become_running_self _ _) rfl
            fun u hut => by rw [Fine.become_running, if_neg hut]
          exact ⟨_ :: es', c'', by rw [List.append_cons]; exact hrun', hrest⟩

/-- **Every run can be completed.** -/
theorem FineRun.completes {s₀ : σ} {ts : List T} (hts : ∀ t, t ∈ ts)
    (hcode : ∀ t, ∀ op ∈ sys.program t, OneLock [] (sys.code op)) (hrun : FineRun sys (Fine.start s₀) es c) :
    ∃ es' c', FineRun sys (Fine.start s₀) (es ++ es') c' ∧
      ∀ t, c'.running t = none ∧ c'.finished t = (sys.program t).length := by
  obtain ⟨c₁, hrun₁, hsingle₁, hout⟩ := hrun.settle (hrun.single hcode) ts
  suffices h : ∀ us : List T, ∃ es' c', FineRun sys (Fine.start s₀) (es ++ es') c' ∧ c'.Single sys ∧
      (∀ u, c'.frames u = []) ∧ ∀ t ∈ us, c'.running t = none ∧ c'.finished t = (sys.program t).length by
    obtain ⟨es', c', hrun', -, -, hdone⟩ := h ts
    exact ⟨es', c', hrun', fun t => hdone t (hts t)⟩
  intro us
  induction us with
  | nil =>
      exact ⟨[], c₁, by rw [List.append_nil]; exact hrun₁, hsingle₁, fun u => hout u (Or.inl (hts u)),
        fun t ht => absurd ht List.not_mem_nil⟩
  | cons t us ih =>
      obtain ⟨es', c', hrun', hsingle', hout', hdone⟩ := ih
      obtain ⟨es'', c'', hrun'', hsingle'', hout'', hidle, hall, hsame⟩ := hrun'.finish (hcode t)
        ((sys.program t).length - c'.finished t) hsingle' hout' (by have := hsingle'.finished t; omega)
      refine ⟨es' ++ es'', c'', by rw [← List.append_assoc]; exact hrun'', hsingle'', hout'', fun u hu => ?_⟩
      by_cases hut : u = t
      · rw [hut]
        exact ⟨hidle, hall⟩
      · rw [(hsame u hut).1, (hsame u hut).2]
        exact hdone u ((List.mem_cons.mp hu).resolve_left hut)

end Runs

end Concurrent
