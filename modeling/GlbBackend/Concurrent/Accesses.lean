import GlbBackend.Concurrent.Machine
import GlbBackend.Concurrent.Sections

/-!
# Access by access

Here every action of a thread is a step of its own: a `Fine` run interleaves acquiring and releasing, opening and closing
of scopes, and single accesses, and a thread waits only where a lock is not free.  The frames that two threads are inside
never exclude each other (`Fine.KeptApart`, `Acts.keptApart`).

`fineSchedule` runs threads under a schedule.
-/

namespace Concurrent

open Proc

variable {T Op L S σ R α β : Type}

/-! ### One action at a time -/

/-- What a thread is running, and the frames it is inside, the innermost first. -/
structure Busy (L S σ R : Type) where
  code : Proc L S σ R
  frames : List (Frame L S)

/-- One action; `free` says which locks can be taken. -/
inductive Acts [DecidableEq L] [DecidableEq S] (free : L → Mode → Prop) :
    Busy L S σ R → σ → Busy L S σ R → σ → Prop
  | acquire {l : L} {m : Mode} {k : Proc L S σ R} {K : List (Frame L S)} {s : σ} (hfree : free l m) :
      Acts free ⟨acquire l m k, K⟩ s ⟨k, .lock l m :: K⟩ s
  | release {l : L} {k : Proc L S σ R} {K : List (Frame L S)} {s : σ} :
      Acts free ⟨release l k, K⟩ s ⟨k, K.eraseP (Frame.isLock l)⟩ s
  | enter {c : S} {k : Proc L S σ R} {K : List (Frame L S)} {s : σ} :
      Acts free ⟨enter c k, K⟩ s ⟨k, .scope c :: K⟩ s
  | leave {c : S} {k : Proc L S σ R} {K : List (Frame L S)} {s : σ} :
      Acts free ⟨leave c k, K⟩ s ⟨k, K.eraseP (Frame.isScope c)⟩ s
  | access {f : σ → σ} {k : σ → Proc L S σ R} {K : List (Frame L S)} {s : σ} :
      Acts free ⟨atom f k, K⟩ s ⟨k s, K⟩ (f s)

/-- The shared state, how many operations each thread has finished, and what it is running. -/
structure Fine (T L S σ R : Type) where
  shared : σ
  finished : T → ℕ
  running : T → Option (Busy L S σ R)

namespace Fine

/-- Nothing has been issued yet. -/
def start (s : σ) : Fine T L S σ R := ⟨s, fun _ => 0, fun _ => none⟩

/-- The frames a thread is inside. -/
def frames (c : Fine T L S σ R) (t : T) : List (Frame L S) := ((c.running t).map Busy.frames).getD []

/-- Can the lock be taken? -/
def Free (c : Fine T L S σ R) (l : L) : Mode → Prop
  | .exclusive => ∀ t m, .lock l m ∉ c.frames t
  | .shared => ∀ t, .lock l .exclusive ∉ c.frames t

variable [DecidableEq T]

/-- Thread `t` becomes `b`, and the shared state `s`. -/
def become (c : Fine T L S σ R) (t : T) (b : Option (Busy L S σ R)) (s : σ) : Fine T L S σ R :=
  ⟨s, c.finished, Function.update c.running t b⟩

/-- Thread `t` has returned. -/
def responded (c : Fine T L S σ R) (t : T) : Fine T L S σ R :=
  ⟨c.shared, Function.update c.finished t (c.finished t + 1), Function.update c.running t none⟩

end Fine

/-- A run, with the calls and the returns in order. -/
inductive FineRun [DecidableEq T] [DecidableEq L] [DecidableEq S] (sys : System T Op L S σ R)
    (c₀ : Fine T L S σ R) : List (Event T Op S σ R) → Fine T L S σ R → Prop
  | nil : FineRun sys c₀ [] c₀
  | invoke {es : List (Event T Op S σ R)} {c : Fine T L S σ R} {t : T} {op : Op} (hrun : FineRun sys c₀ es c)
      (hidle : c.running t = none) (hop : (sys.program t)[c.finished t]? = some op) :
      FineRun sys c₀ (es ++ [.invoke t (c.finished t) op]) (c.become t (some ⟨sys.code op, []⟩) c.shared)
  | act {es : List (Event T Op S σ R)} {c : Fine T L S σ R} {t : T} {b b' : Busy L S σ R} {s : σ}
      (hrun : FineRun sys c₀ es c) (hbusy : c.running t = some b) (hact : Acts c.Free b c.shared b' s) :
      FineRun sys c₀ es (c.become t (some b') s)
  | respond {es : List (Event T Op S σ R)} {c : Fine T L S σ R} {t : T} {r : R} {K : List (Frame L S)}
      (hrun : FineRun sys c₀ es c) (hdone : c.running t = some ⟨ret r, K⟩) :
      FineRun sys c₀ (es ++ [.respond t (c.finished t) r]) (c.responded t)

/-! ### Frames that exclude each other -/

/-- The frame cannot be had while those of the list are. -/
def Clash : Frame L S → List (Frame L S) → Prop
  | .lock l .exclusive, K => ∃ m, .lock l m ∈ K
  | .lock l .shared, K => .lock l .exclusive ∈ K
  | .scope _, _ => False

theorem Clash.mono {fr : Frame L S} {K K' : List (Frame L S)} (h : Clash fr K) (hsub : ∀ fr ∈ K, fr ∈ K') :
    Clash fr K' := by
  match fr, h with
  | .lock l .exclusive, ⟨m, hm⟩ => exact ⟨m, hsub _ hm⟩
  | .lock l .shared, h => exact hsub _ h

/-- A lock that another thread could take does not clash with what this one holds, nor the other way round. -/
theorem Fine.Free.not_clash {c : Fine T L S σ R} {l : L} {m : Mode} (h : c.Free l m) (t : T) :
    ¬ Clash (.lock l m) (c.frames t) ∧ ∀ fr ∈ c.frames t, ¬ Clash fr [.lock l m] := by
  cases m with
  | exclusive =>
      refine ⟨fun ⟨m', hm'⟩ => h t m' hm', fun fr hfr hclash => ?_⟩
      match fr, hclash with
      | .lock l' .exclusive, ⟨m', hm'⟩ =>
          cases List.mem_singleton.mp hm'
          exact h t _ hfr
      | .lock l' .shared, hm' =>
          cases List.mem_singleton.mp hm'
          exact h t _ hfr
  | shared =>
      refine ⟨fun hm => h t hm, fun fr hfr hclash => ?_⟩
      match fr, hclash with
      | .lock l' .exclusive, ⟨m', hm'⟩ =>
          cases List.mem_singleton.mp hm'
          exact h t hfr
      | .lock l' .shared, hm' => cases List.mem_singleton.mp hm'

/-- The frames of no two threads clash. -/
def Fine.KeptApart (c : Fine T L S σ R) : Prop :=
  ∀ t u, t ≠ u → ∀ fr ∈ c.frames t, ¬ Clash fr (c.frames u)

section Apart

variable [DecidableEq T] {c : Fine T L S σ R} {t u : T} {b : Option (Busy L S σ R)} {s : σ}

theorem Fine.become_running : (c.become t b s).running u = if u = t then b else c.running u :=
  Function.update_apply c.running t b u

theorem Fine.responded_running : (c.responded t).running u = if u = t then none else c.running u :=
  Function.update_apply c.running t none u

theorem Fine.become_frames :
    (c.become t b s).frames u = if u = t then (b.map Busy.frames).getD [] else c.frames u := by
  rw [frames, become_running]
  split_ifs <;> rfl

theorem Fine.responded_frames : (c.responded t).frames u = if u = t then [] else c.frames u := by
  rw [frames, responded_running]
  split_ifs <;> rfl

/-- A thread that only closes frames, or opens one that does not clash with those of the others. -/
theorem Fine.KeptApart.update (h : c.KeptApart) {c' : Fine T L S σ R} (hothers : ∀ u, u ≠ t → c'.frames u = c.frames u)
    (hself : ∀ fr ∈ c'.frames t, fr ∈ c.frames t ∨
      ∀ u, ¬ Clash fr (c.frames u) ∧ ∀ fr' ∈ c.frames u, ¬ Clash fr' [fr]) : c'.KeptApart := by
  have hnew : ∀ u, u ≠ t → ∀ fr ∈ c.frames u, ¬ Clash fr (c'.frames t) := by
    intro u hu fr hfr hclash
    match fr, hclash with
    | .lock l .exclusive, ⟨m, hm⟩ =>
        rcases hself _ hm with hold | hfree
        · exact h u t hu _ hfr ⟨m, hold⟩
        · exact (hfree u).2 _ hfr ⟨m, List.mem_singleton_self _⟩
    | .lock l .shared, hm =>
        rcases hself _ hm with hold | hfree
        · exact h u t hu _ hfr hold
        · exact (hfree u).2 _ hfr (List.mem_singleton_self _)
  intro v w hvw fr hfr
  by_cases hv : v = t
  · subst hv
    rw [hothers w hvw.symm]
    rcases hself fr hfr with hold | hfree
    · exact h v w hvw fr hold
    · exact (hfree w).1
  · rw [hothers v hv] at hfr
    by_cases hw : w = t
    · rw [hw]
      exact hnew v hv fr hfr
    · rw [hothers w hw]
      exact h v w hvw fr hfr

theorem Acts.keptApart [DecidableEq L] [DecidableEq S] (h : c.KeptApart) {b b' : Busy L S σ R}
    (hbusy : c.running t = some b) (hact : Acts c.Free b c.shared b' s) : (c.become t (some b') s).KeptApart := by
  have hframes : c.frames t = b.frames := by
    rw [Fine.frames, hbusy]
    rfl
  refine h.update (t := t) (fun u hu => by rw [Fine.become_frames, if_neg hu]) fun fr hfr => ?_
  rw [Fine.become_frames, if_pos rfl] at hfr
  have hfr : fr ∈ b'.frames := hfr
  rw [hframes]
  cases hact with
  | acquire hfree =>
      rcases List.mem_cons.mp hfr with rfl | hfr
      · exact Or.inr fun u => hfree.not_clash u
      · exact Or.inl hfr
  | release => exact Or.inl (List.mem_of_mem_eraseP hfr)
  | enter =>
      rcases List.mem_cons.mp hfr with rfl | hfr
      · refine Or.inr fun u => ⟨id, fun fr' _ hclash => ?_⟩
        match fr', hclash with
        | .lock l .exclusive, ⟨m, hm⟩ => cases List.mem_singleton.mp hm
        | .lock l .shared, hm => cases List.mem_singleton.mp hm
      · exact Or.inl hfr
  | leave => exact Or.inl (List.mem_of_mem_eraseP hfr)
  | access => exact Or.inl hfr

end Apart

/-! ### The scheduler as a function -/

section Schedule

variable [DecidableEq T] [DecidableEq L] [DecidableEq S] {ts : List T} {c c' : Fine T L S σ R} {sys : System T Op L S σ R}

/-- Can the lock be taken, when these are the threads? -/
def Fine.takes (c : Fine T L S σ R) (ts : List T) (l : L) : Mode → Bool
  | .exclusive => ts.all fun t => (c.frames t).all fun fr => !Frame.isLock l fr
  | .shared => ts.all fun t => decide (.lock l .exclusive ∉ c.frames t)

omit [DecidableEq T] in
theorem Fine.free_of_takes (hts : ∀ t, t ∈ ts) {l : L} {m : Mode} (h : c.takes ts l m = true) : c.Free l m := by
  cases m with
  | exclusive =>
      intro t m hm
      have hlock := List.all_eq_true.mp (List.all_eq_true.mp h t (hts t)) _ hm
      rw [Frame.isLock_lock] at hlock
      cases hlock
  | shared =>
      intro t
      exact of_decide_eq_true (List.all_eq_true.mp h t (hts t))

/-- The next action, if there is one and no lock is in its way. -/
def Busy.act (takes : L → Mode → Bool) (b : Busy L S σ R) (s : σ) : Option (Busy L S σ R × σ) :=
  match b.code with
  | ret _ => none
  | fault => none
  | acquire l m k => if takes l m then some (⟨k, .lock l m :: b.frames⟩, s) else none
  | release l k => some (⟨k, b.frames.eraseP (Frame.isLock l)⟩, s)
  | enter c k => some (⟨k, .scope c :: b.frames⟩, s)
  | leave c k => some (⟨k, b.frames.eraseP (Frame.isScope c)⟩, s)
  | atom f k => some (⟨k s, b.frames⟩, f s)

theorem Busy.act_acts {takes : L → Mode → Bool} {free : L → Mode → Prop} (hfree : ∀ l m, takes l m = true → free l m)
    {b b' : Busy L S σ R} {s s' : σ} (h : b.act takes s = some (b', s')) : Acts free b s b' s' := by
  obtain ⟨code, K⟩ := b
  cases code with
  | ret a => cases h
  | fault => cases h
  | acquire l m k =>
      have h : (if takes l m then some (⟨k, .lock l m :: K⟩, s) else none) = some (b', s') := h
      by_cases htake : takes l m = true
      · rw [if_pos htake] at h
        cases h
        exact .acquire (hfree l m htake)
      · rw [if_neg htake] at h
        cases h
  | release l k =>
      cases h
      exact .release
  | enter c k =>
      cases h
      exact .enter
  | leave c k =>
      cases h
      exact .leave
  | atom f k =>
      cases h
      exact .access

/-- What happens when the scheduler picks thread `t`, if anything can. -/
def fineNext (ts : List T) (sys : System T Op L S σ R) (c : Fine T L S σ R) (t : T) :
    Option (List (Event T Op S σ R) × Fine T L S σ R) :=
  match c.running t with
  | none => ((sys.program t)[c.finished t]?).map fun op =>
      ([.invoke t (c.finished t) op], c.become t (some ⟨sys.code op, []⟩) c.shared)
  | some ⟨ret r, _⟩ => some ([.respond t (c.finished t) r], c.responded t)
  | some b => (b.act (c.takes ts) c.shared).map fun r => ([], c.become t (some r.1) r.2)

theorem fineNext_run (hts : ∀ t, t ∈ ts) {c₀ : Fine T L S σ R} {es es' : List (Event T Op S σ R)} {t : T}
    (hrun : FineRun sys c₀ es c) (h : fineNext ts sys c t = some (es', c')) : FineRun sys c₀ (es ++ es') c' := by
  rw [fineNext] at h
  split at h
  · rename_i hidle
    obtain ⟨op, hop, heq⟩ := Option.map_eq_some_iff.mp h
    obtain ⟨rfl, rfl⟩ := Prod.mk.inj heq
    exact hrun.invoke hidle hop
  · rename_i r K hdone
    obtain ⟨rfl, rfl⟩ := Prod.mk.inj (Option.some.inj h)
    exact hrun.respond hdone
  · rename_i b hnot hbusy
    obtain ⟨r, hact, heq⟩ := Option.map_eq_some_iff.mp h
    obtain ⟨rfl, rfl⟩ := Prod.mk.inj heq
    rw [List.append_nil]
    exact hrun.act hbusy (Busy.act_acts (fun l m => Fine.free_of_takes hts) hact)

/-- The run under a schedule; a thread that cannot move is passed over. -/
def fineSchedule (ts : List T) (sys : System T Op L S σ R) :
    List T → List (Event T Op S σ R) → Fine T L S σ R → List (Event T Op S σ R) × Fine T L S σ R
  | [], es, c => (es, c)
  | t :: picks, es, c =>
      match fineNext ts sys c t with
      | none => fineSchedule ts sys picks es c
      | some (es', c') => fineSchedule ts sys picks (es ++ es') c'

theorem fineSchedule_run (hts : ∀ t, t ∈ ts) {c₀ : Fine T L S σ R} (picks : List T) {es : List (Event T Op S σ R)}
    (h : FineRun sys c₀ es c) :
    FineRun sys c₀ (fineSchedule ts sys picks es c).1 (fineSchedule ts sys picks es c).2 := by
  induction picks generalizing es c with
  | nil => exact h
  | cons t picks ih =>
      rw [fineSchedule]
      cases hnext : fineNext ts sys c t with
      | none => exact ih h
      | some r => exact ih (fineNext_run hts h hnext)

end Schedule

end Concurrent
