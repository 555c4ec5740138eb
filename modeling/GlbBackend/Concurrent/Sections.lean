import GlbBackend.Concurrent.Process

/-!
# Interleaving of sections

Any number of threads, each issuing its own list of operations one after the other; the code of an
operation is a process, and the scheduler picks, again and again, a thread that invokes its next
operation, runs one section of the running one, or returns its result.

A run is recorded as a list of events.  Three facts make the record useful:

* `Run.safe` — if the code of every operation is `Safe`, the invariant holds in every configuration and
  the states that sections found and left are ordered by the guarantee;
* `Run.recorded` — what one operation did depends only on the states its own sections found
  (`Trace`): other threads matter only through those states;
* `Trace.bind`, `Trace.guarded`, `Trace.safe` — the trace of a program text is read off part by part.
-/

namespace Concurrent

open Proc

variable {T Op L S σ R α β : Type} [DecidableEq T]

/-- The operations each thread issues, and their code. -/
structure System (T Op L S σ R : Type) where
  code : Op → Proc L S σ R
  program : T → List Op

/-- The shared state, how many operations each thread has finished, and what it is running. -/
structure Config (T L S σ R : Type) where
  shared : σ
  finished : T → ℕ
  running : T → Option (Proc L S σ R)

/-- One section that ran: the scopes it entered, and the states it found and left. -/
structure Visit (S σ : Type) where
  labels : List S
  pre : σ
  post : σ

/-- The visit a process makes when it runs its next section in a state. -/
def visit (p : Proc L S σ α) (s : σ) : Visit S σ := ⟨(sect 0 p s).1, s, (sect 0 p s).2.2⟩

/-- What is left of the process after that section. -/
def rest (p : Proc L S σ α) (s : σ) : Proc L S σ α := (sect 0 p s).2.1

/-- A bracketed part is one section: it runs as it does alone, and the rest goes on with its result. -/
theorem rest_guarded {l : L} {m : Mode} {p : Proc L S σ α} {a : α} {s s' : σ} (hp : Balanced p)
    (hrun : p.run s = some (a, s')) (q : α → Proc L S σ β) :
    rest ((guarded l m p).bind q) s = q a ∧ (visit ((guarded l m p).bind q) s).post = s' := by
  rw [rest, visit, sect_guarded_bind hp hrun q]
  exact ⟨rfl, rfl⟩

namespace Config

/-- Nothing has been issued yet. -/
def start (s : σ) : Config T L S σ R := ⟨s, fun _ => 0, fun _ => none⟩

/-- Thread `t` starts to run `p`. -/
def invoked (c : Config T L S σ R) (t : T) (p : Proc L S σ R) : Config T L S σ R :=
  ⟨c.shared, c.finished, Function.update c.running t (some p)⟩

/-- Thread `t`, running `p`, runs one section. -/
def advanced (c : Config T L S σ R) (t : T) (p : Proc L S σ R) : Config T L S σ R :=
  ⟨(visit p c.shared).post, c.finished, Function.update c.running t (some (rest p c.shared))⟩

/-- Thread `t` has returned. -/
def responded (c : Config T L S σ R) (t : T) : Config T L S σ R :=
  ⟨c.shared, Function.update c.finished t (c.finished t + 1), Function.update c.running t none⟩

variable (c : Config T L S σ R) (t u : T) (p : Proc L S σ R)

@[simp] theorem invoked_shared : (c.invoked t p).shared = c.shared := rfl

@[simp] theorem invoked_finished : (c.invoked t p).finished = c.finished := rfl

theorem invoked_running : (c.invoked t p).running u = if u = t then some p else c.running u :=
  Function.update_apply c.running t (some p) u

@[simp] theorem advanced_shared : (c.advanced t p).shared = (visit p c.shared).post := rfl

@[simp] theorem advanced_finished : (c.advanced t p).finished = c.finished := rfl

theorem advanced_running :
    (c.advanced t p).running u = if u = t then some (rest p c.shared) else c.running u :=
  Function.update_apply c.running t (some (rest p c.shared)) u

@[simp] theorem responded_shared : (c.responded t).shared = c.shared := rfl

theorem responded_finished :
    (c.responded t).finished u = if u = t then c.finished t + 1 else c.finished u :=
  Function.update_apply c.finished t (c.finished t + 1) u

theorem responded_running : (c.responded t).running u = if u = t then none else c.running u :=
  Function.update_apply c.running t none u

end Config

/-- What the scheduler lets happen; the operation of thread `t` with index `k` is `(t, k)`. -/
inductive Event (T Op S σ R : Type)
  | invoke (t : T) (k : ℕ) (op : Op)
  | section (t : T) (k : ℕ) (v : Visit S σ)
  | respond (t : T) (k : ℕ) (r : R)

/-- One step of the system. -/
inductive Step (sys : System T Op L S σ R) :
    Config T L S σ R → Event T Op S σ R → Config T L S σ R → Prop
  | invoke {c : Config T L S σ R} {t : T} {op : Op} (hidle : c.running t = none)
      (hop : (sys.program t)[c.finished t]? = some op) :
      Step sys c (.invoke t (c.finished t) op) (c.invoked t (sys.code op))
  | section {c : Config T L S σ R} {t : T} {p : Proc L S σ R} (hrun : c.running t = some p)
      (hact : p.active = true) :
      Step sys c (.section t (c.finished t) (visit p c.shared)) (c.advanced t p)
  | respond {c : Config T L S σ R} {t : T} {r : R} (hrun : c.running t = some (ret r)) :
      Step sys c (.respond t (c.finished t) r) (c.responded t)

/-- A run, with its events in order. -/
inductive Run (sys : System T Op L S σ R) (c₀ : Config T L S σ R) :
    List (Event T Op S σ R) → Config T L S σ R → Prop
  | nil : Run sys c₀ [] c₀
  | snoc {es : List (Event T Op S σ R)} {c c' : Config T L S σ R} {e : Event T Op S σ R}
      (hrun : Run sys c₀ es c) (hstep : Step sys c e c') : Run sys c₀ (es ++ [e]) c'

/-! ### The scheduler as a function -/

/-- What happens when the scheduler picks thread `t`, if anything can. -/
def next (sys : System T Op L S σ R) (c : Config T L S σ R) (t : T) :
    Option (Event T Op S σ R × Config T L S σ R) :=
  match c.running t with
  | none =>
      match (sys.program t)[c.finished t]? with
      | none => none
      | some op => some (.invoke t (c.finished t) op, c.invoked t (sys.code op))
  | some (ret r) => some (.respond t (c.finished t) r, c.responded t)
  | some p =>
      if p.active then some (.section t (c.finished t) (visit p c.shared), c.advanced t p) else none

theorem next_step {sys : System T Op L S σ R} {c c' : Config T L S σ R} {t : T}
    {e : Event T Op S σ R} (h : next sys c t = some (e, c')) : Step sys c e c' := by
  rw [next] at h
  split at h
  · rename_i hidle
    split at h
    · exact absurd h (by simp)
    · rename_i op hop
      obtain ⟨rfl, rfl⟩ := Prod.mk.inj (Option.some.inj h)
      exact Step.invoke hidle hop
  · rename_i r hrun
    obtain ⟨rfl, rfl⟩ := Prod.mk.inj (Option.some.inj h)
    exact Step.respond hrun
  · rename_i p hnot hrun
    split_ifs at h with hact
    obtain ⟨rfl, rfl⟩ := Prod.mk.inj (Option.some.inj h)
    exact Step.section hrun hact

/-- The run under a schedule, from events and a configuration already reached; a thread that cannot move
is passed over. -/
def schedule (sys : System T Op L S σ R) :
    List T → List (Event T Op S σ R) → Config T L S σ R →
      List (Event T Op S σ R) × Config T L S σ R
  | [], es, c => (es, c)
  | t :: ts, es, c =>
      match next sys c t with
      | none => schedule sys ts es c
      | some (e, c') => schedule sys ts (es ++ [e]) c'

theorem schedule_run {sys : System T Op L S σ R} {c₀ : Config T L S σ R} (ts : List T)
    {es : List (Event T Op S σ R)} {c : Config T L S σ R} (h : Run sys c₀ es c) :
    Run sys c₀ (schedule sys ts es c).1 (schedule sys ts es c).2 := by
  induction ts generalizing es c with
  | nil => exact h
  | cons t ts ih =>
      rw [schedule]
      cases hn : next sys c t with
      | none => exact ih h
      | some r => exact ih (h.snoc (next_step hn))

/-! ### Invariants of runs -/

/-- The states that sections found and left, in order. -/
def states (es : List (Event T Op S σ R)) : List σ :=
  es.flatMap fun e => match e with
    | .section _ _ v => [v.pre, v.post]
    | _ => []

omit [DecidableEq T] in
theorem states_append (es fs : List (Event T Op S σ R)) :
    states (es ++ fs) = states es ++ states fs :=
  List.flatMap_append

section Safe

variable {I : σ → Prop} {G : σ → σ → Prop} {sys : System T Op L S σ R}

/-- What a configuration of a safe system satisfies. -/
structure Config.Sound (I : σ → Prop) (G : σ → σ → Prop) (c : Config T L S σ R) : Prop where
  inv : I c.shared
  threads : ∀ t p, c.running t = some p → ∃ h, G h c.shared ∧ Safe I G (fun _ _ => True) h p

variable (hcode : ∀ op h, Safe I G (fun _ _ => True) h (sys.code op))
  (hrefl : ∀ s, G s s) (htrans : ∀ {s t u}, G s t → G t u → G s u)
include hcode hrefl htrans

/-- One step keeps soundness and changes the state as the guarantee allows. -/
theorem Step.sound {c c' : Config T L S σ R} {e : Event T Op S σ R} (hstep : Step sys c e c')
    (hc : c.Sound I G) : c'.Sound I G ∧ G c.shared c'.shared := by
  cases hstep with
  | @invoke t op hidle hop =>
      refine ⟨⟨hc.inv, fun u p hu => ?_⟩, hrefl _⟩
      rw [Config.invoked_running] at hu
      split_ifs at hu
      · rw [← Option.some.inj hu]
        exact ⟨c.shared, hrefl _, hcode op c.shared⟩
      · exact hc.threads u p hu
  | @«section» t p hrun hact =>
      obtain ⟨h, hG, hsafe⟩ := hc.threads t p hrun
      obtain ⟨h1, h2, h3⟩ := hsafe.sect hrefl htrans 0 hc.inv hG
      refine ⟨⟨h1, fun u q hu => ?_⟩, h2⟩
      rw [Config.advanced_running] at hu
      split_ifs at hu
      · rw [← Option.some.inj hu]
        exact h3
      · obtain ⟨h', hG', hs'⟩ := hc.threads u q hu
        exact ⟨h', htrans hG' h2, hs'⟩
  | @respond t r hrun =>
      refine ⟨⟨hc.inv, fun u p hu => ?_⟩, hrefl _⟩
      rw [Config.responded_running] at hu
      split_ifs at hu
      exact hc.threads u p hu

/-- **Every configuration of a run is sound**, and the states that its sections found and left satisfy
the invariant and are ordered by the guarantee. -/
theorem Run.safe {s₀ : σ} {es : List (Event T Op S σ R)} {c : Config T L S σ R}
    (hrun : Run sys (Config.start s₀) es c) (hs : I s₀) :
    c.Sound I G ∧ (∀ s ∈ states es, I s ∧ G s c.shared) ∧ (states es).Pairwise G := by
  induction hrun with
  | nil =>
      exact ⟨⟨hs, fun _ _ h => by simp [Config.start] at h⟩, by simp [states], List.Pairwise.nil⟩
  | @snoc es c c' e _ hstep ih =>
      obtain ⟨h1, h2, h3⟩ := ih
      obtain ⟨h1', hG⟩ := hstep.sound hcode hrefl htrans h1
      -- the new event adds no state, or the ones before and after the step
      have hnew : states [e] = [] ∨ states [e] = [c.shared, c'.shared] := by
        cases hstep with
        | invoke hidle hop => exact Or.inl rfl
        | «section» hrun hact => exact Or.inr rfl
        | respond hrun => exact Or.inl rfl
      have hmem : ∀ s ∈ states [e], s = c.shared ∨ s = c'.shared := by
        intro s hs'
        rcases hnew with hnil | hpair
        · rw [hnil] at hs'
          exact absurd hs' List.not_mem_nil
        · rw [hpair] at hs'
          simpa using hs'
      have hsorted : (states [e]).Pairwise G := by
        rcases hnew with hnil | hpair
        · rw [hnil]
          exact List.Pairwise.nil
        · rw [hpair]
          exact List.pairwise_pair.mpr hG
      rw [states_append]
      refine ⟨h1', fun s hs' => ?_, List.pairwise_append.mpr ⟨h3, hsorted, fun s hs' s' hs'' => ?_⟩⟩
      · rcases List.mem_append.mp hs' with hs' | hs'
        · exact ⟨(h2 s hs').1, htrans (h2 s hs').2 hG⟩
        · rcases hmem s hs' with rfl | rfl
          · exact ⟨h1.inv, hG⟩
          · exact ⟨h1'.inv, hrefl _⟩
      · rcases hmem s' hs'' with rfl | rfl
        · exact (h2 s hs').2
        · exact htrans (h2 s hs').2 hG

end Safe

/-! ### The trace of one operation -/

/-- `Trace p vs q`: running sections of `p`, each in the state recorded for it, leaves `q`. -/
inductive Trace : Proc L S σ α → List (Visit S σ) → Proc L S σ α → Prop
  | nil {p : Proc L S σ α} : Trace p [] p
  | cons {p q : Proc L S σ α} {s : σ} {vs : List (Visit S σ)} (hact : p.active = true)
      (ht : Trace (rest p s) vs q) : Trace p (visit p s :: vs) q

theorem Trace.snoc {p q : Proc L S σ α} {vs : List (Visit S σ)} (ht : Trace p vs q)
    (hact : q.active = true) (s : σ) : Trace p (vs ++ [visit q s]) (rest q s) := by
  induction ht with
  | nil => exact Trace.cons hact Trace.nil
  | cons h _ ih => exact Trace.cons h (ih hact)

/-- A result has no trace but the empty one. -/
theorem Trace.of_ret {a : α} {q : Proc L S σ α} {vs : List (Visit S σ)}
    (ht : Trace (ret a) vs q) : vs = [] ∧ q = ret a := by
  cases ht with
  | nil => exact ⟨rfl, rfl⟩
  | cons hact _ => exact absurd hact Bool.false_ne_true

theorem Trace.of_expect {o : Option α} {a : α} {vs : List (Visit S σ)}
    (ht : Trace (expect o : Proc L S σ α) vs (ret a)) : vs = [] ∧ o = some a := by
  cases o with
  | none =>
      cases ht with
      | cons hact _ => exact absurd hact Bool.false_ne_true
  | some b =>
      obtain ⟨h1, h2⟩ := Trace.of_ret ht
      injection h2 with h2
      exact ⟨h1, congrArg some h2.symm⟩

/-- A read outside all brackets is a section of its own. -/
theorem Trace.read_bind {q : σ → Proc L S σ α} {a : α} {vs : List (Visit S σ)}
    (ht : Trace (Proc.read.bind q) vs (ret a)) :
    ∃ s vs', vs = ⟨[], s, s⟩ :: vs' ∧ Trace (q s) vs' (ret a) := by
  cases ht with
  | @cons _ _ s vs' _ ht => exact ⟨s, vs', rfl, ht⟩

/-- **The trace of a sequence** is a trace of its first part, then one of its second. -/
theorem Trace.of_bind {p : Proc L S σ α} {q : α → Proc L S σ β} {r : Proc L S σ β} {b : β}
    {vs : List (Visit S σ)} (ht : Trace r vs (ret b)) (hr : r = p.bind q) (hp : Ends 0 0 p) :
    ∃ vs₁ vs₂ a, vs = vs₁ ++ vs₂ ∧ Trace p vs₁ (ret a) ∧ Trace (q a) vs₂ (ret b) := by
  generalize hend : (ret b : Proc L S σ β) = e at ht
  induction ht generalizing p with
  | nil =>
      cases p with
      | ret a => exact ⟨[], [], a, rfl, Trace.nil, by rw [hr]; exact Trace.nil⟩
      | fault => rw [← hend] at hr; exact absurd hr (by simp)
      | acquire l m k => rw [← hend] at hr; exact absurd hr (by simp [Proc.bind])
      | release l k => rw [← hend] at hr; exact absurd hr (by simp [Proc.bind])
      | enter c k => rw [← hend] at hr; exact absurd hr (by simp [Proc.bind])
      | leave c k => rw [← hend] at hr; exact absurd hr (by simp [Proc.bind])
      | atom f k => rw [← hend] at hr; exact absurd hr (by simp [Proc.bind])
  | @cons r e s vs hact ht ih =>
      by_cases hpa : p.active = true
      · obtain ⟨h1, h2⟩ := sect_bind q s hp (Or.inr hpa)
        have hrest : rest r s = (rest p s).bind q := by
          rw [hr, rest, h1]
          rfl
        have hvisit : visit r s = visit p s := by
          rw [hr, visit, h1]
          rfl
        obtain ⟨vs₁, vs₂, a, hvs, ht₁, ht₂⟩ := ih hrest h2 hend
        refine ⟨visit p s :: vs₁, vs₂, a, ?_, Trace.cons hpa ht₁, ht₂⟩
        rw [hvs, hvisit]
        rfl
      · cases p with
        | ret a =>
            rw [ret_bind] at hr
            exact ⟨[], _, a, rfl, Trace.nil, by rw [← hr]; exact Trace.cons hact ht⟩
        | fault => rw [hr] at hact; exact absurd hact Bool.false_ne_true
        | acquire l m k => exact absurd rfl hpa
        | release l k => exact absurd rfl hpa
        | enter c k => exact absurd rfl hpa
        | leave c k => exact absurd rfl hpa
        | atom f k => exact absurd rfl hpa

theorem Trace.bind {p : Proc L S σ α} {q : α → Proc L S σ β} {b : β} {vs : List (Visit S σ)}
    (ht : Trace (p.bind q) vs (ret b)) (hp : Balanced p) :
    ∃ vs₁ vs₂ a, vs = vs₁ ++ vs₂ ∧ Trace p vs₁ (ret a) ∧ Trace (q a) vs₂ (ret b) :=
  ht.of_bind rfl (hp 0)

/-- A bracketed part is one section, in which it runs as it does alone. -/
theorem Trace.of_bracket {p : Proc L S σ α} {r : Proc L S σ α} {c : List S} {a : α}
    {vs : List (Visit S σ)} {q : α → Proc L S σ α} (hp : Balanced p) (hact : r.active = true)
    (hr : ∀ s, sect 0 r s = (c ++ (sect 1 (p.bind q) s).1, (sect 1 (p.bind q) s).2))
    (hq : ∀ b s, sect 1 (q b) s = ([], ret b, s)) (ht : Trace r vs (ret a)) :
    ∃ s s', p.run s = some (a, s') ∧ vs = [⟨c ++ p.labels s, s, s'⟩] := by
  cases ht with
  | nil => exact absurd hact Bool.false_ne_true
  | @cons _ _ s vs' _ ht =>
      have hsect := sect_enclosed (hp 0) q s
      cases hrun : p.run s with
      | none =>
          rw [hrun] at hsect
          have hrest : rest r s = fault := by
            rw [rest, hr]
            exact hsect
          rw [hrest] at ht
          cases ht with
          | cons hact' _ => exact absurd hact' Bool.false_ne_true
      | some x =>
          obtain ⟨b, s'⟩ := x
          rw [hrun] at hsect
          simp only [hq, List.append_nil] at hsect
          have hrest : rest r s = ret b := by
            rw [rest, hr, hsect]
          have hvisit : visit r s = ⟨c ++ p.labels s, s, s'⟩ := by
            rw [visit, hr, hsect]
          rw [hrest] at ht
          obtain ⟨hvs, hret⟩ := Trace.of_ret ht
          injection hret with hab
          exact ⟨s, s', by rw [hrun, hab], by rw [hvs, hvisit]⟩

theorem Trace.guarded {p : Proc L S σ α} {l : L} {m : Mode} {a : α} {vs : List (Visit S σ)}
    (ht : Trace (guarded l m p) vs (ret a)) (hp : Balanced p) :
    ∃ s s', p.run s = some (a, s') ∧ vs = [⟨p.labels s, s, s'⟩] :=
  Trace.of_bracket (c := []) hp rfl (fun _ => rfl) (fun _ _ => rfl) ht

theorem Trace.scope {p : Proc L S σ α} {c : S} {a : α} {vs : List (Visit S σ)}
    (ht : Trace (scope c p) vs (ret a)) (hp : Balanced p) :
    ∃ s s', p.run s = some (a, s') ∧ vs = [⟨c :: p.labels s, s, s'⟩] :=
  Trace.of_bracket (c := [c]) hp rfl (fun _ => rfl) (fun _ _ => rfl) ht

/-! #### The visits of a scope -/

/-- The states found by the sections that consist of scope `c`. -/
def readsOf [DecidableEq S] (c : S) (vs : List (Visit S σ)) : List σ :=
  (vs.filter fun v => v.labels = [c]).map Visit.pre

section ReadsOf

variable [DecidableEq S]

@[simp] theorem readsOf_nil (c : S) : readsOf c ([] : List (Visit S σ)) = [] := rfl

@[simp] theorem readsOf_append (c : S) (vs ws : List (Visit S σ)) :
    readsOf c (vs ++ ws) = readsOf c vs ++ readsOf c ws := by
  rw [readsOf, List.filter_append, List.map_append]
  rfl

theorem readsOf_cons (c : S) (v : Visit S σ) (vs : List (Visit S σ)) :
    readsOf c (v :: vs) = (if v.labels = [c] then [v.pre] else []) ++ readsOf c vs := by
  rw [readsOf, List.filter_cons]
  split_ifs with h1 h2 h2
  · rfl
  · simp [h2] at h1
  · simp [h2] at h1
  · rfl

theorem mem_of_mem_readsOf {c : S} {vs : List (Visit S σ)} {s : σ} (h : s ∈ readsOf c vs) :
    ∃ v ∈ vs, v.pre = s := by
  obtain ⟨v, hv, rfl⟩ := List.mem_map.mp h
  exact ⟨v, (List.mem_filter.mp hv).1, rfl⟩

theorem exists_of_readsOf_eq {c : S} {vs : List (Visit S σ)} {s : σ} (h : readsOf c vs = [s]) :
    ∃ v ∈ vs, v.pre = s := by
  apply mem_of_mem_readsOf (c := c)
  rw [h]
  exact List.mem_singleton_self s

/-- A process that does not enter the scope does not visit it. -/
theorem Trace.readsOf_eq_nil {c : S} {p q : Proc L S σ α} {vs : List (Visit S σ)} (ht : Trace p vs q)
    (hp : Enters (· ≠ c) p) : readsOf c vs = [] := by
  induction ht with
  | nil => rfl
  | @cons p q s vs hact ht ih =>
      obtain ⟨h1, h2⟩ := Enters.sect hp 0 s
      rw [readsOf_cons, ih h2, if_neg]
      · rfl
      · intro hlabels
        have hmem : c ∈ (visit p s).labels := by
          rw [hlabels]
          exact List.mem_singleton_self c
        exact h1 c hmem rfl

end ReadsOf

/-! #### Traces and safety -/

/-- The states of a list of visits, in order. -/
def visited (vs : List (Visit S σ)) : List σ := vs.flatMap fun v => [v.pre, v.post]

/-- **Safety along a trace.**  A safe process whose sections find states that satisfy the invariant, each
changed as the guarantee allows since the thread last looked, is still safe after them. -/
theorem Trace.safe {I : σ → Prop} {G : σ → σ → Prop} {Q : α → σ → Prop} (hrefl : ∀ s, G s s)
    (htrans : ∀ {s t u}, G s t → G t u → G s u) {p q : Proc L S σ α} {vs : List (Visit S σ)}
    (ht : Trace p vs q) {h : σ} (hp : Safe I G Q h p) (hI : ∀ v ∈ vs, I v.pre)
    (hG : (h :: visited vs).Pairwise G) :
    ∃ h', Safe I G Q h' q ∧ ∀ u, (∀ s ∈ h :: visited vs, G s u) → G h' u := by
  induction ht generalizing h with
  | nil => exact ⟨h, hp, fun u hu => hu h List.mem_cons_self⟩
  | @cons p q s vs hact ht ih =>
      have hcons : visited (visit p s :: vs) = s :: (visit p s).post :: visited vs := rfl
      rw [hcons] at hG ⊢
      obtain ⟨h1, h2⟩ := List.pairwise_cons.mp hG
      have h3 := (List.pairwise_cons.mp h2).2
      obtain ⟨hIpost, hGpost, h'', hG'', hsafe⟩ :=
        hp.sect hrefl htrans 0 (hI _ List.mem_cons_self) (h1 s List.mem_cons_self)
      have hG₁ : (h'' :: visited vs).Pairwise G :=
        List.pairwise_cons.mpr ⟨fun t ht => htrans hG'' ((List.pairwise_cons.mp h3).1 t ht),
          (List.pairwise_cons.mp h3).2⟩
      obtain ⟨h', hsafe', hup⟩ :=
        ih hsafe (fun v hv => hI v (List.mem_cons_of_mem _ hv)) hG₁
      refine ⟨h', hsafe', fun u hu => hup u fun t ht => ?_⟩
      rcases List.mem_cons.mp ht with rfl | ht
      · exact htrans hG'' (hu (visit p s).post (by simp))
      · exact hu t (by simp [ht])

/-- An ordered list of states has a state below it. -/
theorem exists_below {G : σ → σ → Prop} (hrefl : ∀ s, G s s) (default : σ) {l : List σ}
    (hG : l.Pairwise G) : ∃ h, (h :: l).Pairwise G := by
  cases l with
  | nil => exact ⟨default, List.pairwise_singleton G default⟩
  | cons a l =>
      refine ⟨a, List.pairwise_cons.mpr ⟨fun s hs => ?_, hG⟩⟩
      rcases List.mem_cons.mp hs with rfl | hs
      · exact hrefl s
      · exact (List.pairwise_cons.mp hG).1 s hs

/-- An ordered list of states has a state above it. -/
theorem exists_above {G : σ → σ → Prop} (hrefl : ∀ s, G s s)
    (htrans : ∀ {s t u}, G s t → G t u → G s u) {h : σ} {l : List σ} (hG : (h :: l).Pairwise G) :
    ∃ u, ∀ s ∈ h :: l, G s u := by
  induction l generalizing h with
  | nil => exact ⟨h, fun s hs => by rw [List.mem_singleton.mp hs]; exact hrefl h⟩
  | cons a l ih =>
      obtain ⟨h1, h2⟩ := List.pairwise_cons.mp hG
      obtain ⟨u, hu⟩ := ih h2
      refine ⟨u, fun s hs => ?_⟩
      rcases List.mem_cons.mp hs with rfl | hs
      · exact htrans (h1 a List.mem_cons_self) (hu a List.mem_cons_self)
      · exact hu s hs

/-! #### Running alone -/

/-- Each visit starts where the one before ended. -/
def Chained : σ → List (Visit S σ) → σ → Prop
  | s, [], s' => s = s'
  | s, v :: vs, s' => v.pre = s ∧ Chained v.post vs s'

theorem trace_of_sect {p : Proc L S σ α} {s s' : σ} {a : α}
    (h : ∃ vs, Trace (Proc.sect 0 p s).2.1 vs (ret a) ∧ Chained (Proc.sect 0 p s).2.2 vs s') :
    ∃ vs, Trace p vs (ret a) ∧ Chained s vs s' := by
  cases hact : p.active with
  | true =>
      obtain ⟨vs, ht, hc⟩ := h
      exact ⟨visit p s :: vs, Trace.cons hact ht, rfl, hc⟩
  | false => cases p <;> first | exact h | exact absurd hact (by simp [active])

/-- What a section leaves of a run alone, at any depth, is a trace in which nothing happens between the
sections. -/
theorem sect_trace (d : ℕ) {p : Proc L S σ α} {s s' : σ} {a : α} (h : p.run s = some (a, s')) :
    ∃ vs, Trace (Proc.sect d p s).2.1 vs (ret a) ∧ Chained (Proc.sect d p s).2.2 vs s' := by
  induction p generalizing d s with
  | ret b =>
      obtain ⟨rfl, rfl⟩ := Prod.mk.inj (Option.some.inj h)
      exact ⟨[], Trace.nil, rfl⟩
  | fault => exact absurd h (by simp)
  | acquire l m k ih => exact ih (d + 1) h
  | release l k ih =>
      rw [Proc.sect]
      split
      · exact trace_of_sect (ih 0 h)
      · exact ih (d - 1) h
  | enter c k ih => exact ih (d + 1) h
  | leave c k ih =>
      rw [Proc.sect]
      split
      · exact trace_of_sect (ih 0 h)
      · exact ih (d - 1) h
  | atom f k ih =>
      rw [Proc.sect]
      split
      · exact trace_of_sect (ih s 0 h)
      · exact ih s d h

/-- **A run alone is a trace** in which nothing happens between the sections. -/
theorem run_trace {p : Proc L S σ α} {s s' : σ} {a : α} (h : p.run s = some (a, s')) :
    ∃ vs, Trace p vs (ret a) ∧ Chained s vs s' :=
  trace_of_sect (sect_trace 0 h)

/-- The states of a safe run alone satisfy the invariant, are ordered by the guarantee, and lie below the
last one. -/
theorem Safe.chained {I : σ → Prop} {G : σ → σ → Prop} {Q : α → σ → Prop} (hrefl : ∀ s, G s s)
    (htrans : ∀ {s t u}, G s t → G t u → G s u) {p q : Proc L S σ α} {vs : List (Visit S σ)}
    (ht : Trace p vs q) {h s s' : σ} (hp : Safe I G Q h p) (hs : I s) (hG : G h s)
    (hc : Chained s vs s') :
    (∀ v ∈ vs, I v.pre) ∧ (s :: visited vs).Pairwise G ∧ ∀ t ∈ s :: visited vs, G t s' := by
  induction ht generalizing h s with
  | nil =>
      have hs' : s = s' := hc
      refine ⟨fun v hv => absurd hv List.not_mem_nil, List.pairwise_singleton G s, fun t ht => ?_⟩
      rw [List.mem_singleton.mp ht, hs']
      exact hrefl s'
  | @cons p q s₁ vs hact ht ih =>
      obtain ⟨rfl, hc⟩ := hc
      obtain ⟨hI, hpost, h', hG', hsafe⟩ := hp.sect hrefl htrans 0 hs hG
      obtain ⟨h1, h2, h3⟩ := ih hsafe hI hG' hc
      have hfirst : ∀ u ∈ (visit p s₁).post :: visited vs, G s₁ u := by
        intro u hu
        rcases List.mem_cons.mp hu with rfl | hu
        · exact hpost
        · exact htrans hpost ((List.pairwise_cons.mp h2).1 u hu)
      have hlast : G s₁ s' := htrans hpost (h3 _ List.mem_cons_self)
      refine ⟨fun v hv => ?_, List.pairwise_cons.mpr ⟨fun u hu => ?_, List.pairwise_cons.mpr ⟨hfirst, h2⟩⟩,
        fun t ht => ?_⟩
      · rcases List.mem_cons.mp hv with rfl | hv
        · exact hs
        · exact h1 v hv
      · rcases List.mem_cons.mp hu with rfl | hu
        · exact hrefl _
        · exact hfirst u hu
      · rcases List.mem_cons.mp ht with rfl | ht
        · exact hlast
        · rcases List.mem_cons.mp ht with rfl | ht
          · exact hlast
          · exact h3 t ht

/-- The states of a run alone are changed as the accesses of the process change them. -/
theorem Accesses.chained {P : (σ → σ) → Prop} {G : σ → σ → Prop}
    (hP : ∀ f, P f → ∀ s, G s (f s)) (hrefl : ∀ s, G s s)
    (htrans : ∀ {s t u}, G s t → G t u → G s u) {p q : Proc L S σ α} {vs : List (Visit S σ)}
    (ht : Trace p vs q) (hp : Accesses P p) {s s' : σ} (hc : Chained s vs s') :
    (∀ v ∈ vs, G s v.pre ∧ G s v.post) ∧ G s s' := by
  induction ht generalizing s with
  | nil =>
      have hs : s = s' := hc
      exact ⟨fun v hv => absurd hv List.not_mem_nil, hs ▸ hrefl s⟩
  | @cons p q s₁ vs hact ht ih =>
      obtain ⟨rfl, hc⟩ := hc
      obtain ⟨h1, h2⟩ := Accesses.sect hP hrefl htrans hp 0 s₁
      obtain ⟨h3, h4⟩ := ih h2 hc
      refine ⟨fun v hv => ?_, htrans h1 h4⟩
      rcases List.mem_cons.mp hv with rfl | hv
      · exact ⟨hrefl s₁, h1⟩
      · exact ⟨htrans h1 (h3 v hv).1, htrans h1 (h3 v hv).2⟩

/-! ### The record of a run -/

/-- The visits of operation `(t, k)` among the events. -/
def own (t : T) (k : ℕ) (es : List (Event T Op S σ R)) : List (Visit S σ) :=
  es.filterMap fun e => match e with
    | .section u j v => if u = t ∧ j = k then some v else none
    | _ => none

theorem own_snoc (t : T) (k : ℕ) (es : List (Event T Op S σ R)) (e : Event T Op S σ R) :
    own t k (es ++ [e]) = own t k es ++ own t k [e] := by
  simp [own]

theorem own_section (t u : T) (k j : ℕ) (v : Visit S σ) :
    own t k ([Event.section u j v] : List (Event T Op S σ R)) = if u = t ∧ j = k then [v] else [] := by
  simp only [own, List.filterMap_cons, List.filterMap_nil]
  split_ifs <;> rfl

/-- The states of an operation's sections are among those of the run, in the same order. -/
theorem visited_own_sublist (t : T) (k : ℕ) (es : List (Event T Op S σ R)) :
    (visited (own t k es)).Sublist (states es) := by
  induction es with
  | nil => exact List.Sublist.refl _
  | cons e es ih =>
      cases e with
      | invoke u j op => exact ih
      | respond u j r => exact ih
      | «section» u j v =>
          have hstates : states (Event.section u j v :: es)
              = v.pre :: v.post :: states es := rfl
          have hown : own t k (Event.section u j v :: es)
              = (if u = t ∧ j = k then [v] else []) ++ own t k es := by
            simp only [own, List.filterMap_cons]
            split_ifs <;> rfl
          rw [hown, hstates]
          split_ifs
          · exact (ih.cons_cons v.post).cons_cons v.pre
          · exact (ih.cons v.post).cons v.pre

/-- What operation `(t, k)` returned, if it has. -/
def replyOf (t : T) (k : ℕ) (es : List (Event T Op S σ R)) : Option R :=
  es.findSome? fun e => match e with
    | .respond u j r => if u = t ∧ j = k then some r else none
    | _ => none

theorem mem_of_replyOf {t : T} {k : ℕ} {es : List (Event T Op S σ R)} {r : R}
    (h : replyOf t k es = some r) : Event.respond t k r ∈ es := by
  obtain ⟨e, he, hr⟩ := List.exists_of_findSome?_eq_some h
  cases e with
  | invoke u j op => exact absurd hr (by simp)
  | «section» u j v => exact absurd hr (by simp)
  | respond u j r' =>
      simp only at hr
      split_ifs at hr with hid
      obtain ⟨rfl, rfl⟩ := hid
      rw [← Option.some.inj hr]
      exact he

/-- What the events of a run say about each thread's operations. -/
structure Recorded (sys : System T Op L S σ R) (es : List (Event T Op S σ R))
    (c : Config T L S σ R) : Prop where
  current : ∀ t p, c.running t = some p → ∃ op, (sys.program t)[c.finished t]? = some op ∧
    Trace (sys.code op) (own t (c.finished t) es) p
  fresh : ∀ t k, c.finished t < k ∨ (c.finished t = k ∧ c.running t = none) → own t k es = []
  responded : ∀ t k r, Event.respond t k r ∈ es → k < c.finished t ∧
    ∃ op, (sys.program t)[k]? = some op ∧ Trace (sys.code op) (own t k es) (ret r)

section Recorded

variable {sys : System T Op L S σ R} {es : List (Event T Op S σ R)} {c : Config T L S σ R}

theorem Recorded.invoke (hc : Recorded sys es c) {t : T} {op : Op} (hidle : c.running t = none)
    (hop : (sys.program t)[c.finished t]? = some op) :
    Recorded sys (es ++ [.invoke t (c.finished t) op]) (c.invoked t (sys.code op)) := by
  have hown : ∀ u k, own u k (es ++ [Event.invoke t (c.finished t) op]) = own u k es :=
    fun u k => by rw [own_snoc]; exact List.append_nil _
  refine ⟨fun u p hu => ?_, fun u k hk => ?_, fun u k r hmem => ?_⟩
  · rw [hown]
    rw [Config.invoked_running] at hu
    split_ifs at hu with hut
    · rw [← Option.some.inj hu, hut]
      refine ⟨op, hop, ?_⟩
      rw [Config.invoked_finished, hc.fresh t _ (Or.inr ⟨rfl, hidle⟩)]
      exact Trace.nil
    · exact hc.current u p hu
  · rw [hown]
    apply hc.fresh u k
    rcases hk with hk | ⟨hk, hnone⟩
    · exact Or.inl hk
    · rw [Config.invoked_running] at hnone
      split_ifs at hnone
      exact Or.inr ⟨hk, hnone⟩
  · rw [hown]
    exact hc.responded u k r (by simpa using hmem)

theorem Recorded.section (hc : Recorded sys es c) {t : T} {p : Proc L S σ R}
    (hrun : c.running t = some p) (hact : p.active = true) :
    Recorded sys (es ++ [.section t (c.finished t) (visit p c.shared)]) (c.advanced t p) := by
  refine ⟨fun u q hu => ?_, fun u k hk => ?_, fun u k r hmem => ?_⟩
  · rw [own_snoc, own_section, Config.advanced_finished]
    rw [Config.advanced_running] at hu
    split_ifs at hu with hut
    · obtain ⟨op, hop, htr⟩ := hc.current t p hrun
      rw [← Option.some.inj hu, hut, if_pos ⟨rfl, rfl⟩]
      exact ⟨op, hop, htr.snoc hact c.shared⟩
    · rw [if_neg fun h => hut h.1.symm, List.append_nil]
      exact hc.current u q hu
  · rw [Config.advanced_finished, Config.advanced_running] at hk
    have hne : ¬ (t = u ∧ c.finished t = k) := by
      rintro ⟨rfl, rfl⟩
      rcases hk with hk | ⟨-, hnone⟩
      · exact Nat.lt_irrefl _ hk
      · rw [if_pos rfl] at hnone
        exact absurd hnone (by simp)
    rw [own_snoc, own_section, if_neg hne, List.append_nil]
    apply hc.fresh u k
    rcases hk with hk | ⟨hk, hnone⟩
    · exact Or.inl hk
    · split_ifs at hnone
      exact Or.inr ⟨hk, hnone⟩
  · have hmem' : Event.respond u k r ∈ es := by simpa using hmem
    obtain ⟨hlt, op, hop, htr⟩ := hc.responded u k r hmem'
    have hne : ¬ (t = u ∧ c.finished t = k) := by
      rintro ⟨rfl, rfl⟩
      exact Nat.lt_irrefl _ hlt
    refine ⟨hlt, op, hop, ?_⟩
    rw [own_snoc, own_section, if_neg hne, List.append_nil]
    exact htr

theorem Recorded.respond (hc : Recorded sys es c) {t : T} {r : R}
    (hrun : c.running t = some (ret r)) :
    Recorded sys (es ++ [.respond t (c.finished t) r]) (c.responded t) := by
  have hown : ∀ u k, own u k (es ++ [Event.respond t (c.finished t) r]) = own u k es :=
    fun u k => by rw [own_snoc]; exact List.append_nil _
  refine ⟨fun u p hu => ?_, fun u k hk => ?_, fun u k r' hmem => ?_⟩
  · rw [Config.responded_running] at hu
    split_ifs at hu with hut
    rw [hown, Config.responded_finished, if_neg hut]
    exact hc.current u p hu
  · rw [hown]
    rw [Config.responded_finished, Config.responded_running] at hk
    apply hc.fresh u k
    split_ifs at hk with hut
    · rw [hut]
      exact Or.inl (by rcases hk with hk | ⟨hk, -⟩ <;> omega)
    · exact hk
  · rw [hown, Config.responded_finished]
    rcases List.mem_append.mp hmem with hmem | hmem
    · obtain ⟨hlt, h⟩ := hc.responded u k r' hmem
      refine ⟨?_, h⟩
      split_ifs with hut
      · rw [hut] at hlt
        omega
      · exact hlt
    · obtain ⟨rfl, rfl, rfl⟩ : u = t ∧ k = c.finished t ∧ r' = r := by simpa using hmem
      obtain ⟨op, hop, htr⟩ := hc.current u _ hrun
      exact ⟨by rw [if_pos rfl]; omega, op, hop, htr⟩

end Recorded

/-- **The record of a run.**  In every run, each operation's result is what its code returns on the
states that its own sections found. -/
theorem Run.recorded {sys : System T Op L S σ R} {s₀ : σ} {es : List (Event T Op S σ R)}
    {c : Config T L S σ R} (hrun : Run sys (Config.start s₀) es c) : Recorded sys es c := by
  induction hrun with
  | nil =>
      exact ⟨fun _ _ h => by simp [Config.start] at h, fun _ _ _ => rfl, fun _ _ _ h => by simp at h⟩
  | @snoc es c c' e _ hstep ih =>
      cases hstep with
      | invoke hidle hop => exact ih.invoke hidle hop
      | «section» hrun hact => exact ih.section hrun hact
      | respond hrun => exact ih.respond hrun

/-! ### One thread alone -/

section Alone

variable {sys : System T Op L S σ R} {c₀ c : Config T L S σ R} {es : List (Event T Op S σ R)} {t : T}

/-- Scheduled alone, a thread makes the visits of a trace in which nothing happens in between. -/
theorem Run.traced {p q : Proc L S σ R} {vs : List (Visit S σ)} {s' : σ} (ht : Trace p vs q)
    (hrun : Run sys c₀ es c) (hp : c.running t = some p) (hc : Chained c.shared vs s') :
    ∃ es' c', Run sys c₀ es' c' ∧ c'.shared = s' ∧ c'.running t = some q ∧ c'.finished = c.finished := by
  induction ht generalizing es c with
  | nil => exact ⟨es, c, hrun, hc, hp, rfl⟩
  | @cons p q s vs hact ht ih =>
      obtain ⟨hs, hc⟩ := hc
      have hs : s = c.shared := hs
      subst hs
      have hnext : (c.advanced t p).running t = some (rest p c.shared) := by
        rw [Config.advanced_running, if_pos rfl]
      obtain ⟨es', c', hrun', h⟩ := ih (hrun.snoc (Step.section hp hact)) hnext hc
      exact ⟨es', c', hrun', h⟩

/-- Scheduled alone, an idle thread serves its next operation. -/
theorem Run.serves {op : Op} {r : R} {s' : σ} (hrun : Run sys c₀ es c) (hidle : c.running t = none)
    (hop : (sys.program t)[c.finished t]? = some op) (h : (sys.code op).run c.shared = some (r, s')) :
    ∃ es' c', Run sys c₀ es' c' ∧ c'.shared = s' ∧ c'.running t = none ∧
      c'.finished t = c.finished t + 1 := by
  have hinvoked := hrun.snoc (Step.invoke hidle hop)
  obtain ⟨vs, ht, hc⟩ := run_trace h
  obtain ⟨es', c', hrun', hshared, hret, hfinished⟩ :=
    Run.traced ht hinvoked (by rw [Config.invoked_running, if_pos rfl]) hc
  refine ⟨_, c'.responded t, hrun'.snoc (Step.respond hret), hshared, ?_, ?_⟩
  · rw [Config.responded_running, if_pos rfl]
  · rw [Config.responded_finished, if_pos rfl, hfinished, Config.invoked_finished]

end Alone

end Concurrent
