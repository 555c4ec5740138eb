import Mathlib.Data.List.Nodup
import GlbBackend.Concurrent.Sections

/-!
# Linearizability

When does a run of a system look as if its operations had been carried out one at a time?  `apply` says
what an operation does to an abstract state and what it replies.  A *linearization* of a run is an order of
its operations, each with its reply, that is

* **legal** — carried out one at a time in that order from the initial abstract state, every operation
  replies as it did in the run (`Legal`);
* **true to the clients** — the operations of a thread stand in the order the thread issued them;
* **true to real time** — an operation that returned before another was invoked stands before it.

The proof method is a forward simulation (`Simulation`).  Beside the configuration runs a ghost: the abstract
state, and for each running operation whether it has already taken effect, and with which reply.  At any step
any running operations may take effect, in any order, those of other threads included (`Takes`); an operation
must have taken effect when it returns.  `Simulation.linearized` turns a simulation into a linearization of
every run.
-/

namespace Concurrent

open Proc

variable {T Op L S σ R A : Type}

/-- An operation in an order: who issued it, as which of its operations, and what it replied. -/
structure Entry (T Op R : Type) where
  thread : T
  index : ℕ
  op : Op
  reply : R

/-- Carried out one at a time from the first state, the entries reply as they say and end in the last. -/
inductive Legal (apply : Op → A → R × A) : A → List (Entry T Op R) → A → Prop
  | nil (a : A) : Legal apply a [] a
  | cons {a a' : A} {e : Entry T Op R} {es : List (Entry T Op R)}
      (hreply : (apply e.op a).1 = e.reply) (hrest : Legal apply (apply e.op a).2 es a') :
      Legal apply a (e :: es) a'

theorem Legal.append {apply : Op → A → R × A} {a b c : A} {es fs : List (Entry T Op R)}
    (h₁ : Legal apply a es b) (h₂ : Legal apply b fs c) : Legal apply a (es ++ fs) c := by
  induction h₁ with
  | nil a => exact h₂
  | cons hreply _ ih => exact Legal.cons hreply (ih h₂)

theorem Legal.split {apply : Op → A → R × A} {a c : A} {es fs : List (Entry T Op R)}
    (h : Legal apply a (es ++ fs) c) : ∃ b, Legal apply a es b ∧ Legal apply b fs c := by
  induction es generalizing a with
  | nil => exact ⟨a, Legal.nil a, h⟩
  | cons e es ih =>
      cases h with
      | cons hreply hrest =>
          obtain ⟨b, h1, h2⟩ := ih hrest
          exact ⟨b, Legal.cons hreply h1, h2⟩

/-! ### The ghost -/

variable [DecidableEq T]

/-- The abstract state, and the replies of the running operations that have taken effect. -/
structure Ghost (T A R : Type) where
  state : A
  taken : T → Option R

/-- The ghost when nothing runs. -/
def Ghost.start (a : A) : Ghost T A R := ⟨a, fun _ => none⟩

/-- The operation of thread `t` takes effect. -/
def Ghost.take (apply : Op → A → R × A) (G : Ghost T A R) (t : T) (op : Op) : Ghost T A R :=
  ⟨(apply op G.state).2, Function.update G.taken t (some (apply op G.state).1)⟩

@[simp] theorem Ghost.take_state (apply : Op → A → R × A) (G : Ghost T A R) (t : T) (op : Op) :
    (G.take apply t op).state = (apply op G.state).2 := rfl

@[simp] theorem Ghost.take_taken_self (apply : Op → A → R × A) (G : Ghost T A R) (t : T) (op : Op) :
    (G.take apply t op).taken t = some (apply op G.state).1 := Function.update_self _ _ _

theorem Ghost.take_taken_of_ne (apply : Op → A → R × A) (G : Ghost T A R) {t u : T} (h : u ≠ t) (op : Op) :
    (G.take apply t op).taken u = G.taken u := Function.update_of_ne h _ _

/-- Thread `t` returns. -/
def Ghost.forget (G : Ghost T A R) (t : T) : Ghost T A R :=
  ⟨G.state, Function.update G.taken t none⟩

@[simp] theorem Ghost.forget_state (G : Ghost T A R) (t : T) : (G.forget t).state = G.state := rfl

@[simp] theorem Ghost.forget_taken_self (G : Ghost T A R) (t : T) : (G.forget t).taken t = none :=
  Function.update_self _ _ _

theorem Ghost.forget_taken_of_ne (G : Ghost T A R) {t u : T} (h : u ≠ t) :
    (G.forget t).taken u = G.taken u := Function.update_of_ne h _ _

/-- The running operations of the threads in the list take effect, one after the other. -/
inductive Takes (sys : System T Op L S σ R) (apply : Op → A → R × A) (c : Config T L S σ R) :
    Ghost T A R → List T → Ghost T A R → Prop
  | nil (G : Ghost T A R) : Takes sys apply c G [] G
  | cons {G G' : Ghost T A R} {t : T} {ts : List T} {op : Op}
      (hrun : (c.running t).isSome = true) (hop : (sys.program t)[c.finished t]? = some op)
      (hfresh : G.taken t = none) (hrest : Takes sys apply c (G.take apply t op) ts G') :
      Takes sys apply c G (t :: ts) G'

theorem Takes.append {sys : System T Op L S σ R} {apply : Op → A → R × A} {c : Config T L S σ R}
    {G G' G'' : Ghost T A R} {ts us : List T} (h₁ : Takes sys apply c G ts G')
    (h₂ : Takes sys apply c G' us G'') : Takes sys apply c G (ts ++ us) G'' := by
  induction h₁ with
  | nil G => exact h₂
  | cons hrun hop hfresh _ ih => exact Takes.cons hrun hop hfresh (ih h₂)

/-- A forward simulation: a relation between configurations and ghosts that every step keeps, after some
running operations have taken effect. -/
structure Simulation (sys : System T Op L S σ R) (apply : Op → A → R × A)
    (J : Config T L S σ R → Ghost T A R → Prop) : Prop where
  invoke : ∀ {c G t op}, J c G → c.running t = none → (sys.program t)[c.finished t]? = some op →
    ∃ ts G', Takes sys apply (c.invoked t (sys.code op)) G ts G' ∧ J (c.invoked t (sys.code op)) G'
  advance : ∀ {c G t p}, J c G → c.running t = some p → p.active = true →
    ∃ ts G', Takes sys apply (c.advanced t p) G ts G' ∧ J (c.advanced t p) G'
  respond : ∀ {c G t r}, J c G → c.running t = some (ret r) →
    G.taken t = some r ∧ J (c.responded t) (G.forget t)

/-! ### What the events say -/

/-- The events tell which operations have been invoked and which have returned. -/
structure Issued (sys : System T Op L S σ R) (es : List (Event T Op S σ R))
    (c : Config T L S σ R) : Prop where
  running : ∀ t, (c.running t).isSome = true → ∃ op, (sys.program t)[c.finished t]? = some op ∧
    Event.invoke t (c.finished t) op ∈ es
  finished : ∀ t k, k < c.finished t → ∃ r, Event.respond t k r ∈ es
  responded : ∀ t k r, Event.respond t k r ∈ es → k < c.finished t

theorem Issued.step {sys : System T Op L S σ R} {es : List (Event T Op S σ R)}
    {c c' : Config T L S σ R} {e : Event T Op S σ R} (hc : Issued sys es c) (hstep : Step sys c e c') :
    Issued sys (es ++ [e]) c' := by
  cases hstep with
  | @invoke t op hidle hop =>
      refine ⟨fun u hu => ?_, fun u k hk => ?_, fun u k r hmem => hc.responded u k r (by simpa using hmem)⟩
      · rw [Config.invoked_running] at hu
        by_cases hut : u = t
        · rw [hut]
          exact ⟨op, hop, by simp⟩
        · rw [if_neg hut] at hu
          obtain ⟨op', hop', hmem⟩ := hc.running u hu
          exact ⟨op', hop', List.mem_append_left _ hmem⟩
      · obtain ⟨r, hr⟩ := hc.finished u k hk
        exact ⟨r, List.mem_append_left _ hr⟩
  | @«section» t p hrun hact =>
      refine ⟨fun u hu => ?_, fun u k hk => ?_, fun u k r hmem => hc.responded u k r (by simpa using hmem)⟩
      · have hu' : (c.running u).isSome = true := by
          rw [Config.advanced_running] at hu
          by_cases hut : u = t
          · rw [hut, hrun]
            rfl
          · rwa [if_neg hut] at hu
        obtain ⟨op', hop', hmem⟩ := hc.running u hu'
        exact ⟨op', hop', List.mem_append_left _ hmem⟩
      · obtain ⟨r, hr⟩ := hc.finished u k hk
        exact ⟨r, List.mem_append_left _ hr⟩
  | @respond t r hrun =>
      refine ⟨fun u hu => ?_, fun u k hk => ?_, fun u k r' hmem => ?_⟩
      · rw [Config.responded_running] at hu
        by_cases hut : u = t
        · rw [if_pos hut] at hu
          exact absurd hu Bool.false_ne_true
        · rw [if_neg hut] at hu
          obtain ⟨op', hop', hmem⟩ := hc.running u hu
          rw [Config.responded_finished, if_neg hut]
          exact ⟨op', hop', List.mem_append_left _ hmem⟩
      · rw [Config.responded_finished] at hk
        by_cases hnew : u = t ∧ k = c.finished t
        · rw [hnew.1, hnew.2]
          exact ⟨r, by simp⟩
        · have hk' : k < c.finished u := by
            by_cases hut : u = t
            · rw [if_pos hut] at hk
              rw [hut]
              have : k ≠ c.finished t := fun h => hnew ⟨hut, h⟩
              omega
            · rwa [if_neg hut] at hk
          obtain ⟨r', hr'⟩ := hc.finished u k hk'
          exact ⟨r', List.mem_append_left _ hr'⟩
      · rw [Config.responded_finished]
        rcases List.mem_append.mp hmem with hmem | hmem
        · have hlt := hc.responded u k r' hmem
          by_cases hut : u = t
          · rw [if_pos hut]
            rw [hut] at hlt
            omega
          · rwa [if_neg hut]
        · obtain ⟨rfl, rfl, rfl⟩ : u = t ∧ k = c.finished t ∧ r' = r := by simpa using hmem
          rw [if_pos rfl]
          omega

omit [DecidableEq T] in
theorem issued_start (sys : System T Op L S σ R) (s : σ) :
    Issued sys ([] : List (Event T Op S σ R)) (Config.start s) :=
  ⟨fun _ h => absurd h Bool.false_ne_true, fun _ _ h => absurd h (Nat.not_lt_zero _), fun _ _ _ h =>
    absurd h List.not_mem_nil⟩

/-- Operation `x` returned before operation `y` was invoked. -/
def Precedes (es : List (Event T Op S σ R)) (x y : T × ℕ) : Prop :=
  ∃ r op, [Event.respond x.1 x.2 r, Event.invoke y.1 y.2 op].Sublist es

omit [DecidableEq T] in
/-- A new event orders two operations only if it is the invocation of the second. -/
theorem Precedes.of_snoc {es : List (Event T Op S σ R)} {e : Event T Op S σ R} {x y : T × ℕ}
    (h : Precedes (es ++ [e]) x y) (he : ∀ op, e ≠ Event.invoke y.1 y.2 op) : Precedes es x y := by
  obtain ⟨r, op, hsub⟩ := h
  refine ⟨r, op, ?_⟩
  obtain ⟨l₁, l₂, hl, h1, h2⟩ := List.sublist_append_iff.mp hsub
  cases h2 with
  | cons _ h2 =>
      rw [List.sublist_nil.mp h2, List.append_nil] at hl
      rw [hl]
      exact h1
  | cons_cons _ h2 =>
      rw [List.sublist_nil.mp h2] at hl
      exfalso
      have hlast := congrArg List.getLast? hl
      simp only [List.getLast?_append, List.getLast?_singleton, List.getLast?_cons_cons,
        Option.some_or, Option.some.injEq] at hlast
      exact he op hlast.symm

omit [DecidableEq T] in
/-- An operation that has not returned precedes none. -/
theorem Precedes.mem {es : List (Event T Op S σ R)} {x y : T × ℕ} (h : Precedes es x y) :
    ∃ r, Event.respond x.1 x.2 r ∈ es := by
  obtain ⟨r, op, hsub⟩ := h
  exact ⟨r, hsub.subset List.mem_cons_self⟩

/-! ### Linearizations -/

/-- `log` is a linearization, so far, of a run with events `es` that has reached `c`, and `G` is the ghost
beside it. -/
structure Linearized (sys : System T Op L S σ R) (apply : Op → A → R × A) (a₀ : A)
    (es : List (Event T Op S σ R)) (c : Config T L S σ R) (G : Ghost T A R)
    (log : List (Entry T Op R)) : Prop where
  legal : Legal apply a₀ log G.state
  ops : ∀ e ∈ log, (sys.program e.thread)[e.index]? = some e.op
  place : ∀ e ∈ log, e.index < c.finished e.thread ∨
    (e.index = c.finished e.thread ∧ G.taken e.thread = some e.reply)
  complete : ∀ t k r, Event.respond t k r ∈ es →
    ∃ e ∈ log, e.thread = t ∧ e.index = k ∧ e.reply = r
  taken : ∀ t r, G.taken t = some r → (c.running t).isSome = true ∧
    ∃ e ∈ log, e.thread = t ∧ e.index = c.finished t ∧ e.reply = r
  clients : log.Pairwise fun e f => e.thread = f.thread → e.index < f.index
  realTime : log.Pairwise fun e f => ¬ Precedes es (f.thread, f.index) (e.thread, e.index)

variable {sys : System T Op L S σ R} {apply : Op → A → R × A} {a₀ : A}
  {es : List (Event T Op S σ R)} {c : Config T L S σ R} {G G' : Ghost T A R}
  {log : List (Entry T Op R)}

/-- A running operation takes effect: it goes behind all that have. -/
theorem Linearized.take (h : Linearized sys apply a₀ es c G log) (hes : Issued sys es c) {t : T} {op : Op}
    (hrun : (c.running t).isSome = true) (hop : (sys.program t)[c.finished t]? = some op)
    (hfresh : G.taken t = none) :
    Linearized sys apply a₀ es c (G.take apply t op)
      (log ++ [⟨t, c.finished t, op, (apply op G.state).1⟩]) := by
  have hold : ∀ e ∈ log, e.thread = t → e.index < c.finished t := by
    intro e he het
    rcases h.place e he with hlt | ⟨-, htaken⟩
    · rwa [het] at hlt
    · rw [het, hfresh] at htaken
      exact absurd htaken (by simp)
  have hself := G.take_taken_self apply t op
  refine ⟨h.legal.append (Legal.cons rfl (Legal.nil _)), fun e he => ?_, fun e he => ?_,
    fun u k r hmem => ?_, fun u r hu => ?_, ?_, ?_⟩
  · rcases List.mem_append.mp he with he | he
    · exact h.ops e he
    · rw [List.mem_singleton.mp he]
      exact hop
  · rcases List.mem_append.mp he with he | he
    · rcases h.place e he with hlt | ⟨hidx, htaken⟩
      · exact Or.inl hlt
      · refine Or.inr ⟨hidx, ?_⟩
        have hne : e.thread ≠ t := by
          intro het
          rw [het, hfresh] at htaken
          exact absurd htaken (by simp)
        rw [← htaken]
        exact G.take_taken_of_ne apply hne op
    · rw [List.mem_singleton.mp he]
      exact Or.inr ⟨rfl, hself⟩
  · obtain ⟨e, he, heq⟩ := h.complete u k r hmem
    exact ⟨e, List.mem_append_left _ he, heq⟩
  · by_cases hut : u = t
    · rw [hut] at hu ⊢
      rw [hself] at hu
      exact ⟨hrun, _, List.mem_append_right _ (List.mem_singleton_self _), rfl, rfl, Option.some.inj hu⟩
    · rw [G.take_taken_of_ne apply hut op] at hu
      obtain ⟨hrunning, e, he, heq⟩ := h.taken u r hu
      exact ⟨hrunning, e, List.mem_append_left _ he, heq⟩
  · refine List.pairwise_append.mpr ⟨h.clients, List.pairwise_singleton _ _, fun e he f hf => ?_⟩
    rw [List.mem_singleton.mp hf]
    exact hold e he
  · refine List.pairwise_append.mpr ⟨h.realTime, List.pairwise_singleton _ _, fun e he f hf => ?_⟩
    rw [List.mem_singleton.mp hf]
    intro hprec
    obtain ⟨r, hr⟩ := hprec.mem
    exact Nat.lt_irrefl _ (hes.responded t _ r hr)

/-- So do several, one after the other. -/
theorem Linearized.takes {ts : List T} (htakes : Takes sys apply c G ts G')
    (h : Linearized sys apply a₀ es c G log) (hes : Issued sys es c) :
    ∃ log', Linearized sys apply a₀ es c G' log' := by
  induction htakes generalizing log with
  | nil G => exact ⟨log, h⟩
  | cons hrun hop hfresh _ ih => exact ih (h.take hes hrun hop hfresh)

/-- An invocation leaves the linearization as it is. -/
theorem Linearized.invoke (h : Linearized sys apply a₀ es c G log) {t : T} {op : Op}
    (hidle : c.running t = none) :
    Linearized sys apply a₀ (es ++ [.invoke t (c.finished t) op]) (c.invoked t (sys.code op)) G log := by
  refine ⟨h.legal, h.ops, h.place, fun u k r hmem => h.complete u k r (by simpa using hmem),
    fun u r hu => ?_, h.clients, ?_⟩
  · obtain ⟨hrunning, hentry⟩ := h.taken u r hu
    refine ⟨?_, hentry⟩
    rw [Config.invoked_running]
    split_ifs
    · rfl
    · exact hrunning
  · refine h.realTime.imp_of_mem fun {e f} he _ hnot hprec => hnot (hprec.of_snoc fun op' heq => ?_)
    -- the new operation is not in the log: its thread was idle
    injection heq with ht hk _
    have ht : t = e.thread := ht
    have hk : c.finished t = e.index := hk
    rcases h.place e he with hlt | ⟨-, htaken⟩
    · rw [← ht, ← hk] at hlt
      exact Nat.lt_irrefl _ hlt
    · obtain ⟨hrunning, -⟩ := h.taken _ _ htaken
      rw [← ht, hidle] at hrunning
      exact absurd hrunning Bool.false_ne_true

/-- So does a section. -/
theorem Linearized.section (h : Linearized sys apply a₀ es c G log) (t : T) (p : Proc L S σ R) :
    Linearized sys apply a₀ (es ++ [.section t (c.finished t) (visit p c.shared)]) (c.advanced t p) G
      log := by
  refine ⟨h.legal, h.ops, h.place, fun u k r hmem => h.complete u k r (by simpa using hmem),
    fun u r hu => ?_, h.clients, ?_⟩
  · obtain ⟨hrunning, hentry⟩ := h.taken u r hu
    refine ⟨?_, hentry⟩
    rw [Config.advanced_running]
    split_ifs
    · rfl
    · exact hrunning
  · exact h.realTime.imp fun hnot hprec => hnot (hprec.of_snoc fun op' heq => by injection heq)

/-- An operation that has taken effect may return what it replied. -/
theorem Linearized.respond (h : Linearized sys apply a₀ es c G log) {t : T} {r : R}
    (htaken : G.taken t = some r) :
    Linearized sys apply a₀ (es ++ [.respond t (c.finished t) r]) (c.responded t) (G.forget t) log := by
  refine ⟨h.legal, h.ops, fun e he => ?_, fun u k r' hmem => ?_, fun u r' hu => ?_, h.clients, ?_⟩
  · rw [Config.responded_finished]
    by_cases het : e.thread = t
    · rw [if_pos het]
      rcases h.place e he with hlt | ⟨hidx, -⟩
      · rw [het] at hlt
        exact Or.inl (by omega)
      · rw [het] at hidx
        exact Or.inl (by omega)
    · rw [if_neg het]
      rcases h.place e he with hlt | ⟨hidx, htaken'⟩
      · exact Or.inl hlt
      · refine Or.inr ⟨hidx, ?_⟩
        rw [← htaken']
        exact G.forget_taken_of_ne het
  · rcases List.mem_append.mp hmem with hmem | hmem
    · exact h.complete u k r' hmem
    · obtain ⟨rfl, rfl, rfl⟩ : u = t ∧ k = c.finished t ∧ r' = r := by simpa using hmem
      exact (h.taken u r' htaken).2
  · have hut : u ≠ t := by
      rintro rfl
      rw [G.forget_taken_self u] at hu
      exact absurd hu (by simp)
    rw [G.forget_taken_of_ne hut] at hu
    rw [Config.responded_running, if_neg hut, Config.responded_finished, if_neg hut]
    exact h.taken u r' hu
  · exact h.realTime.imp fun hnot hprec => hnot (hprec.of_snoc fun op' heq => by injection heq)

/-- **A simulation linearizes every run.** -/
theorem Simulation.linearized {J : Config T L S σ R → Ghost T A R → Prop} (sim : Simulation sys apply J)
    {s₀ : σ} (hJ : J (Config.start s₀) (Ghost.start a₀)) (hrun : Run sys (Config.start s₀) es c) :
    ∃ G log, J c G ∧ Linearized sys apply a₀ es c G log ∧ Issued sys es c := by
  induction hrun with
  | nil =>
      exact ⟨Ghost.start a₀, [], hJ, ⟨Legal.nil a₀, by simp, by simp, by simp, fun _ _ h => by
        exact absurd h (by simp [Ghost.start]), List.Pairwise.nil, List.Pairwise.nil⟩, issued_start sys s₀⟩
  | @snoc es c c' e _ hstep ih =>
      obtain ⟨G, log, hc, hlog, hes⟩ := ih
      have hes' := hes.step hstep
      cases hstep with
      | invoke hidle hop =>
          obtain ⟨ts, G', htakes, hJ'⟩ := sim.invoke hc hidle hop
          obtain ⟨log', hlog'⟩ := (hlog.invoke hidle).takes htakes hes'
          exact ⟨G', log', hJ', hlog', hes'⟩
      | «section» hrun hact =>
          obtain ⟨ts, G', htakes, hJ'⟩ := sim.advance hc hrun hact
          obtain ⟨log', hlog'⟩ := (hlog.section _ _).takes htakes hes'
          exact ⟨G', log', hJ', hlog', hes'⟩
      | respond hrun =>
          obtain ⟨htaken, hJ'⟩ := sim.respond hc hrun
          exact ⟨_, log, hJ', hlog.respond htaken, hes'⟩

omit [DecidableEq T] in
/-- In a run in which every operation has returned, the log holds every operation. -/
theorem Linearized.total (h : Linearized sys apply a₀ es c G log) (hes : Issued sys es c)
    (hdone : ∀ t, c.running t = none ∧ c.finished t = (sys.program t).length) (t : T) (k : ℕ) :
    (∃ e ∈ log, e.thread = t ∧ e.index = k) ↔ k < (sys.program t).length := by
  constructor
  · rintro ⟨e, he, rfl, rfl⟩
    exact (List.getElem?_eq_some_iff.mp (h.ops e he)).1
  · intro hk
    rw [← (hdone t).2] at hk
    obtain ⟨r, hr⟩ := hes.finished t k hk
    obtain ⟨e, he, h1, h2, -⟩ := h.complete t k r hr
    exact ⟨e, he, h1, h2⟩

omit [DecidableEq T] in
/-- Every operation stands in the log once. -/
theorem Linearized.nodup (h : Linearized sys apply a₀ es c G log) :
    (log.map fun e => (e.thread, e.index)).Nodup := by
  refine List.pairwise_map.mpr (h.clients.imp fun {e f} hlt heq => ?_)
  obtain ⟨ht, hk⟩ := Prod.mk.inj heq
  have := hlt ht
  omega

omit [DecidableEq T] in
/-- An operation of the log that has returned replied as it did in the run. -/
theorem Linearized.replied (h : Linearized sys apply a₀ es c G log) (hes : Issued sys es c)
    {e : Entry T Op R} (he : e ∈ log) (hdone : e.index < c.finished e.thread) :
    Event.respond e.thread e.index e.reply ∈ es := by
  obtain ⟨r, hr⟩ := hes.finished e.thread e.index hdone
  obtain ⟨f, hf, ht, hk, hreply⟩ := h.complete _ _ r hr
  have heq : e = f := List.inj_on_of_nodup_map h.nodup he hf (by rw [ht, hk])
  rw [heq, hreply, ← heq]
  exact hr

end Concurrent
