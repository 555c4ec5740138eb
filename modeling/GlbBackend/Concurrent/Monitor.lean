import GlbBackend.Concurrent.Atomicity

/-!
# Objects behind a lock

Each operation of a `Monitor` is one section, which does to the state what `apply` says.  Where its accesses are
protected, every run of single accesses has a `Linearization`: an order of the operations, each with the reply it got,
that is legal and keeps every thread's order and real time (`Monitor.linearizes`).
-/

namespace Concurrent

open Proc

variable {T Op L S σ R A : Type}

/-- An order of the operations of a run that explains it: one after the other, they reply as they did in the run, and
end in the last state. -/
structure Linearization (sys : System T Op L S σ R) (apply : Op → A → R × A) (a₀ : A) (es : List (Event T Op S σ R))
    (order : List (Entry T Op R)) (a : A) : Prop where
  legal : Legal apply a₀ order a
  nodup : (order.map fun e => (e.thread, e.index)).Nodup
  total : ∀ t k, (∃ e ∈ order, e.thread = t ∧ e.index = k) ↔ k < (sys.program t).length
  ops : ∀ e ∈ order, (sys.program e.thread)[e.index]? = some e.op
  replied : ∀ e ∈ order, Event.respond e.thread e.index e.reply ∈ es
  clients : order.Pairwise fun e f => e.thread = f.thread → e.index < f.index
  realTime : order.Pairwise fun e f => ¬ Precedes es (f.thread, f.index) (e.thread, e.index)

/-- Each operation is one section, which does what `apply` says to what the state stands for. -/
structure Monitor (sys : System T Op L S σ R) (apply : Op → A → R × A) (I : σ → Prop) (stands : σ → A) : Prop where
  active : ∀ op, (sys.code op).active = true
  replies : ∀ op s, I s → rest (sys.code op) s = ret (apply op (stands s)).1
  post : ∀ op s, I s → stands (visit (sys.code op) s).post = (apply op (stands s)).2
  inv : ∀ op s, I s → I (visit (sys.code op) s).post

namespace Monitor

variable {sys : System T Op L S σ R} {apply : Op → A → R × A} {I : σ → Prop} {stands : σ → A}

/-- An operation has taken effect when its section is behind it. -/
structure Related (sys : System T Op L S σ R) (I : σ → Prop) (stands : σ → A) (c : Config T L S σ R)
    (G : Ghost T A R) : Prop where
  inv : I c.shared
  state : G.state = stands c.shared
  idle : ∀ t, c.running t = none → G.taken t = none
  running : ∀ t p, c.running t = some p →
    (G.taken t = none ∧ ∃ op, (sys.program t)[c.finished t]? = some op ∧ p = sys.code op) ∨
      ∃ r, G.taken t = some r ∧ p = ret r

theorem related_start {s₀ : σ} (h₀ : I s₀) : Related sys I stands (Config.start s₀) (Ghost.start (stands s₀)) :=
  ⟨h₀, rfl, fun _ _ => rfl, fun _ _ h => absurd h (by simp [Config.start])⟩

variable [DecidableEq T]

/-- **A monitor simulates its specification.** -/
theorem simulation (m : Monitor sys apply I stands) : Simulation sys apply (Related sys I stands) where
  invoke {c G t op} h hidle hop := by
    refine ⟨[], G, Takes.nil G, h.inv, h.state, fun u hu => ?_, fun u p hu => ?_⟩
    · rw [Config.invoked_running] at hu
      split_ifs at hu
      exact h.idle u hu
    · rw [Config.invoked_running] at hu
      split_ifs at hu with hut
      · cases hu
        rw [hut]
        exact Or.inl ⟨h.idle t hidle, op, hop, rfl⟩
      · exact h.running u p hu
  advance {c G t p} h hrun hact := by
    rcases h.running t p hrun with ⟨hfresh, op, hop, rfl⟩ | ⟨r, -, rfl⟩
    · have hsome : ((c.advanced t (sys.code op)).running t).isSome = true := by
        rw [Config.advanced_running, if_pos rfl]
        rfl
      refine ⟨[t], G.take apply t op, Takes.cons hsome hop hfresh (Takes.nil _), m.inv op _ h.inv, ?_,
        fun u hu => ?_, fun u q hu => ?_⟩
      · rw [Ghost.take_state, h.state]
        exact (m.post op _ h.inv).symm
      · rw [Config.advanced_running] at hu
        split_ifs at hu with hut
        rw [G.take_taken_of_ne apply hut op]
        exact h.idle u hu
      · rw [Config.advanced_running] at hu
        split_ifs at hu with hut
        · cases hu
          rw [hut, G.take_taken_self, h.state]
          exact Or.inr ⟨_, rfl, m.replies op _ h.inv⟩
        · rw [G.take_taken_of_ne apply hut op]
          exact h.running u q hu
    · cases hact
  respond {c G t r} h hrun := by
    have htaken : G.taken t = some r := by
      rcases h.running t _ hrun with ⟨-, op, -, hcode⟩ | ⟨r', htaken, hret⟩
      · have hact := m.active op
        rw [← hcode] at hact
        cases hact
      · cases hret
        exact htaken
    refine ⟨htaken, h.inv, h.state, fun u hu => ?_, fun u p hu => ?_⟩
    · by_cases hut : u = t
      · rw [hut]
        exact G.forget_taken_self t
      · rw [Config.responded_running, if_neg hut] at hu
        rw [G.forget_taken_of_ne hut]
        exact h.idle u hu
    · rw [Config.responded_running] at hu
      split_ifs at hu with hut
      rw [G.forget_taken_of_ne hut, Config.responded_finished, if_neg hut]
      exact h.running u p hu

variable [DecidableEq L] [DecidableEq S] {P : Protection L S σ} {s₀ : σ} {es : List (Event T Op S σ R)}
  {f : Fine T L S σ R}

/-- A run that may go on: the operations that have taken effect stand in a legal order, those that have returned among
them, and lead to the state there is once what the threads owe has been done. -/
theorem explains (m : Monitor sys apply I stands) (hcode : ∀ op, P.Reduces (sys.code op)) (h₀ : I s₀)
    (hrun : FineRun sys (Fine.start s₀) es f) :
    ∃ owed, P.Owes f owed f.shared ∧ ∃ order : List (Entry T Op R),
      Legal apply (stands s₀) order (stands (Protection.settle owed f.shared)) ∧
      (∀ e ∈ order, (sys.program e.thread)[e.index]? = some e.op) ∧
      ∀ t k r, Event.respond t k r ∈ es → ∃ e ∈ order, e.thread = t ∧ e.index = k ∧ e.reply = r := by
  obtain ⟨-, es', c, owed, hsections, rfl, hsim⟩ :=
    hrun.sections P (fun _ _ => trivial) fun _ op _ => hcode op fun _ => True
  obtain ⟨G, order, hrelated, hlin, -⟩ := m.simulation.linearized (related_start h₀) hsections
  have hlegal := hlin.legal
  rw [hrelated.state, hsim.shared] at hlegal
  exact ⟨owed, hsim.owes, order, hlegal, hlin.ops, fun t k r hr => hlin.complete t k r (List.mem_of_mem_filter hr)⟩

/-- **A monitor is linearizable,** whatever the interleaving of its single accesses. -/
theorem linearizes (m : Monitor sys apply I stands) (hcode : ∀ op, P.Reduces (sys.code op)) (h₀ : I s₀)
    (hrun : FineRun sys (Fine.start s₀) es f)
    (hdone : ∀ t, f.running t = none ∧ f.finished t = (sys.program t).length) :
    ∃ order, Linearization sys apply (stands s₀) es order (stands f.shared) := by
  obtain ⟨-, es', c, owed, hsections, rfl, hsim⟩ :=
    hrun.sections P (fun _ _ => trivial) fun _ op _ => hcode op fun _ => True
  have hdone' : ∀ t, c.running t = none ∧ c.finished t = (sys.program t).length := fun t =>
    ⟨(hsim.idle t (hdone t).1).1, by rw [hsim.finished]; exact (hdone t).2⟩
  obtain ⟨G, order, hrelated, hlin, hissued⟩ := m.simulation.linearized (related_start h₀) hsections
  have hlegal := hlin.legal
  rw [hrelated.state, hsim.settled fun t => (hdone t).1] at hlegal
  refine ⟨order, hlegal, hlin.nodup, hlin.total hissued hdone', hlin.ops, fun e he => ?_, hlin.clients,
    hlin.realTime.imp fun hnot hprec => hnot (precedes_filter.mp hprec)⟩
  refine List.mem_filter.mpr ⟨hlin.replied hissued he ?_, rfl⟩
  rw [(hdone' e.thread).2]
  exact (List.getElem?_eq_some_iff.mp (hlin.ops e he)).1

end Monitor

end Concurrent
