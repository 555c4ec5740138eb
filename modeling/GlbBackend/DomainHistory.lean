import GlbBackend.DomainCommands

/-!
# What a sequence of domain commands amounts to

A run of the clients is equivalent to a sequence of whole commands (`domain_commands_linearizable`).  This
module says what such a sequence does: `Serial` runs the handlers one at a time, `legal_serial` gets it
from a legal order of directory operations, and `legal_domain` follows one name through a stretch of
commands that does not remove it — the first `ADD_DOMAIN` of a known algorithm passes if the name was free,
no other does, and the records only grow, by those of every `SNAPSHOT` that found the domain.
-/

namespace GlbBackend

open Text Concurrent Concurrent.Proc Globals

variable {T : Type}

/-- A command in an order, with the lines it was answered with. -/
abbrev Answered (T : Type) : Type := Entry T Str (List Str)

/-- `Serial ord g order g'`: run one at a time from `g`, the handlers answer each command of the order as
recorded, and leave `g'`. -/
inductive Serial (ord : MapOrder) : Globals → List (Answered T) → Globals → Prop
  | nil (g : Globals) : Serial ord g [] g
  | cons {g g₁ g₂ : Globals} {e : Answered T} {order : List (Answered T)}
      (hrun : (dispatch ord e.op).run g = some (e.reply, g₁)) (hrest : Serial ord g₁ order g₂) :
      Serial ord g (e :: order) g₂

theorem Serial.split {ord : MapOrder} {g g' : Globals} {before after : List (Answered T)}
    (h : Serial ord g (before ++ after) g') : ∃ g₁, Serial ord g before g₁ ∧ Serial ord g₁ after g' := by
  induction before generalizing g with
  | nil => exact ⟨g, Serial.nil g, h⟩
  | cons e before ih =>
      cases h with
      | cons hrun hrest =>
          obtain ⟨g₁, h1, h2⟩ := ih hrest
          exact ⟨g₁, Serial.cons hrun h1, h2⟩

/-- **A legal order of directory operations is a serial run of the handlers.** -/
theorem legal_serial (ord : MapOrder) {order : List (Answered T)} {g : Globals} (hg : g.WellFormed)
    {d : Directory} (h : Legal applyLine g.directory order d)
    (hcmds : ∀ e ∈ order, (domainCommand? e.op).isSome = true) :
    ∃ g', Serial ord g order g' ∧ g'.WellFormed ∧ g'.directory = d := by
  induction order generalizing g with
  | nil =>
      cases h with
      | nil => exact ⟨g, Serial.nil g, hg, rfl⟩
  | cons e order ih =>
      cases h with
      | cons hreply hrest =>
          obtain ⟨cmd, hcmd⟩ := Option.isSome_iff_exists.mp (hcmds e List.mem_cons_self)
          obtain ⟨g₁, hrun, hg₁, hdir⟩ := dispatch_command ord hg hcmd
          rw [applyLine_of hcmd] at hreply hrest
          rw [← hdir] at hrest
          have hreply : cmd.answer (cmd.apply g.directory).1 = e.reply := hreply
          rw [hreply] at hrun
          obtain ⟨g', hserial, hg', hd⟩ := ih hg₁ hrest fun f hf => hcmds f (List.mem_cons_of_mem e hf)
          exact ⟨g', Serial.cons hrun hserial, hg', hd⟩

/-- **A serial run of the handlers is a legal order of directory operations.** -/
theorem Serial.legal {ord : MapOrder} {order : List (Answered T)} {g g' : Globals} (hg : g.WellFormed)
    (h : Serial ord g order g') (hcmds : ∀ e ∈ order, (domainCommand? e.op).isSome = true) :
    Legal applyLine g.directory order g'.directory ∧ g'.WellFormed := by
  induction h with
  | nil g => exact ⟨Legal.nil _, hg⟩
  | @cons g g₁ g₂ e order hrun _ ih =>
      obtain ⟨cmd, hcmd⟩ := Option.isSome_iff_exists.mp (hcmds e List.mem_cons_self)
      obtain ⟨g', hrun', hg', hdir⟩ := dispatch_command ord hg hcmd
      obtain ⟨hreply, rfl⟩ := Prod.mk.inj (Option.some.inj (hrun.symm.trans hrun'))
      obtain ⟨hlegal, hg₂⟩ := ih hg' fun f hf => hcmds f (List.mem_cons_of_mem e hf)
      refine ⟨Legal.cons ?_ ?_, hg₂⟩
      · rw [applyLine_of hcmd, hreply]
      · rw [applyLine_of hcmd]
        show Legal applyLine (cmd.apply g.directory).2 order g₂.directory
        rw [← hdir]
        exact hlegal

/-! ### One name in a stretch of commands -/

section Name

variable (f : Str)

/-- Does the command take the domain away?  A `DEL_DOMAIN` that fails does not. -/
def Removes (e : Answered T) : Prop :=
  (domainCommand? e.op = some (.del f) ∧ e.reply = (DomainCommand.del f).answer true) ∨
    domainCommand? e.op = some .clear

/-- Is the command an `ADD_DOMAIN` of the name with a known algorithm? -/
def adds (e : Answered T) : Bool :=
  match domainCommand? e.op with
  | some (.add fqdn algoName) => decide (fqdn = f ∧ ¬ strToGlbType algoName < 0)
  | _ => false

/-- Is the command an `ADD_DOMAIN` of the name that passed? -/
def addedBy (e : Answered T) : Bool :=
  match domainCommand? e.op with
  | some (.add fqdn _) => decide (fqdn = f ∧ e.reply = [(DomainCommand.addPassed f).toJson])
  | _ => false

/-- The records of a `SNAPSHOT` of the name that was not told that there is no such domain. -/
def storedBy (e : Answered T) : List IPRecord :=
  match domainCommand? e.op with
  | some (.snapshot fqdn entries) =>
      if fqdn = f ∧ e.reply ≠ (DomainCommand.snapshot fqdn entries).answer false then
        DomainCommand.records entries
      else []
  | _ => []

/-- The records of the domain, none if there is no such domain. -/
def recordsAt (d : Directory) : List IPRecord := ((d f).map Domain.records).getD []

variable {f} {d : Directory} {e : Answered T}

theorem recordsAt_of_none (h : d f = none) : recordsAt f d = [] := by
  rw [recordsAt, h]
  rfl

theorem recordsAt_of_some {x : Domain} (h : d f = some x) : recordsAt f d = x.records := by
  rw [recordsAt, h]
  rfl

/-- What one command that does not remove the name does to it: an `ADD_DOMAIN` passes if the name is free,
and the records of a `SNAPSHOT` go behind those that are there. -/
theorem applyLine_name (hsome : (domainCommand? e.op).isSome = true)
    (hreply : (applyLine e.op d).1 = e.reply) (hnot : ¬ Removes f e) :
    addedBy f e = ((d f).isNone && adds f e) ∧
      ((applyLine e.op d).2 f).isSome = ((d f).isSome || adds f e) ∧
      recordsAt f (applyLine e.op d).2 = recordsAt f d ++ storedBy f e := by
  obtain ⟨cmd, hcmd⟩ := Option.isSome_iff_exists.mp hsome
  rw [applyLine_of hcmd] at hreply ⊢
  have hreply : cmd.answer (cmd.apply d).1 = e.reply := hreply
  rw [addedBy, adds, storedBy, hcmd]
  show _ = _ ∧ ((cmd.apply d).2 f).isSome = _ ∧ recordsAt f (cmd.apply d).2 = _
  cases cmd.effect f d with
  | @created algoName hknown hfree happly =>
      rw [happly, DomainCommand.answer_add_true f hknown] at hreply
      rw [happly]
      refine ⟨by simp [hfree, hreply, hknown], by simp [hknown], ?_⟩
      rw [recordsAt_of_none hfree, recordsAt_of_some (Function.update_self _ _ _)]
      rfl
  | @refused algoName hrefused happly =>
      have hfailed := DomainCommand.answer_add_false f algoName
      rw [happly] at hreply
      rw [hreply] at hfailed
      rw [happly]
      refine ⟨?_, ?_, (List.append_nil _).symm⟩
      · rcases hrefused with ht | hd
        · simp [hfailed, ht]
        · simp [hfailed, Option.isNone_eq_false_iff.mpr hd]
      · rcases hrefused with ht | hd
        · simp [ht]
        · simp [hd]
  | removed hfound happly =>
      rw [happly] at hreply
      exact absurd (Or.inl ⟨hcmd, hreply.symm⟩) hnot
  | notFound hfree happly =>
      rw [happly]
      exact ⟨by simp, by simp [hfree], (List.append_nil _).symm⟩
  | @filled entries x hfound happly =>
      have hanswer := DomainCommand.answer_snapshot_ne f entries
      rw [happly] at hreply
      rw [hreply] at hanswer
      rw [happly]
      refine ⟨by simp, by simp [hfound], ?_⟩
      rw [recordsAt_of_some hfound, recordsAt_of_some (Function.update_self _ _ _)]
      simp [hanswer]
  | notFilled hfree happly =>
      rw [happly] at hreply ⊢
      refine ⟨by simp, by simp [hfree], ?_⟩
      rw [← hreply]
      simp
  | cleared => exact absurd (Or.inr hcmd) hnot
  | other hclear hf happly =>
      -- a command about another name adds and stores nothing here
      rw [recordsAt, recordsAt, happly]
      cases cmd <;> simp_all [DomainCommand.subject]

/-- **A stretch of commands that does not remove the name.**  If the name is free at its start and the
stretch has an `ADD_DOMAIN` of it with a known algorithm, exactly one of these passes, and otherwise none;
and the records at its end are those at its start, then those of every `SNAPSHOT` that found the domain. -/
theorem legal_domain {mid : List (Answered T)} {d' : Directory} (h : Legal applyLine d mid d')
    (hsome : ∀ e ∈ mid, (domainCommand? e.op).isSome = true) (hnot : ∀ e ∈ mid, ¬ Removes f e) :
    (mid.filter (addedBy f)).length = (if (d f).isNone && mid.any (adds f) then 1 else 0) ∧
      recordsAt f d' = recordsAt f d ++ mid.flatMap (storedBy f) := by
  induction h with
  | nil d => exact ⟨by simp, (List.append_nil _).symm⟩
  | @cons d d' e mid hreply _ ih =>
      obtain ⟨hadded, hmapped, hrecords⟩ :=
        applyLine_name (hsome e List.mem_cons_self) hreply (hnot e List.mem_cons_self)
      obtain ⟨hcount, hrest⟩ := ih (fun e' he' => hsome e' (List.mem_cons_of_mem e he'))
        fun e' he' => hnot e' (List.mem_cons_of_mem e he')
      refine ⟨?_, ?_⟩
      · have hnone : ((applyLine e.op d).2 f).isNone = ((d f).isNone && !adds f e) := by
          rw [← Option.not_isSome, hmapped, Bool.not_or, Option.not_isSome]
        rw [hnone] at hcount
        rw [List.filter_cons, List.any_cons, hadded]
        generalize (d f).isNone = free at hcount ⊢
        generalize adds f e = adding at hcount ⊢
        generalize mid.any (adds f) = later at hcount ⊢
        cases free <;> cases adding <;> simpa using hcount
      · rw [hrest, hrecords, List.flatMap_cons, List.append_assoc]

end Name

/-! ### Linearizability -/

section Runs

variable [DecidableEq T] {ord : MapOrder} {program : T → List Str} {g₀ : Globals}
  {es : List (Event T Str Scope Globals (List Str))} {c : Config T LockId Scope Globals (List Str)}

omit [DecidableEq T] in
/-- The stretches of a serial run of domain commands. -/
theorem Serial.stretch {order before mid after : List (Answered T)} {g' : Globals} (hg₀ : g₀.WellFormed)
    (h : Serial ord g₀ order g') (hsome : ∀ e ∈ order, (domainCommand? e.op).isSome = true)
    (horder : order = before ++ mid ++ after) :
    ∃ g₁ g₂, Serial ord g₀ before g₁ ∧ Serial ord g₁ mid g₂ ∧ Serial ord g₂ after g' ∧
      ∀ f, (∀ e ∈ mid, ¬ Removes f e) →
        (mid.filter (addedBy f)).length = (if (g₁.find f).isNone && mid.any (adds f) then 1 else 0) ∧
          recordsAt f g₂.directory = recordsAt f g₁.directory ++ mid.flatMap (storedBy f) := by
  rw [horder] at h hsome
  obtain ⟨g₂, h12, h3⟩ := h.split
  obtain ⟨g₁, h1, h2⟩ := h12.split
  have hg₁ := (h1.legal hg₀ fun e he =>
    hsome e (List.mem_append_left _ (List.mem_append_left _ he))).2
  have hmid : ∀ e ∈ mid, (domainCommand? e.op).isSome = true := fun e he =>
    hsome e (List.mem_append_left _ (List.mem_append_right _ he))
  refine ⟨g₁, g₂, h1, h2, h3, fun f hnot => ?_⟩
  have hname := legal_domain (h2.legal hg₁ hmid).1 hmid hnot
  have hfree : (g₁.directory f).isNone = (g₁.find f).isNone := by
    rw [← Option.not_isSome, ← Option.not_isSome, hg₁.directory_isSome]
  rw [hfree] at hname
  exact hname

/-- **Linearizability of the domain commands.**  Whatever domain commands any number of clients issue, and
however their sections interleave: once all have returned there is an order of the commands, each with the
reply it got, that keeps every client's order and real time, such that the handlers, run one at a time in
that order, give these replies and end in the same map.  In any stretch of it that does not remove a name,
exactly one `ADD_DOMAIN` of a known algorithm passes if the name is free, none if it is not, and the records
of every `SNAPSHOT` that found the domain are kept. -/
theorem domain_commands_linearizable (ord : MapOrder)
    (hprogram : ∀ t, ∀ line ∈ program t, (domainCommand? line).isSome = true) (hg₀ : g₀.WellFormed)
    (hrun : Run (clients ord program) (Config.start g₀) es c)
    (hdone : ∀ t, c.running t = none ∧ c.finished t = (program t).length) :
    ∃ (order : List (Answered T)) (g' : Globals),
      (order.map fun e => (e.thread, e.index)).Nodup ∧
      (∀ t k, (∃ e ∈ order, e.thread = t ∧ e.index = k) ↔ k < (program t).length) ∧
      (∀ e ∈ order, (program e.thread)[e.index]? = some e.op ∧
        Event.respond e.thread e.index e.reply ∈ es) ∧
      (order.Pairwise fun e f => e.thread = f.thread → e.index < f.index) ∧
      (order.Pairwise fun e f => ¬ Precedes es (f.thread, f.index) (e.thread, e.index)) ∧
      Serial ord g₀ order g' ∧
      (∀ f, (g'.find f).isSome = (c.shared.find f).isSome ∧ g'.directory f = c.shared.directory f) ∧
      ∀ before mid after, order = before ++ mid ++ after →
        ∃ g₁ g₂, Serial ord g₀ before g₁ ∧ Serial ord g₁ mid g₂ ∧ Serial ord g₂ after g' ∧
          ∀ f, (∀ e ∈ mid, ¬ Removes f e) →
            (mid.filter (addedBy f)).length
                = (if (g₁.find f).isNone && mid.any (adds f) then 1 else 0) ∧
              recordsAt f g₂.directory = recordsAt f g₁.directory ++ mid.flatMap (storedBy f) := by
  obtain ⟨G, order, hrelated, hlin, hes⟩ :=
    (domain_simulation ord hprogram).linearized (related_start hg₀) hrun
  have hops : ∀ e ∈ order, (program e.thread)[e.index]? = some e.op := hlin.ops
  have hsome : ∀ e ∈ order, (domainCommand? e.op).isSome = true := fun e he =>
    hprogram e.thread e.op (List.mem_of_getElem? (hops e he))
  obtain ⟨g', hserial, hg', hdir⟩ := legal_serial ord hg₀ hlin.legal hsome
  rw [hrelated.state] at hdir
  refine ⟨order, g', hlin.nodup, hlin.total hes hdone, fun e he => ⟨hops e he, ?_⟩, hlin.clients,
    hlin.realTime, hserial, fun f => ⟨?_, congrFun hdir f⟩, fun before mid after horder => ?_⟩
  · apply hlin.replied hes he
    rw [(hdone e.thread).2]
    exact (List.getElem?_eq_some_iff.mp (hops e he)).1
  · rw [← hg'.directory_isSome, ← hrelated.sound.inv.directory_isSome, hdir]
  · exact hserial.stretch hg₀ hsome horder

end Runs

/-! #### A snapshot overtaken by a removal -/

/-- One client adds a domain and fills it; the other removes it. -/
def overtaken : Bool → List Str
  | false => ["ADD_DOMAIN a NONE".toList, "SNAPSHOT a 4-60-1.1.1.1-x".toList]
  | true => ["DEL_DOMAIN a".toList]

/-- The removal falls between the two sections of the `SNAPSHOT`, which still replies `PASSED`. -/
def overtakenRun : List (Event Bool Str Scope Globals (List Str)) ×
    Config Bool LockId Scope Globals (List Str) :=
  schedule (clients MapOrder.entries overtaken)
    [false, false, false, false, false, true, true, true, false, false] [] (Config.start (init 0))

theorem domain_commands_linearizable_overtaken :
    ∃ (order : List (Answered Bool)) (g' : Globals), Serial MapOrder.entries (init 0) order g' ∧
      (∀ e ∈ order, Event.respond e.thread e.index e.reply ∈ overtakenRun.1) ∧ g'.find "a".toList = none := by
  have hprogram : ∀ t, ∀ line ∈ overtaken t, (domainCommand? line).isSome = true := by
    intro t
    cases t <;> decide
  obtain ⟨order, g', -, -, hreplies, -, -, hserial, hsame, -⟩ :=
    domain_commands_linearizable MapOrder.entries hprogram (wellFormed_init 0)
      (schedule_run _ Run.nil : Run _ _ overtakenRun.1 overtakenRun.2)
      (by intro t; cases t <;> exact ⟨rfl, rfl⟩)
  refine ⟨order, g', hserial, fun e he => (hreplies e he).2, ?_⟩
  have hgone : (g'.find "a".toList).isSome = false := by
    rw [(hsame "a".toList).1]
    rfl
  exact Option.not_isSome_iff_eq_none.mp (by rw [hgone]; decide)

end GlbBackend
