import GlbBackend.Concurrent.Linearizability
import GlbBackend.Directory

/-!
# Concurrent domain commands

Any number of clients issue domain commands, and their sections interleave.  `ADD_DOMAIN`, `DEL_DOMAIN` and
`CLR_DOMAINS` take effect in their one map section.  A `SNAPSHOT` has two: it finds the container under the
map lock and fills it later, under the container's own lock.  When it takes effect depends on what happens
in between (`Stage`):

* it finds no container — in its first section;
* the container is still mapped when it is filled — in its second section;
* the container is removed before it is filled — just before the removal, which makes it take effect.  From
  then on the pointer is an orphan, and filling it changes no domain.

`Related` ties a configuration to the directory and to the commands that have taken effect, and is kept by
every step (`domain_simulation`).
-/

namespace GlbBackend

open Text Concurrent Concurrent.Proc Globals

/-- The clients, each with its command lines; a command runs the handler that the dispatch chooses. -/
def clients {T : Type} (ord : MapOrder) (program : T → List Str) :
    System T Str LockId Scope Globals (List Str) :=
  ⟨dispatch ord, program⟩

/-- What a line does to the directory, and the lines it is answered with. -/
def applyLine (line : Str) (d : Directory) : List Str × Directory :=
  match domainCommand? line with
  | some cmd => (cmd.answer (cmd.apply d).1, (cmd.apply d).2)
  | none => ([], d)

theorem applyLine_of {line : Str} {cmd : DomainCommand} (h : domainCommand? line = some cmd)
    (d : Directory) : applyLine line d = (cmd.answer (cmd.apply d).1, (cmd.apply d).2) := by
  rw [applyLine, h]

/-! ### The stages of a command -/

/-- Where the code of a running command stands, and whether the command has taken effect. -/
inductive Stage (g : Globals) : DomainCommand → Code (List Str) → Option (List Str) → Prop
  /-- It has not begun. -/
  | pending {cmd : DomainCommand} (hact : cmd.code.active = true) : Stage g cmd cmd.code none
  /-- A `CLR_DOMAINS` that has written to the console. -/
  | clearing : Stage g .clear DomainCommand.clearing none
  /-- A `SNAPSHOT` that is about to fill the container of its domain. -/
  | filling {fqdn : Str} {entries : List Str} {glb : Ptr} (hfind : g.find fqdn = some glb) :
      Stage g (.snapshot fqdn entries) (DomainCommand.filling fqdn entries (some glb)) none
  /-- A `SNAPSHOT` that is about to fill a container that has been removed. -/
  | orphaned {fqdn : Str} {entries : List Str} {glb : Ptr} (hlive : Live glb g)
      (hfree : ∀ f, g.find f ≠ some glb) :
      Stage g (.snapshot fqdn entries) (DomainCommand.filling fqdn entries (some glb))
        (some ((DomainCommand.snapshot fqdn entries).answer true))
  /-- It has run all its sections. -/
  | done {cmd : DomainCommand} (out : List Str) : Stage g cmd (ret out) (some out)

/-- A change of the state that keeps the mapping of every container that a running command may hold. -/
theorem Stage.mono {g g' : Globals} {cmd : DomainCommand} {p : Code (List Str)} {r : Option (List Str)}
    (h : Stage g cmd p r) (hG : g.Grows g') (hkeep : ∀ f glb, g.find f = some glb → g'.find f = some glb)
    (hnew : ∀ f glb, g'.find f = some glb → Live glb g → g.find f = some glb) : Stage g' cmd p r := by
  cases h with
  | pending hact => exact Stage.pending hact
  | clearing => exact Stage.clearing
  | filling hfind => exact Stage.filling (hkeep _ _ hfind)
  | orphaned hlive hfree =>
      exact Stage.orphaned (hlive.grows hG) fun f hf => hfree f (hnew f _ hf hlive)
  | done out => exact Stage.done out

/-- What ties a configuration to the ghost beside it. -/
structure Related {T : Type} (program : T → List Str) (c : Config T LockId Scope Globals (List Str))
    (G : Ghost T Directory (List Str)) : Prop where
  sound : c.Sound WellFormed Grows
  state : G.state = c.shared.directory
  stages : ∀ t p, c.running t = some p → ∃ line cmd, (program t)[c.finished t]? = some line ∧
    domainCommand? line = some cmd ∧ Stage c.shared cmd p (G.taken t)
  idle : ∀ t, c.running t = none → G.taken t = none
  finite : ∃ ts : List T, ∀ t, (c.running t).isSome = true → t ∈ ts

section Steps

variable {T : Type} [DecidableEq T] {ord : MapOrder} {program : T → List Str}
  {c : Config T LockId Scope Globals (List Str)} {G G' : Ghost T Directory (List Str)} {t : T}
  {p : Code (List Str)} {line : Str} {cmd : DomainCommand}

omit [DecidableEq T] in
theorem clients_safe (op : Str) (h : Globals) :
    SafeCode (fun _ _ => True) h ((clients ord program).code op) :=
  Safe.mono (dispatch_safe h ord op) fun _ _ _ => trivial

/-- A step of the clients leaves a sound configuration, and changes the state as the guarantee allows. -/
theorem clients_sound (ord : MapOrder) (program : T → List Str)
    {c c' : Config T LockId Scope Globals (List Str)} {e : Event T Str Scope Globals (List Str)}
    (hc : c.Sound WellFormed Grows) (hstep : Step (clients ord program) c e c') :
    c'.Sound WellFormed Grows ∧ c.shared.Grows c'.shared :=
  Step.sound clients_safe Grows.refl Grows.trans hstep hc

/-- A command without a section does nothing, and has replied already. -/
theorem DomainCommand.code_inactive (h : cmd.code.active = false) (d : Directory) :
    cmd.code = ret (cmd.answer (cmd.apply d).1) ∧ (cmd.apply d).2 = d := by
  cases cmd with
  | add fqdn algoName =>
      rw [code] at h ⊢
      rw [apply]
      split_ifs at h ⊢
      · exact ⟨rfl, rfl⟩
      · exact absurd h.symm Bool.false_ne_true
  | del fqdn => exact absurd h.symm Bool.false_ne_true
  | snapshot fqdn entries => exact absurd h.symm Bool.false_ne_true
  | clear => exact absurd h.symm Bool.false_ne_true
  | unknown line => exact ⟨rfl, rfl⟩

/-- Running one section of thread `t`, when the new state and ghost fit. -/
theorem Related.advanced (h : Related program c G) (hrun : c.running t = some p)
    (hsound : (c.advanced t p).Sound WellFormed Grows)
    (hop : (program t)[c.finished t]? = some line) (hcmd : domainCommand? line = some cmd)
    (hstate : G'.state = (visit p c.shared).post.directory)
    (hown : Stage (visit p c.shared).post cmd (rest p c.shared) (G'.taken t))
    (hothers : ∀ u line' cmd' q, u ≠ t → (program u)[c.finished u]? = some line' →
      domainCommand? line' = some cmd' → c.running u = some q → Stage c.shared cmd' q (G.taken u) →
      Stage (visit p c.shared).post cmd' q (G'.taken u))
    (hidle : ∀ u, u ≠ t → c.running u = none → G'.taken u = none) :
    Related program (c.advanced t p) G' := by
  refine ⟨hsound, hstate, fun u q hu => ?_, fun u hu => ?_, ?_⟩
  · rw [Config.advanced_running] at hu
    by_cases hut : u = t
    · rw [if_pos hut] at hu
      rw [← Option.some.inj hu, hut]
      exact ⟨line, cmd, hop, hcmd, hown⟩
    · rw [if_neg hut] at hu
      obtain ⟨line', cmd', hop', hcmd', hstage⟩ := h.stages u q hu
      exact ⟨line', cmd', hop', hcmd', hothers u line' cmd' q hut hop' hcmd' hu hstage⟩
  · rw [Config.advanced_running] at hu
    by_cases hut : u = t
    · rw [if_pos hut] at hu
      exact absurd hu (by simp)
    · rw [if_neg hut] at hu
      exact hidle u hut hu
  · obtain ⟨ts, hts⟩ := h.finite
    refine ⟨ts, fun u hu => hts u ?_⟩
    rw [Config.advanced_running] at hu
    by_cases hut : u = t
    · rw [hut, hrun]
      rfl
    · rwa [if_neg hut] at hu

theorem Related.sound_advanced (h : Related program c G) (ord : MapOrder) (hrun : c.running t = some p)
    (hact : p.active = true) :
    (c.advanced t p).Sound WellFormed Grows ∧ c.shared.Grows (visit p c.shared).post :=
  clients_sound ord program h.sound (Step.section hrun hact)

/-- A section in which nothing takes effect. -/
theorem Related.advanced_silent (h : Related program c G) (ord : MapOrder) (hrun : c.running t = some p)
    (hact : p.active = true) (hop : (program t)[c.finished t]? = some line)
    (hcmd : domainCommand? line = some cmd)
    (hdir : (visit p c.shared).post.directory = c.shared.directory)
    (hfind : ∀ f, (visit p c.shared).post.find f = c.shared.find f)
    (hown : Stage (visit p c.shared).post cmd (rest p c.shared) (G.taken t)) :
    ∃ ts G', Takes (clients ord program) applyLine (c.advanced t p) G ts G' ∧
      Related program (c.advanced t p) G' := by
  obtain ⟨hsound, hgrows⟩ := h.sound_advanced ord hrun hact
  refine ⟨[], G, Takes.nil G, h.advanced hrun hsound hop hcmd (h.state.trans hdir.symm) hown ?_ ?_⟩
  · intro u line' cmd' q _ _ _ _ hstage
    exact hstage.mono hgrows (fun f glb hf => (hfind f).trans hf) fun f glb hf _ => (hfind f).symm.trans hf
  · exact fun u _ hu => h.idle u hu

/-- A section in which the command of its thread takes effect, and no container loses its name. -/
theorem Related.advanced_taking (h : Related program c G) (ord : MapOrder) (hrun : c.running t = some p)
    (hact : p.active = true) (hop : (program t)[c.finished t]? = some line)
    (hcmd : domainCommand? line = some cmd) (hfresh : G.taken t = none)
    (hrest : rest p c.shared = ret (cmd.answer (cmd.apply c.shared.directory).1))
    (hdir : (visit p c.shared).post.directory = (cmd.apply c.shared.directory).2)
    (hkeep : ∀ f glb, c.shared.find f = some glb → (visit p c.shared).post.find f = some glb)
    (hnew : ∀ f glb, (visit p c.shared).post.find f = some glb → Live glb c.shared →
      c.shared.find f = some glb) :
    ∃ ts G', Takes (clients ord program) applyLine (c.advanced t p) G ts G' ∧
      Related program (c.advanced t p) G' := by
  obtain ⟨hsound, hgrows⟩ := h.sound_advanced ord hrun hact
  have happly : applyLine line G.state
      = (cmd.answer (cmd.apply c.shared.directory).1, (cmd.apply c.shared.directory).2) := by
    rw [applyLine_of hcmd, h.state]
  refine ⟨[t], G.take applyLine t line, ?_, h.advanced hrun hsound hop hcmd ?_ ?_ ?_ ?_⟩
  · refine Takes.cons ?_ hop hfresh (Takes.nil _)
    rw [Config.advanced_running, if_pos rfl]
    rfl
  · rw [Ghost.take_state, happly, hdir]
  · rw [Ghost.take_taken_self, happly, hrest]
    exact Stage.done _
  · intro u line' cmd' q hut _ _ _ hstage
    rw [Ghost.take_taken_of_ne applyLine G hut line]
    exact hstage.mono hgrows hkeep hnew
  · intro u hut hu
    rw [Ghost.take_taken_of_ne applyLine G hut line]
    exact h.idle u hu

/-! ### The sections of each command -/

section Rest

variable (g : Globals)

theorem rest_add (fqdn : Str) {algoName : Str} (ht : ¬ strToGlbType algoName < 0) :
    rest (DomainCommand.add fqdn algoName).code g
        = ret ((DomainCommand.add fqdn algoName).answer !(g.find fqdn).isSome) ∧
      (visit (DomainCommand.add fqdn algoName).code g).post
        = if (g.find fqdn).isSome then g
          else g.insert fqdn (GlbContainer.new fqdn (strToGlbType algoName)) := by
  have hrun := run_addSection g fqdn (strToGlbType algoName)
  rw [addSection, run_lockGuard] at hrun
  rw [DomainCommand.code, if_neg ht]
  refine rest_guarded (Balanced.scope (Balanced.atom fun g => ?_) _) hrun _
  show Balanced (ite _ _ _)
  split_ifs
  · exact Balanced.ret true
  · exact Balanced.atom fun _ => Balanced.ret false

theorem rest_del (fqdn : Str) :
    rest (DomainCommand.del fqdn).code g = ret ((DomainCommand.del fqdn).answer (g.find fqdn).isSome) ∧
      (visit (DomainCommand.del fqdn).code g).post
        = if (g.find fqdn).isSome then g.erase fqdn else g := by
  have hrun := run_delSection g fqdn
  rw [delSection, run_lockGuard] at hrun
  refine rest_guarded (Balanced.scope (Balanced.atom fun g => ?_) _) hrun _
  show Balanced (ite _ _ _)
  split_ifs
  · exact Balanced.ret false
  · exact Balanced.atom fun _ => Balanced.ret true

theorem rest_snapshot (fqdn : Str) (entries : List Str) :
    rest (DomainCommand.snapshot fqdn entries).code g = DomainCommand.filling fqdn entries (g.find fqdn) ∧
      (visit (DomainCommand.snapshot fqdn entries).code g).post = g := by
  have hrun := run_findSection g fqdn
  rw [findSection, run_sharedLock] at hrun
  exact rest_guarded (Balanced.scope (Balanced.atom fun g : Globals => Balanced.ret (g.find fqdn)) _) hrun _

theorem rest_clearing :
    rest DomainCommand.clearing g = ret (DomainCommand.clear.answer true) ∧
      (visit DomainCommand.clearing g).post = g.clear := by
  have hrun := run_clearSection g
  rw [clearSection, run_lockGuard] at hrun
  exact rest_guarded (Balanced.scope (Balanced.atom fun _ => Balanced.ret ()) _) hrun _

theorem rest_filling (fqdn : Str) (entries : List Str) (glb : Ptr) :
    rest (DomainCommand.filling fqdn entries (some glb)) g
        = ret ((DomainCommand.snapshot fqdn entries).answer true) ∧
      (visit (DomainCommand.filling fqdn entries (some glb)) g).post
        = g.update glb (·.setIPs (DomainCommand.records entries)) := by
  have hrun := run_setIPs g glb (DomainCommand.records entries)
  rw [setIPs, run_lockGuard] at hrun
  exact rest_guarded (Balanced.scope (balanced_pushIPs _ _) _) hrun _

theorem rest_clear :
    rest DomainCommand.clear.code g = DomainCommand.clearing ∧
      (visit DomainCommand.clear.code g).post = g :=
  rest_guarded (Balanced.ret ()) (run_ret () g) _

end Rest

/-- A name that is taken is not added, one that is not is. -/
theorem Related.add (h : Related program c G) (ord : MapOrder) {fqdn algoName : Str}
    (hrun : c.running t = some (DomainCommand.add fqdn algoName).code)
    (hact : (DomainCommand.add fqdn algoName).code.active = true)
    (hop : (program t)[c.finished t]? = some line)
    (hcmd : domainCommand? line = some (.add fqdn algoName)) (hfresh : G.taken t = none) :
    ∃ ts G', Takes (clients ord program) applyLine (c.advanced t (DomainCommand.add fqdn algoName).code) G
        ts G' ∧ Related program (c.advanced t (DomainCommand.add fqdn algoName).code) G' := by
  have hg := h.sound.inv
  have ht : ¬ strToGlbType algoName < 0 := by
    intro ht
    rw [DomainCommand.code, if_pos ht] at hact
    exact absurd hact Bool.false_ne_true
  have happly : (DomainCommand.add fqdn algoName).apply c.shared.directory
      = c.shared.directory.add fqdn (strToGlbType algoName) := by
    rw [DomainCommand.apply, if_neg ht]
  obtain ⟨hrest, hpost⟩ := rest_add c.shared fqdn ht
  rw [Directory.add, hg.directory_isSome] at happly
  cases hf : c.shared.find fqdn with
  | some glb =>
      rw [hf] at hrest hpost happly
      have hpost : (visit (DomainCommand.add fqdn algoName).code c.shared).post = c.shared := hpost
      apply h.advanced_taking ord hrun hact hop hcmd hfresh
      · rw [happly]
        exact hrest
      · rw [happly, hpost]
        rfl
      · intro f glb hfind
        rw [hpost]
        exact hfind
      · intro f glb hfind _
        rwa [hpost] at hfind
  | none =>
      rw [hf] at hrest hpost happly
      have hpost : (visit (DomainCommand.add fqdn algoName).code c.shared).post
          = c.shared.insert fqdn (GlbContainer.new fqdn (strToGlbType algoName)) := hpost
      apply h.advanced_taking ord hrun hact hop hcmd hfresh
      · rw [happly]
        exact hrest
      · rw [happly, hpost]
        exact hg.directory_insert fqdn _
      · intro f glb hfind
        have hne : f ≠ fqdn := by
          intro heq
          rw [heq, hf] at hfind
          exact absurd hfind (by simp)
        rw [hpost, find_insert, if_neg hne]
        exact hfind
      · intro f glb hfind hlive
        rw [hpost, find_insert] at hfind
        split_ifs at hfind
        · -- the new container is none that was there
          obtain ⟨c', hc'⟩ := hlive
          rw [← Option.some.inj hfind] at hc'
          exact absurd (container_lt hc') (lt_irrefl _)
        · exact hfind

/-- The first section of a `SNAPSHOT`: without a domain it fails at once. -/
theorem Related.find (h : Related program c G) (ord : MapOrder) {fqdn : Str} {entries : List Str}
    (hrun : c.running t = some (DomainCommand.snapshot fqdn entries).code)
    (hop : (program t)[c.finished t]? = some line)
    (hcmd : domainCommand? line = some (.snapshot fqdn entries)) (hfresh : G.taken t = none) :
    ∃ ts G', Takes (clients ord program) applyLine
        (c.advanced t (DomainCommand.snapshot fqdn entries).code) G ts G' ∧
      Related program (c.advanced t (DomainCommand.snapshot fqdn entries).code) G' := by
  obtain ⟨hrest, hpost⟩ := rest_snapshot c.shared fqdn entries
  cases hf : c.shared.find fqdn with
  | none =>
      rw [hf] at hrest
      have happly : (DomainCommand.snapshot fqdn entries).apply c.shared.directory
          = (false, c.shared.directory) := Directory.fill_of_none _ (directory_of_find_none hf)
      apply h.advanced_taking ord hrun rfl hop hcmd hfresh
      · rw [happly]
        exact hrest
      · rw [happly, hpost]
      · intro f glb hfind
        rw [hpost]
        exact hfind
      · intro f glb hfind _
        rwa [hpost] at hfind
  | some glb =>
      rw [hf] at hrest
      apply h.advanced_silent ord hrun rfl hop hcmd
      · rw [hpost]
      · intro f
        rw [hpost]
      · rw [hrest, hpost, hfresh]
        exact Stage.filling hf

/-- The second section of a `SNAPSHOT` whose domain is still there. -/
theorem Related.fill (h : Related program c G) (ord : MapOrder) {fqdn : Str} {entries : List Str} {glb : Ptr}
    (hrun : c.running t = some (DomainCommand.filling fqdn entries (some glb)))
    (hop : (program t)[c.finished t]? = some line)
    (hcmd : domainCommand? line = some (.snapshot fqdn entries)) (hfresh : G.taken t = none)
    (hf : c.shared.find fqdn = some glb) :
    ∃ ts G', Takes (clients ord program) applyLine
        (c.advanced t (DomainCommand.filling fqdn entries (some glb))) G ts G' ∧
      Related program (c.advanced t (DomainCommand.filling fqdn entries (some glb))) G' := by
  have hg := h.sound.inv
  obtain ⟨k, hk, -⟩ := hg.mapped fqdn glb hf
  obtain ⟨hrest, hpost⟩ := rest_filling c.shared fqdn entries glb
  have happly : (DomainCommand.snapshot fqdn entries).apply c.shared.directory
      = (true, Function.update c.shared.directory fqdn (some { k.domain with
          records := k.domain.records ++ DomainCommand.records entries })) :=
    Directory.fill_of_some _ (directory_of_find hf hk)
  apply h.advanced_taking ord hrun rfl hop hcmd hfresh
  · rw [happly]
    exact hrest
  · rw [happly, hpost]
    exact hg.directory_setIPs hf hk _
  · intro f glb' hfind
    rw [hpost]
    exact hfind
  · intro f glb' hfind _
    rwa [hpost] at hfind

/-- The second section of a `SNAPSHOT` whose domain is gone: it has taken effect. -/
theorem Related.fill_orphan (h : Related program c G) (ord : MapOrder) {fqdn : Str} {entries : List Str}
    {glb : Ptr} (hrun : c.running t = some (DomainCommand.filling fqdn entries (some glb)))
    (hop : (program t)[c.finished t]? = some line)
    (hcmd : domainCommand? line = some (.snapshot fqdn entries))
    (htaken : G.taken t = some ((DomainCommand.snapshot fqdn entries).answer true))
    (hfree : ∀ f, c.shared.find f ≠ some glb) :
    ∃ ts G', Takes (clients ord program) applyLine
        (c.advanced t (DomainCommand.filling fqdn entries (some glb))) G ts G' ∧
      Related program (c.advanced t (DomainCommand.filling fqdn entries (some glb))) G' := by
  obtain ⟨hrest, hpost⟩ := rest_filling c.shared fqdn entries glb
  apply h.advanced_silent ord hrun rfl hop hcmd
  · rw [hpost]
    exact directory_setIPs_orphan hfree _
  · intro f
    rw [hpost]
    rfl
  · rw [hrest, htaken]
    exact Stage.done _

/-! ### A removal lets snapshots take effect -/

/-- Thread `u` is about to fill the container of a domain that `R` covers. -/
structure Doomed (program : T → List Str) (c : Config T LockId Scope Globals (List Str)) (R : Str → Prop)
    (u : T) (fqdn : Str) (entries : List Str) : Prop where
  command : ∃ line, (program u)[c.finished u]? = some line ∧
    domainCommand? line = some (.snapshot fqdn entries)
  running : ∃ glb, c.running u = some (DomainCommand.filling fqdn entries (some glb)) ∧
    c.shared.find fqdn = some glb
  removed : R fqdn

/-- The doomed snapshots of the threads in the list have taken effect, and nothing else has. -/
structure Helped (program : T → List Str) (c : Config T LockId Scope Globals (List Str)) (R : Str → Prop)
    (us : List T) (G G' : Ghost T Directory (List Str)) : Prop where
  kept : ∀ f, ¬ R f → G'.state f = G.state f
  mapped : ∀ f, (G'.state f).isSome = (G.state f).isSome
  before : ∀ u, G.taken u ≠ none → G'.taken u = G.taken u
  taken : ∀ u, G'.taken u = G.taken u ∨ ∃ fqdn entries, Doomed program c R u fqdn entries ∧
    G'.taken u = some ((DomainCommand.snapshot fqdn entries).answer true)
  doomed : ∀ u ∈ us, ∀ fqdn entries, Doomed program c R u fqdn entries → G'.taken u ≠ none

/-- A snapshot of a domain that is there takes effect. -/
theorem helped_take {R : Str → Prop} {u : T} {fqdn : Str} {entries : List Str}
    (hd : Doomed program c R u fqdn entries)
    (hcmd : domainCommand? line = some (.snapshot fqdn entries)) (hfresh : G.taken u = none)
    (hmapped : (G.state fqdn).isSome = true) :
    Helped program c R [u] G (G.take applyLine u line) := by
  obtain ⟨x, hx⟩ := Option.isSome_iff_exists.mp hmapped
  have happly : applyLine line G.state = ((DomainCommand.snapshot fqdn entries).answer true,
      Function.update G.state fqdn (some { x with
        records := x.records ++ DomainCommand.records entries })) := by
    rw [applyLine_of hcmd, DomainCommand.apply, Directory.fill_of_some _ hx]
  have hstate : (G.take applyLine u line).state = Function.update G.state fqdn (some { x with
      records := x.records ++ DomainCommand.records entries }) := by
    rw [Ghost.take_state, happly]
  have htaken : (G.take applyLine u line).taken u
      = some ((DomainCommand.snapshot fqdn entries).answer true) := by
    rw [Ghost.take_taken_self, happly]
  refine ⟨fun f hf => ?_, fun f => ?_, fun v hv => ?_, fun v => ?_, fun v hv _ _ _ => ?_⟩
  · have hne : f ≠ fqdn := fun heq => hf (heq ▸ hd.removed)
    rw [hstate]
    exact Function.update_of_ne hne _ _
  · rw [hstate, Function.update_apply]
    split_ifs with hff
    · rw [hff, hx]
      rfl
    · rfl
  · have hne : v ≠ u := fun heq => hv (heq ▸ hfresh)
    exact Ghost.take_taken_of_ne applyLine G hne line
  · by_cases hvu : v = u
    · rw [hvu]
      exact Or.inr ⟨fqdn, entries, hd, htaken⟩
    · exact Or.inl (Ghost.take_taken_of_ne applyLine G hvu line)
  · rw [List.mem_singleton.mp hv, htaken]
    exact Option.some_ne_none _

omit [DecidableEq T] in
theorem Helped.cons {R : Str → Prop} {u : T} {us : List T} {G'' : Ghost T Directory (List Str)}
    (h₁ : Helped program c R [u] G G') (h₂ : Helped program c R us G' G'') :
    Helped program c R (u :: us) G G'' := by
  refine ⟨fun f hf => (h₂.kept f hf).trans (h₁.kept f hf), fun f => (h₂.mapped f).trans (h₁.mapped f),
    fun v hv => ?_, fun v => ?_, fun v hv fqdn entries hd => ?_⟩
  · have heq := h₁.before v hv
    rw [← heq] at hv
    exact (h₂.before v hv).trans heq
  · rcases h₂.taken v with heq | hd
    · rcases h₁.taken v with heq' | ⟨fqdn, entries, hd, htaken⟩
      · exact Or.inl (heq.trans heq')
      · exact Or.inr ⟨fqdn, entries, hd, heq.trans htaken⟩
    · exact Or.inr hd
  · rcases List.mem_cons.mp hv with rfl | hv
    · have hne := h₁.doomed v (List.mem_singleton_self v) fqdn entries hd
      rw [h₂.before v hne]
      exact hne
    · exact h₂.doomed v hv fqdn entries hd

/-- The doomed snapshots of any list of threads can take effect. -/
theorem exists_helped (ord : MapOrder) {R : Str → Prop} (c' : Config T LockId Scope Globals (List Str))
    (hrunning : ∀ u fqdn entries, Doomed program c R u fqdn entries → (c'.running u).isSome = true)
    (hfinished : c'.finished = c.finished) (us : List T)
    (hmapped : ∀ u fqdn entries, Doomed program c R u fqdn entries → (G.state fqdn).isSome = true) :
    ∃ ts G', Takes (clients ord program) applyLine c' G ts G' ∧ Helped program c R us G G' := by
  induction us generalizing G with
  | nil =>
      exact ⟨[], G, Takes.nil G, fun _ _ => rfl, fun _ => rfl, fun _ _ => rfl, fun _ => Or.inl rfl,
        fun _ hu => absurd hu List.not_mem_nil⟩
  | cons u us ih =>
      by_cases hd : (∃ fqdn entries, Doomed program c R u fqdn entries) ∧ G.taken u = none
      · obtain ⟨⟨fqdn, entries, hd⟩, hfresh⟩ := hd
        obtain ⟨line, hop, hcmd⟩ := hd.command
        have hhelp := helped_take hd hcmd hfresh (hmapped u fqdn entries hd)
        obtain ⟨ts, G', htakes, hrest⟩ := ih (G := G.take applyLine u line) fun v f e hv => by
          rw [hhelp.mapped f]
          exact hmapped v f e hv
        refine ⟨u :: ts, G', Takes.cons (hrunning u fqdn entries hd) ?_ hfresh htakes, hhelp.cons hrest⟩
        rw [hfinished]
        exact hop
      · -- this thread is not doomed, or its snapshot has taken effect before
        obtain ⟨ts, G', htakes, hrest⟩ := ih hmapped
        refine ⟨ts, G', htakes, hrest.kept, hrest.mapped, hrest.before, hrest.taken, fun v hv f e hv' => ?_⟩
        rcases List.mem_cons.mp hv with rfl | hv
        · have hne : G.taken v ≠ none := fun hnone => hd ⟨⟨f, e, hv'⟩, hnone⟩
          rw [hrest.before v hne]
          exact hne
        · exact hrest.doomed v hv f e hv'

omit [DecidableEq T] in
/-- A `SNAPSHOT` about to fill has left its code's first section behind. -/
theorem DomainCommand.code_ne_filling (fqdn : Str) (entries : List Str) (glb : Ptr) :
    (snapshot fqdn entries).code ≠ filling fqdn entries (some glb) := by
  intro h
  injection h with hlock
  exact absurd hlock (by simp)

omit [DecidableEq T] in
/-- What a thread runs decides which command dooms it. -/
theorem Doomed.eq {R : Str → Prop} {u : T} {fqdn : Str} {entries : List Str}
    (hd : Doomed program c R u fqdn entries) (hop : (program u)[c.finished u]? = some line)
    (hcmd : domainCommand? line = some cmd) : cmd = .snapshot fqdn entries := by
  obtain ⟨line', hop', hcmd'⟩ := hd.command
  rw [Option.some.inj (hop.symm.trans hop'), hcmd'] at hcmd
  exact (Option.some.inj hcmd).symm

omit [DecidableEq T] in
/-- The stages of the other threads after a removal. -/
theorem Helped.stage {R : Str → Prop} {us : List T} (hhelp : Helped program c R us G G') {g : Globals}
    (hg : c.shared.WellFormed) (hgrows : c.shared.Grows g) (hgone : ∀ f, R f → g.find f = none)
    (hkeep : ∀ f, ¬ R f → g.find f = c.shared.find f) {u : T} (hu : u ∈ us)
    (hop : (program u)[c.finished u]? = some line) (hcmd : domainCommand? line = some cmd)
    (hrun : c.running u = some p) (hstage : Stage c.shared cmd p (G.taken u)) :
    Stage g cmd p (G'.taken u) := by
  -- a thread that is not doomed is left alone
  have hsame : (∀ fqdn entries, ¬ Doomed program c R u fqdn entries) → G'.taken u = G.taken u := by
    intro hnot
    rcases hhelp.taken u with heq | ⟨fqdn, entries, hd, -⟩
    · exact heq
    · exact absurd hd (hnot fqdn entries)
  have hbefore := hhelp.before u
  generalize hr : G.taken u = r at hstage
  cases hstage with
  | pending hact =>
      rw [hsame, hr]
      · exact Stage.pending hact
      · intro fqdn entries hd
        obtain ⟨glb, hrun', -⟩ := hd.running
        rw [hd.eq hop hcmd] at hrun
        exact DomainCommand.code_ne_filling fqdn entries glb (Option.some.inj (hrun.symm.trans hrun'))
  | clearing =>
      rw [hsame, hr]
      · exact Stage.clearing
      · intro fqdn entries hd
        exact absurd (hd.eq hop hcmd) (by simp)
  | @filling fqdn entries glb hfind =>
      by_cases hR : R fqdn
      · -- its domain goes: it has taken effect
        have hd : Doomed program c R u fqdn entries := ⟨⟨line, hop, hcmd⟩, ⟨glb, hrun, hfind⟩, hR⟩
        have htaken : G'.taken u = some ((DomainCommand.snapshot fqdn entries).answer true) := by
          rcases hhelp.taken u with heq | ⟨fqdn', entries', hd', htaken⟩
          · rw [hr] at heq
            exact absurd heq (hhelp.doomed u hu fqdn entries hd)
          · rw [htaken, hd'.eq hop hcmd]
        rw [htaken]
        refine Stage.orphaned ((live_of_find hg hfind).grows hgrows) fun f hf => ?_
        by_cases hRf : R f
        · rw [hgone f hRf] at hf
          exact absurd hf (by simp)
        · rw [hkeep f hRf] at hf
          exact hRf (hg.find_injective hfind hf ▸ hR)
      · rw [hsame, hr]
        · exact Stage.filling ((hkeep fqdn hR).trans hfind)
        · intro fqdn' entries' hd
          have heq := hd.eq hop hcmd
          injection heq with hff
          exact hR (hff ▸ hd.removed)
  | @orphaned fqdn entries glb hlive hfree =>
      rw [hbefore (by rw [hr]; exact Option.some_ne_none _), hr]
      refine Stage.orphaned (hlive.grows hgrows) fun f hf => ?_
      by_cases hRf : R f
      · rw [hgone f hRf] at hf
        exact absurd hf (by simp)
      · rw [hkeep f hRf] at hf
        exact hfree f hf
  | done out =>
      rw [hbefore (by rw [hr]; exact Option.some_ne_none _), hr]
      exact Stage.done out

/-- A section that removes the domains `R` covers: the snapshots that are about to fill them take effect
first, then the removal does. -/
theorem Related.removing (h : Related program c G) (ord : MapOrder) {R : Str → Prop}
    (hrun : c.running t = some p) (hact : p.active = true) (hop : (program t)[c.finished t]? = some line)
    (hcmd : domainCommand? line = some cmd) (hnot : ∀ fqdn entries, cmd ≠ .snapshot fqdn entries)
    (hfresh : G.taken t = none) (hrest : rest p c.shared = ret (cmd.answer true))
    (hgone : ∀ f, R f → (visit p c.shared).post.find f = none)
    (hkeep : ∀ f, ¬ R f → (visit p c.shared).post.find f = c.shared.find f)
    (happly : ∀ d : Directory, (∀ f, (d f).isSome = (c.shared.directory f).isSome) →
      (∀ f, ¬ R f → d f = c.shared.directory f) → cmd.apply d = (true, (visit p c.shared).post.directory)) :
    ∃ ts G', Takes (clients ord program) applyLine (c.advanced t p) G ts G' ∧
      Related program (c.advanced t p) G' := by
  obtain ⟨hsound, hgrows⟩ := h.sound_advanced ord hrun hact
  obtain ⟨us, hus⟩ := h.finite
  have hne : ∀ u fqdn entries, Doomed program c R u fqdn entries → u ≠ t := by
    intro u fqdn entries hd heq
    rw [heq] at hd
    exact hnot fqdn entries (hd.eq hop hcmd)
  have hmapped : ∀ u fqdn entries, Doomed program c R u fqdn entries → (G.state fqdn).isSome = true := by
    intro u fqdn entries hd
    obtain ⟨glb, -, hfind⟩ := hd.running
    rw [h.state, h.sound.inv.directory_isSome, hfind]
    rfl
  have hrunning : ∀ u fqdn entries, Doomed program c R u fqdn entries →
      ((c.advanced t p).running u).isSome = true := by
    intro u fqdn entries hd
    obtain ⟨glb, hrunning, -⟩ := hd.running
    rw [Config.advanced_running, if_neg (hne u fqdn entries hd), hrunning]
    rfl
  obtain ⟨ts, G₁, htakes, hhelp⟩ := exists_helped ord (c.advanced t p) hrunning rfl us hmapped
  have hfresh₁ : G₁.taken t = none := by
    rcases hhelp.taken t with heq | ⟨fqdn, entries, hd, -⟩
    · rw [heq, hfresh]
    · exact absurd rfl (hne t fqdn entries hd)
  have hline : applyLine line G₁.state = (cmd.answer true, (visit p c.shared).post.directory) := by
    rw [applyLine_of hcmd, happly G₁.state (fun f => by rw [hhelp.mapped f, h.state])
      fun f hf => by rw [hhelp.kept f hf, h.state]]
  have htake : Takes (clients ord program) applyLine (c.advanced t p) G₁ [t] (G₁.take applyLine t line) := by
    refine Takes.cons ?_ hop hfresh₁ (Takes.nil _)
    rw [Config.advanced_running, if_pos rfl]
    rfl
  refine ⟨ts ++ [t], G₁.take applyLine t line, htakes.append htake,
    h.advanced hrun hsound hop hcmd ?_ ?_ ?_ ?_⟩
  · rw [Ghost.take_state, hline]
  · rw [Ghost.take_taken_self, hline, hrest]
    exact Stage.done _
  · intro u line' cmd' q hut hop' hcmd' hrunning hstage
    rw [Ghost.take_taken_of_ne applyLine G₁ hut line]
    have hu : u ∈ us := hus u (by rw [hrunning]; rfl)
    exact hhelp.stage h.sound.inv hgrows hgone hkeep hu hop' hcmd' hrunning hstage
  · intro u hut hidle
    rw [Ghost.take_taken_of_ne applyLine G₁ hut line]
    rcases hhelp.taken u with heq | ⟨fqdn, entries, hd, -⟩
    · rw [heq, h.idle u hidle]
    · obtain ⟨glb, hrunning, -⟩ := hd.running
      rw [hidle] at hrunning
      exact absurd hrunning (by simp)

theorem Related.del (h : Related program c G) (ord : MapOrder) {fqdn : Str}
    (hrun : c.running t = some (DomainCommand.del fqdn).code)
    (hop : (program t)[c.finished t]? = some line) (hcmd : domainCommand? line = some (.del fqdn))
    (hfresh : G.taken t = none) :
    ∃ ts G', Takes (clients ord program) applyLine (c.advanced t (DomainCommand.del fqdn).code) G ts G' ∧
      Related program (c.advanced t (DomainCommand.del fqdn).code) G' := by
  have hg := h.sound.inv
  obtain ⟨hrest, hpost⟩ := rest_del c.shared fqdn
  cases hf : c.shared.find fqdn with
  | none =>
      rw [hf] at hrest hpost
      have hpost : (visit (DomainCommand.del fqdn).code c.shared).post = c.shared := hpost
      have happly : (DomainCommand.del fqdn).apply c.shared.directory = (false, c.shared.directory) := by
        rw [DomainCommand.apply, Directory.remove, hg.directory_isSome, hf]
        rfl
      apply h.advanced_taking ord hrun rfl hop hcmd hfresh
      · rw [happly]
        exact hrest
      · rw [happly, hpost]
      · intro f glb hfind
        rw [hpost]
        exact hfind
      · intro f glb hfind _
        rwa [hpost] at hfind
  | some glb =>
      rw [hf] at hrest hpost
      have hpost : (visit (DomainCommand.del fqdn).code c.shared).post = c.shared.erase fqdn := hpost
      apply h.removing ord (R := fun f => f = fqdn) hrun rfl hop hcmd (by simp) hfresh hrest
      · intro f hR
        rw [hpost, find_erase, if_pos hR]
      · intro f hR
        rw [hpost, find_erase, if_neg hR]
      · intro d hsome hkept
        have hd : d = Function.update c.shared.directory fqdn (d fqdn) := by
          funext f
          rw [Function.update_apply]
          split_ifs with hff
          · rw [hff]
          · exact hkept f hff
        rw [DomainCommand.apply, Directory.remove, hsome, hg.directory_isSome, hf, hpost, directory_erase,
          hd, Function.update_idem]
        rfl

/-- The console output of `CLR_DOMAINS`. -/
theorem Related.print (h : Related program c G) (ord : MapOrder)
    (hrun : c.running t = some DomainCommand.clear.code)
    (hop : (program t)[c.finished t]? = some line) (hcmd : domainCommand? line = some .clear)
    (hfresh : G.taken t = none) :
    ∃ ts G', Takes (clients ord program) applyLine (c.advanced t DomainCommand.clear.code) G ts G' ∧
      Related program (c.advanced t DomainCommand.clear.code) G' := by
  obtain ⟨hrest, hpost⟩ := rest_clear c.shared
  apply h.advanced_silent ord hrun rfl hop hcmd
  · rw [hpost]
  · intro f
    rw [hpost]
  · rw [hrest, hpost, hfresh]
    exact Stage.clearing

theorem Related.clear (h : Related program c G) (ord : MapOrder)
    (hrun : c.running t = some DomainCommand.clearing)
    (hop : (program t)[c.finished t]? = some line) (hcmd : domainCommand? line = some .clear)
    (hfresh : G.taken t = none) :
    ∃ ts G', Takes (clients ord program) applyLine (c.advanced t DomainCommand.clearing) G ts G' ∧
      Related program (c.advanced t DomainCommand.clearing) G' := by
  obtain ⟨hrest, hpost⟩ := rest_clearing c.shared
  apply h.removing ord (R := fun _ => True) hrun rfl hop hcmd (by simp) hfresh hrest
  · intro f _
    rw [hpost]
    rfl
  · intro f hR
    exact absurd trivial hR
  · intro d _ _
    rw [hpost]
    rfl

/-! ### The simulation -/

/-- A command begins; one that has no section takes effect at once. -/
theorem Related.invoke (h : Related program c G) (ord : MapOrder) (hidle : c.running t = none)
    (hop : (program t)[c.finished t]? = some line) (hcmd : domainCommand? line = some cmd) :
    ∃ ts G', Takes (clients ord program) applyLine (c.invoked t (dispatch ord line)) G ts G' ∧
      Related program (c.invoked t (dispatch ord line)) G' := by
  have hfresh := h.idle t hidle
  have hsound : (c.invoked t (dispatch ord line)).Sound WellFormed Grows :=
    (clients_sound ord program h.sound (Step.invoke hidle hop)).1
  have hcode := dispatch_eq_code ord hcmd
  -- whatever takes effect, the other threads are where they were
  have hrelated : ∀ G' : Ghost T Directory (List Str), G'.state = c.shared.directory →
      Stage c.shared cmd cmd.code (G'.taken t) → (∀ u, u ≠ t → G'.taken u = G.taken u) →
      Related program (c.invoked t (dispatch ord line)) G' := by
    intro G' hstate hown hothers
    refine ⟨hsound, hstate, fun u q hu => ?_, fun u hu => ?_, ?_⟩
    · rw [Config.invoked_running] at hu
      by_cases hut : u = t
      · rw [if_pos hut, hcode] at hu
        rw [← Option.some.inj hu, hut]
        exact ⟨line, cmd, hop, hcmd, hown⟩
      · rw [if_neg hut] at hu
        rw [hothers u hut]
        exact h.stages u q hu
    · rw [Config.invoked_running] at hu
      by_cases hut : u = t
      · rw [if_pos hut] at hu
        exact absurd hu (by simp)
      · rw [if_neg hut] at hu
        rw [hothers u hut]
        exact h.idle u hu
    · obtain ⟨ts, hts⟩ := h.finite
      refine ⟨t :: ts, fun u hu => ?_⟩
      rw [Config.invoked_running] at hu
      by_cases hut : u = t
      · rw [hut]
        exact List.mem_cons_self
      · rw [if_neg hut] at hu
        exact List.mem_cons_of_mem t (hts u hu)
  cases hact : cmd.code.active with
  | true =>
      refine ⟨[], G, Takes.nil G, hrelated G h.state ?_ fun _ _ => rfl⟩
      rw [hfresh]
      exact Stage.pending hact
  | false =>
      obtain ⟨hret, hsame⟩ := DomainCommand.code_inactive hact G.state
      have happly := applyLine_of hcmd G.state
      refine ⟨[t], G.take applyLine t line, ?_, hrelated _ ?_ ?_ ?_⟩
      · refine Takes.cons ?_ hop hfresh (Takes.nil _)
        rw [Config.invoked_running, if_pos rfl]
        rfl
      · rw [Ghost.take_state, happly, hsame, h.state]
      · rw [Ghost.take_taken_self, happly, hret]
        exact Stage.done _
      · exact fun u hut => Ghost.take_taken_of_ne applyLine G hut line

/-- A section runs. -/
theorem Related.advance (h : Related program c G) (ord : MapOrder) (hrun : c.running t = some p)
    (hact : p.active = true) :
    ∃ ts G', Takes (clients ord program) applyLine (c.advanced t p) G ts G' ∧
      Related program (c.advanced t p) G' := by
  obtain ⟨line, cmd, hop, hcmd, hstage⟩ := h.stages t p hrun
  generalize hr : G.taken t = r at hstage
  cases hstage with
  | pending hpending =>
      cases cmd with
      | add fqdn algoName => exact h.add ord hrun hact hop hcmd hr
      | del fqdn => exact h.del ord hrun hop hcmd hr
      | snapshot fqdn entries => exact h.find ord hrun hop hcmd hr
      | clear => exact h.print ord hrun hop hcmd hr
      | unknown line' => exact absurd hact Bool.false_ne_true
  | clearing => exact h.clear ord hrun hop hcmd hr
  | filling hfind => exact h.fill ord hrun hop hcmd hr hfind
  | orphaned _ hfree => exact h.fill_orphan ord hrun hop hcmd hr hfree
  | done out => exact absurd hact Bool.false_ne_true

/-- A command returns what it replied when it took effect. -/
theorem Related.respond {out : List Str} (h : Related program c G) (ord : MapOrder)
    (hrun : c.running t = some (ret out)) :
    G.taken t = some out ∧ Related program (c.responded t) (G.forget t) := by
  obtain ⟨line, cmd, hop, hcmd, hstage⟩ := h.stages t _ hrun
  have htaken : G.taken t = some out := by
    generalize hr : G.taken t = r at hstage
    generalize hp : (ret out : Code (List Str)) = p at hstage
    cases hstage with
    | pending hact =>
        rw [← hp] at hact
        exact absurd hact Bool.false_ne_true
    | clearing => injection hp
    | filling hfind => injection hp
    | orphaned _ _ => injection hp
    | done out' =>
        injection hp with hp
        rw [hp]
  have hsound : (c.responded t).Sound WellFormed Grows :=
    (clients_sound ord program h.sound (Step.respond hrun)).1
  refine ⟨htaken, hsound, h.state, fun u q hu => ?_, fun u hu => ?_, ?_⟩
  · rw [Config.responded_running] at hu
    by_cases hut : u = t
    · rw [if_pos hut] at hu
      exact absurd hu (by simp)
    · rw [if_neg hut] at hu
      rw [Config.responded_finished, if_neg hut, Ghost.forget_taken_of_ne G hut]
      exact h.stages u q hu
  · by_cases hut : u = t
    · rw [hut]
      exact Ghost.forget_taken_self G t
    · rw [Config.responded_running, if_neg hut] at hu
      rw [Ghost.forget_taken_of_ne G hut]
      exact h.idle u hu
  · obtain ⟨ts, hts⟩ := h.finite
    refine ⟨ts, fun u hu => hts u ?_⟩
    rw [Config.responded_running] at hu
    by_cases hut : u = t
    · rw [if_pos hut] at hu
      exact absurd hu Bool.false_ne_true
    · rwa [if_neg hut] at hu

/-- **The simulation.**  Clients of domain commands follow the directory. -/
theorem domain_simulation (ord : MapOrder)
    (hprogram : ∀ t, ∀ line ∈ program t, (domainCommand? line).isSome = true) :
    Simulation (clients ord program) applyLine (Related program) where
  invoke {_ _ t line} h hidle hop := by
    obtain ⟨cmd, hcmd⟩ := Option.isSome_iff_exists.mp (hprogram t line (List.mem_of_getElem? hop))
    exact h.invoke ord hidle hop hcmd
  advance h hrun hact := h.advance ord hrun hact
  respond h hrun := h.respond ord hrun

omit [DecidableEq T] in
theorem related_start {g₀ : Globals} (hg₀ : g₀.WellFormed) :
    Related program (Config.start g₀) (Ghost.start g₀.directory) :=
  ⟨⟨hg₀, fun _ _ h => absurd h (by simp [Config.start])⟩, rfl, fun _ _ h => absurd h (by simp [Config.start]),
    fun _ _ => rfl, [], fun _ h => absurd h Bool.false_ne_true⟩

end Steps

end GlbBackend
