import GlbBackend.Zone
import GlbBackend.Concurrent.Footprint

/-!
# Commands about different domains are independent

The registry has a cell for each name, one for the SOA container and one for the NS list.  A command that
names its domains reads the cells of these names only, and writes these and perhaps the SOA container or the
NS list (`Command.local_effect`).  The library of footprints does the rest: such commands commute, and clients
that manage different domains do not notice each other (`commands_independent`).
-/

namespace GlbBackend

open Text Concurrent Concurrent.Proc Globals

/-! ### The registry, cell by cell -/

inductive Cell
  | domain (f : Str)
  | soa
  | ns

/-- What is in a cell. -/
def Cell.Val : Cell → Type
  | domain _ => Option GlbContainer
  | soa => SOAContainer
  | ns => List Str

def Registry.cell : (c : Cell) → Registry → c.Val
  | .domain f, r => r.domains f
  | .soa, r => r.soa
  | .ns, r => r.ns

/-- There is nothing else in a registry. -/
theorem Registry.ext_cell {r r' : Registry} (h : ∀ c, Registry.cell c r = Registry.cell c r') : r = r' := by
  have hdomains : r.domains = r'.domains := funext fun f => h (.domain f)
  have hsoa : r.soa = r'.soa := h .soa
  have hns : r.ns = r'.ns := h .ns
  cases r
  cases r'
  simp only at hdomains hsoa hns
  rw [hdomains, hsoa, hns]

/-! ### What a command touches -/

namespace DomainCommand

variable {cmd : DomainCommand}

theorem applyTo_of_ne (hclear : cmd ≠ clear) {f : Str} (hf : cmd.subject ≠ some f)
    (d : Str → Option GlbContainer) : cmd.applyTo d f = d f := by
  cases cmd with
  | add fqdn algoName =>
      have hne : f ≠ fqdn := fun h => hf (congrArg some h.symm)
      rw [applyTo]
      split_ifs
      · rfl
      · exact Function.update_of_ne hne _ _
  | del fqdn => exact Function.update_of_ne (fun h => hf (congrArg some h.symm)) _ _
  | snapshot fqdn entries => exact Function.update_of_ne (fun h => hf (congrArg some h.symm)) _ _
  | clear => exact absurd rfl hclear
  | unknown line => rfl

/-- What it leaves at the name it is about depends on what was there. -/
theorem applyTo_congr {d e : Str → Option GlbContainer} {f : Str} (hf : cmd.subject = some f)
    (h : d f = e f) : cmd.applyTo d f = cmd.applyTo e f := by
  cases cmd with
  | add fqdn algoName =>
      obtain rfl : fqdn = f := Option.some.inj hf
      rw [applyTo, applyTo, h]
      split_ifs
      · exact h
      · rw [Function.update_self, Function.update_self]
  | del fqdn =>
      obtain rfl : fqdn = f := Option.some.inj hf
      rw [applyTo, applyTo, Function.update_self, Function.update_self]
  | snapshot fqdn entries =>
      obtain rfl : fqdn = f := Option.some.inj hf
      rw [applyTo, applyTo, Function.update_self, Function.update_self, h]
  | clear => cases hf
  | unknown line => cases hf

/-- Whether it succeeds does too. -/
theorem apply_congr {d e : Directory} (h : ∀ f, cmd.subject = some f → d f = e f) :
    (cmd.apply d).1 = (cmd.apply e).1 := by
  cases cmd with
  | add fqdn algoName =>
      rw [apply, apply, Directory.add, Directory.add, h fqdn rfl]
      split_ifs <;> rfl
  | del fqdn =>
      rw [apply, apply, Directory.remove, Directory.remove, h fqdn rfl]
      split_ifs <;> rfl
  | snapshot fqdn entries =>
      rw [apply, apply, Directory.fill, Directory.fill, h fqdn rfl]
      cases e fqdn <;> rfl
  | clear => rfl
  | unknown line => rfl

end DomainCommand

/-- The replies to `COUNTS` and `CLR_COUNTS` depend on the counts of the names they cover. -/
theorem countReplies_congr {tally tally' : Str → Option ℤ} {names : List Str}
    (h : ∀ f ∈ names, tally f = tally' f) :
    countsReply tally names = countsReply tally' names ∧
      clearReply tally names = clearReply tally' names := by
  have hall : (names.all fun f => (tally f).isSome) = names.all fun f => (tally' f).isSome := by
    rw [Bool.eq_iff_iff, List.all_eq_true, List.all_eq_true]
    exact forall₂_congr fun f hf => by rw [h f hf]
  have hany : ∀ p : Option ℤ → Bool, (names.any fun f => p (tally f)) = names.any fun f => p (tally' f) := by
    intro p
    rw [Bool.eq_iff_iff, List.any_eq_true, List.any_eq_true]
    exact exists_congr fun f => and_congr_right fun hf => by rw [h f hf]
  have hmissing : (names.filter fun f => (tally f).isNone) = names.filter fun f => (tally' f).isNone :=
    List.filter_congr fun f hf => by rw [h f hf]
  have hcounts : (names.filterMap fun f => (tally f).map (FqdnCount.mk f))
      = names.filterMap fun f => (tally' f).map (FqdnCount.mk f) :=
    List.filterMap_congr fun f hf => by rw [h f hf]
  constructor
  · rw [countsReply, countsReply, hall, hany Option.isSome, hany Option.isNone, hmissing]
    exact congrArg (fun counts => { countsReply tally' names with counts := counts }) hcounts
  · rw [clearReply, clearReply, hall, hany Option.isNone, hmissing]

namespace Command

/-- The names that a command gives. -/
def named : Command → List Str
  | domain cmd => cmd.subject.toList
  | counts args => args
  | clear args => args
  | debug _ _ => []
  | soa _ _ => []
  | ns _ => []
  | unknown _ => []

/-- The command is about the names it gives: it is none of those that are about all. -/
def Selective : Command → Prop
  | domain cmd => cmd ≠ .clear
  | counts args => args ≠ []
  | clear args => args ≠ []
  | debug _ _ => False
  | soa _ _ => True
  | ns _ => True
  | unknown _ => True

/-- The cells of its names. -/
def reads (cmd : Command) : Set Cell := {c | ∃ f ∈ cmd.named, c = .domain f}

/-- The cells it may write. -/
def writes (cmd : Command) : Set Cell :=
  cmd.reads ∪ match cmd with
    | soa _ _ => {.soa}
    | ns _ => {.ns}
    | _ => ∅

/-- Its answer, where the order of the names does not matter, and what it does. -/
def effect (cmd : Command) (r : Registry) : List Str × Registry := (cmd.answer [] r, cmd.apply r)

theorem answer_selective {cmd : Command} (h : cmd.Selective) (names : List Str) (r : Registry) :
    cmd.answer names r = (cmd.effect r).1 := by
  cases cmd with
  | debug nLoops showFull => exact h.elim
  | counts args =>
      have hargs : args ≠ [] := h
      rw [effect, answer, answer, covered, covered, if_neg hargs, if_neg hargs]
  | clear args =>
      have hargs : args ≠ [] := h
      rw [effect, answer, answer, covered, covered, if_neg hargs, if_neg hargs]
  | domain cmd => rfl
  | soa base text => rfl
  | ns records => rfl
  | unknown line => rfl

theorem mem_named_of_subject {cmd : DomainCommand} {f : Str} (hf : cmd.subject = some f) :
    f ∈ (domain cmd).named := by
  rw [named, hf]
  exact List.mem_singleton_self f

theorem tally_congr {r r' : Registry} {args : List Str} (h : ∀ f ∈ args, r.domains f = r'.domains f) :
    ∀ f ∈ args, r.tally f = r'.tally f := fun f hf => by rw [Registry.tally, Registry.tally, h f hf]

/-- No other cell changes but the one that a `SET_SOA` or a `SET_NS` sets. -/
theorem apply_frame {cmd : Command} (h : cmd.Selective) (r : Registry) {c : Cell} (hc : c ∉ cmd.writes) :
    Registry.cell c (cmd.apply r) = Registry.cell c r := by
  have hname : ∀ f, c = .domain f → f ∉ cmd.named := fun f hf hmem => hc (Or.inl ⟨f, hmem, hf⟩)
  cases cmd with
  | domain cmd =>
      cases c with
      | domain f => exact DomainCommand.applyTo_of_ne h (fun hf => hname f rfl (mem_named_of_subject hf)) _
      | soa => rfl
      | ns => rfl
  | clear args =>
      cases c with
      | domain f => exact if_neg (not_or.mpr ⟨h, hname f rfl⟩)
      | soa => rfl
      | ns => rfl
  | soa base text =>
      cases c with
      | soa => exact absurd (Or.inr rfl) hc
      | domain f => rfl
      | ns => rfl
  | ns records =>
      cases c with
      | ns => exact absurd (Or.inr rfl) hc
      | domain f => rfl
      | soa => rfl
  | counts args => rfl
  | debug nLoops showFull => rfl
  | unknown line => rfl

section Congr

variable {cmd : Command} {r r' : Registry}

/-- The answer depends on the cells of the names. -/
theorem answer_congr (h : cmd.Selective) (hcell : ∀ f ∈ cmd.named, r.domains f = r'.domains f) :
    (cmd.effect r).1 = (cmd.effect r').1 := by
  cases cmd with
  | domain cmd =>
      show cmd.answer _ = cmd.answer _
      rw [DomainCommand.apply_congr fun f hf => ?_]
      rw [Registry.directory, Registry.directory, hcell f (mem_named_of_subject hf)]
  | counts args =>
      have hargs : ∀ f ∈ args, r.tally f = r'.tally f := tally_congr hcell
      rw [effect, effect, answer, answer, covered, if_neg (show args ≠ [] from h),
        (countReplies_congr hargs).1]
  | clear args =>
      have hargs : ∀ f ∈ args, r.tally f = r'.tally f := tally_congr hcell
      rw [effect, effect, answer, answer, covered, if_neg (show args ≠ [] from h),
        (countReplies_congr hargs).2]
  | debug nLoops showFull => exact h.elim
  | soa base text => rfl
  | ns records => rfl
  | unknown line => rfl

/-- So does what is left at these names. -/
theorem apply_congr (h : cmd.Selective) (hcell : ∀ f ∈ cmd.named, r.domains f = r'.domains f) {f : Str}
    (hf : f ∈ cmd.named) : (cmd.apply r).domains f = (cmd.apply r').domains f := by
  cases cmd with
  | domain cmd => exact DomainCommand.applyTo_congr (Option.mem_toList.mp hf) (hcell f hf)
  | counts args => exact hcell f hf
  | clear args =>
      show (if args = [] ∨ f ∈ args then (r.domains f).map GlbContainer.clrNLookups else r.domains f)
        = if args = [] ∨ f ∈ args then (r'.domains f).map GlbContainer.clrNLookups else r'.domains f
      rw [hcell f hf]
  | debug nLoops showFull => exact h.elim
  | soa base text => exact absurd hf List.not_mem_nil
  | ns records => exact absurd hf List.not_mem_nil
  | unknown line => exact absurd hf List.not_mem_nil

end Congr

theorem reads_subset (cmd : Command) : cmd.reads ⊆ cmd.writes := Set.subset_union_left

theorem domain_mem_writes {cmd : Command} {f : Str} : Cell.domain f ∈ cmd.writes ↔ f ∈ cmd.named := by
  constructor
  · rintro (⟨f', hf, heq⟩ | h)
    · injection heq with heq
      rw [heq]
      exact hf
    · cases cmd <;> simp at h
  · exact fun hf => Or.inl ⟨f, hf, rfl⟩

theorem soa_mem_writes {cmd : Command} : Cell.soa ∈ cmd.writes ↔ ∃ base text, cmd = soa base text := by
  constructor
  · rintro (⟨f, -, heq⟩ | h)
    · cases heq
    · cases cmd <;> simp at h ⊢
  · rintro ⟨base, text, rfl⟩
    exact Or.inr rfl

theorem ns_mem_writes {cmd : Command} : Cell.ns ∈ cmd.writes ↔ ∃ records, cmd = ns records := by
  constructor
  · rintro (⟨f, -, heq⟩ | h)
    · cases heq
    · cases cmd <;> simp at h ⊢
  · rintro ⟨records, rfl⟩
    exact Or.inr rfl

/-- **The footprint of a command.**  Its answer and what it leaves depend on the cells of its names, and no
other cell changes but the one that a `SET_SOA` or a `SET_NS` sets. -/
theorem local_effect {cmd : Command} (h : cmd.Selective) :
    Local Registry.cell cmd.reads cmd.writes cmd.effect where
  frame r c hc := apply_frame h r hc
  congr r r' hagree := by
    have hcell : ∀ f ∈ cmd.named, r.domains f = r'.domains f := fun f hf => hagree (.domain f) ⟨f, hf, rfl⟩
    refine ⟨answer_congr h hcell, fun c hc => ?_⟩
    cases c with
    | domain f => exact apply_congr h hcell (domain_mem_writes.mp hc)
    | soa =>
        obtain ⟨base, text, rfl⟩ := soa_mem_writes.mp hc
        rfl
    | ns =>
        obtain ⟨records, rfl⟩ := ns_mem_writes.mp hc
        rfl

end Command

/-! ### Lines -/

/-- A line with one of the commands that name their domains or are about none, well-formed or not. -/
def Managing (line : Str) : Prop :=
  ∃ name args, splitStr line " ".toList = name :: args ∧
    (name ∈ ["ADD_DOMAIN".toList, "DEL_DOMAIN".toList, "SNAPSHOT".toList, "SET_SOA".toList, "SET_NS".toList] ∨
      name ∈ ["COUNTS".toList, "CLR_COUNTS".toList] ∧ args ≠ [])

/-- The names that a line gives: none if it is malformed. -/
def named (line : Str) : List Str := (command line).named

theorem Managing.selective {line : Str} (h : Managing line) : (command line).Selective := by
  obtain ⟨name, args, htok, hname⟩ := h
  rw [command, domainCommand?, htok]
  simp only [List.mem_cons, List.not_mem_nil, or_false] at hname
  rcases hname with (rfl | rfl | rfl | rfl | rfl) | ⟨rfl | rfl, hargs⟩
  · rcases args with _ | ⟨f, _ | ⟨algoName, rest⟩⟩
    · exact fun h => by cases h
    · exact fun h => by cases h
    · exact fun h => by cases h
  · rcases args with _ | ⟨f, rest⟩
    · exact fun h => by cases h
    · exact fun h => by cases h
  · rcases args with _ | ⟨f, rest⟩
    · exact fun h => by cases h
    · exact fun h => by cases h
  · rcases args with _ | ⟨base, _ | ⟨s, rest⟩⟩ <;> exact trivial
  · rcases args with _ | ⟨n, rest⟩ <;> exact trivial
  · exact hargs
  · exact hargs

/-- Only a dispatched `SET_SOA` sets the SOA container. -/
theorem isSetSOA_of_command {line base text : Str} (h : command line = .soa base text) :
    isSetSOA line = true := by
  have hasks := asks_command line
  rw [h] at hasks
  cases hasks with
  | soa htok =>
      rw [isSetSOA, htok, cmdMatch]
      simp

/-- Only a dispatched `SET_NS` sets the NS list. -/
theorem isSetNS_of_command {line : Str} {records : List Str} (h : command line = .ns records) :
    isSetNS line = true := by
  have hasks := asks_command line
  rw [h] at hasks
  cases hasks with
  | ns htok =>
      rw [isSetNS, htok, cmdMatch]
      simp

/-- What two lines write is apart if they name different domains and do not set the same thing. -/
theorem disjoint_writes {line line' : Str} (hnames : ∀ f ∈ named line, f ∉ named line')
    (hsoa : ¬ (isSetSOA line = true ∧ isSetSOA line' = true))
    (hns : ¬ (isSetNS line = true ∧ isSetNS line' = true)) :
    Disjoint (command line).writes (command line').writes := by
  rw [Set.disjoint_left]
  intro c h h'
  cases c with
  | domain f => exact hnames f (Command.domain_mem_writes.mp h) (Command.domain_mem_writes.mp h')
  | soa =>
      obtain ⟨base, text, hcmd⟩ := Command.soa_mem_writes.mp h
      obtain ⟨base', text', hcmd'⟩ := Command.soa_mem_writes.mp h'
      exact hsoa ⟨isSetSOA_of_command hcmd, isSetSOA_of_command hcmd'⟩
  | ns =>
      obtain ⟨records, hcmd⟩ := Command.ns_mem_writes.mp h
      obtain ⟨records', hcmd'⟩ := Command.ns_mem_writes.mp h'
      exact hns ⟨isSetNS_of_command hcmd, isSetNS_of_command hcmd'⟩

/-! ### Commands one at a time -/

/-- The lines of some clients are dispatched one after the other, and each client gets what its lines push. -/
def dispatchAll {T : Type} (ord : MapOrder) : List (T × Str) → Code (List (T × List Str))
  | [] => ret []
  | (t, line) :: sched => do
      let out ← dispatch ord line
      let outs ← dispatchAll ord sched
      ret ((t, out) :: outs)

section Runs

variable (ord : MapOrder) {g : Globals}

theorem run_selective (hg : g.WellFormed) {line : Str} (hline : Managing line) :
    ∃ g', (dispatch ord line).run g = some (((command line).effect g.registry).1, g') ∧ g'.WellFormed ∧
      g'.registry = ((command line).effect g.registry).2 := by
  obtain ⟨g', hrun, hg', hregistry⟩ := dispatch_registry ord hg line
  rw [Command.answer_selective hline.selective] at hrun
  exact ⟨g', hrun, hg', hregistry⟩

/-- **Dispatching is performing** the effects of the lines on the registry. -/
theorem run_dispatchAll {T : Type} (hg : g.WellFormed) {sched : List (T × Str)}
    (hsched : ∀ e ∈ sched, Managing e.2) :
    ∃ g', (dispatchAll ord sched).run g
        = some ((perform (fun line => (command line).effect) sched g.registry).1, g') ∧
      g'.registry = (perform (fun line => (command line).effect) sched g.registry).2 := by
  induction sched generalizing g with
  | nil => exact ⟨g, rfl, rfl⟩
  | cons e sched ih =>
      obtain ⟨t, line⟩ := e
      obtain ⟨g₁, hline, hg₁, hregistry⟩ := run_selective ord hg (hsched _ List.mem_cons_self)
      obtain ⟨g', hrest, hregistry'⟩ := ih hg₁ fun e he => hsched e (List.mem_cons_of_mem _ he)
      rw [hregistry] at hrest hregistry'
      refine ⟨g', ?_, hregistry'⟩
      simp only [dispatchAll, bind_eq, run_bind, hline, Option.bind_some, hrest, run_ret]
      rfl

end Runs

section Independent

variable (ord : MapOrder) {g : Globals}

/-- Two lines in either order. -/
theorem dispatch_comm (hg : g.WellFormed) {line line' : Str} (hline : Managing line) (hline' : Managing line')
    (hdisj : Disjoint (command line).writes (command line').writes) :
    ∃ out out' g₁ g₂ g₁' g₂', (dispatch ord line).run g = some (out, g₁) ∧
      (dispatch ord line').run g₁ = some (out', g₂) ∧ (dispatch ord line').run g = some (out', g₁') ∧
      (dispatch ord line).run g₁' = some (out, g₂') ∧ g₂.registry = g₂'.registry := by
  have hlocal := Command.local_effect hline.selective
  have hlocal' := Command.local_effect hline'.selective
  obtain ⟨hout', hout, hstate⟩ := hlocal.comm (fun _ _ => Registry.ext_cell) hlocal' hdisj
    (hdisj.mono_right (Command.reads_subset _)) (hdisj.symm.mono_right (Command.reads_subset _)) g.registry
  obtain ⟨g₁, hrun₁, hg₁, hregistry₁⟩ := run_selective ord hg hline
  obtain ⟨g₂, hrun₂, -, hregistry₂⟩ := run_selective ord hg₁ hline'
  obtain ⟨g₁', hrun₁', hg₁', hregistry₁'⟩ := run_selective ord hg hline'
  obtain ⟨g₂', hrun₂', -, hregistry₂'⟩ := run_selective ord hg₁' hline
  rw [hregistry₁, hout'] at hrun₂
  rw [hregistry₁', hout] at hrun₂'
  refine ⟨_, _, g₁, g₂, g₁', g₂', hrun₁, hrun₂, hrun₁', hrun₂', ?_⟩
  rw [hregistry₂, hregistry₁, hregistry₂', hregistry₁', hstate]

/-- One client among others that keep to their own domains. -/
theorem dispatchAll_alone {T : Type} [DecidableEq T] (hg : g.WellFormed) {managed : T → Set Str}
    (hdisj : ∀ t u, t ≠ u → Disjoint (managed t) (managed u)) {sched : List (T × Str)}
    (hsched : ∀ e ∈ sched, Managing e.2 ∧ ∀ f ∈ named e.2, f ∈ managed e.1) :
    ∃ outs g', (dispatchAll ord sched).run g = some (outs, g') ∧
      ∀ t, ∃ g₁, (dispatchAll ord (sched.filter (·.1 = t))).run g = some (outs.filter (·.1 = t), g₁) ∧
        ∀ f ∈ managed t, g'.lookupContainer f = g₁.lookupContainer f := by
  obtain ⟨g', hrun, hregistry⟩ := run_dispatchAll ord hg fun e he => (hsched e he).1
  refine ⟨_, g', hrun, fun t => ?_⟩
  have hown : ∀ e ∈ sched.filter (·.1 = t), Managing e.2 := fun e he =>
    (hsched e (List.mem_filter.mp he).1).1
  obtain ⟨g₁, hrun₁, hregistry₁⟩ := run_dispatchAll ord hg hown
  have hlocal : ∀ e ∈ sched,
      Local Registry.cell (command e.2).reads (command e.2).writes (command e.2).effect := fun e he =>
    Command.local_effect (hsched e he).1.selective
  have hreads : ∀ e ∈ sched, e.1 = t → (command e.2).reads ⊆ Cell.domain '' managed t := by
    rintro e he rfl c ⟨f, hf, rfl⟩
    exact ⟨f, (hsched e he).2 f hf, rfl⟩
  have hwrites : ∀ e ∈ sched, e.1 ≠ t → Disjoint (command e.2).writes (Cell.domain '' managed t) := by
    intro e he hne
    rw [Set.disjoint_right]
    rintro c ⟨f, hf, rfl⟩ hmem
    have hnamed := (hsched e he).2 f (Command.domain_mem_writes.mp hmem)
    exact Set.disjoint_left.mp (hdisj e.1 t hne) hnamed hf
  obtain ⟨hreplies, hcells⟩ := perform_alone (fun line => (command line).effect) hlocal hreads hwrites
    (fun c _ => rfl : Agree Registry.cell _ g.registry g.registry)
  refine ⟨g₁, by rw [hrun₁, hreplies], fun f hf => ?_⟩
  have hcell := hcells (.domain f) ⟨f, hf, rfl⟩
  rw [← hregistry, ← hregistry₁] at hcell
  exact hcell

end Independent

/-- **Commands about different domains are independent.**  In every reachable state: two command lines that
name different domains, and do not both set the SOA record or both the name servers, get the same answers
and leave the same registry in either order; and however the commands of clients that manage different
domains are interleaved, each client gets the answers that it gets alone, and its domains are as if it had
been alone. -/
theorem commands_independent (ord : MapOrder) (rnd : Randomness) {g : Globals} (hg : g.Reachable ord rnd) :
    (∀ line line', Managing line → Managing line' → (∀ f ∈ named line, f ∉ named line') →
      ¬ (isSetSOA line = true ∧ isSetSOA line' = true) → ¬ (isSetNS line = true ∧ isSetNS line' = true) →
      ∃ out out' g₁ g₂ g₁' g₂', (dispatch ord line).run g = some (out, g₁) ∧
        (dispatch ord line').run g₁ = some (out', g₂) ∧ (dispatch ord line').run g = some (out', g₁') ∧
        (dispatch ord line).run g₁' = some (out, g₂') ∧ g₂.registry = g₂'.registry) ∧
    ∀ (T : Type) [DecidableEq T] (managed : T → Set Str), (∀ t u, t ≠ u → Disjoint (managed t) (managed u)) →
      ∀ sched : List (T × Str), (∀ e ∈ sched, Managing e.2 ∧ ∀ f ∈ named e.2, f ∈ managed e.1) →
      ∃ outs g', (dispatchAll ord sched).run g = some (outs, g') ∧
        ∀ t, ∃ g₁, (dispatchAll ord (sched.filter (·.1 = t))).run g = some (outs.filter (·.1 = t), g₁) ∧
          ∀ f ∈ managed t, g'.lookupContainer f = g₁.lookupContainer f := by
  constructor
  · intro line line' hline hline' hnames hsoa hns
    exact dispatch_comm ord hg.wellFormed hline hline' (disjoint_writes hnames hsoa hns)
  · intro T _ managed hdisj sched hsched
    exact dispatchAll_alone ord hg.wellFormed hdisj hsched

/-! #### Two clients with a domain each -/

/-- Each client adds its domain; then one fills it and the other counts. -/
def twoClients : List (Bool × Str) :=
  [(true, "ADD_DOMAIN a NONE".toList), (false, "ADD_DOMAIN b NONE".toList),
    (true, "SNAPSHOT a 4-60-1.1.1.1-x".toList), (false, "COUNTS b".toList)]

/-- What each manages. -/
def oneEach (t : Bool) : Set Str := {if t then "a".toList else "b".toList}

theorem managing_twoClients : ∀ e ∈ twoClients, Managing e.2 ∧ ∀ f ∈ named e.2, f ∈ oneEach e.1 := by
  have hone : ∀ {t : Bool} {f : Str}, f = (if t then "a".toList else "b".toList) →
      ∀ f' ∈ [f], f' ∈ oneEach t := fun hf f' hf' => (List.mem_singleton.mp hf').trans hf
  refine List.forall_mem_cons.mpr ⟨⟨⟨_, _, rfl, Or.inl (by decide)⟩, hone rfl⟩, ?_⟩
  refine List.forall_mem_cons.mpr ⟨⟨⟨_, _, rfl, Or.inl (by decide)⟩, hone rfl⟩, ?_⟩
  refine List.forall_mem_cons.mpr ⟨⟨⟨_, _, rfl, Or.inl (by decide)⟩, hone rfl⟩, ?_⟩
  exact List.forall_mem_singleton.mpr ⟨⟨_, _, rfl, Or.inr ⟨by decide, List.cons_ne_nil _ _⟩⟩, hone rfl⟩

theorem commands_independent_twoClients :
    (∃ out out' g₁ g₂ g₁' g₂',
      (dispatch MapOrder.entries "ADD_DOMAIN a NONE".toList).run (init 0) = some (out, g₁) ∧
      (dispatch MapOrder.entries "COUNTS b".toList).run g₁ = some (out', g₂) ∧
      (dispatch MapOrder.entries "COUNTS b".toList).run (init 0) = some (out', g₁') ∧
      (dispatch MapOrder.entries "ADD_DOMAIN a NONE".toList).run g₁' = some (out, g₂') ∧
      g₂.registry = g₂'.registry) ∧
    ∃ outs g' g₁, (dispatchAll MapOrder.entries twoClients).run (init 0) = some (outs, g') ∧
      (dispatchAll MapOrder.entries (twoClients.filter (·.1 = true))).run (init 0)
        = some (outs.filter (·.1 = true), g₁) ∧
      g'.lookupContainer "a".toList = g₁.lookupContainer "a".toList := by
  obtain ⟨hpairs, hclients⟩ := commands_independent MapOrder.entries Randomness.counting
    (reachable_init MapOrder.entries Randomness.counting 0)
  constructor
  · exact hpairs _ _ ⟨_, _, rfl, Or.inl (by decide)⟩ ⟨_, _, rfl, Or.inr ⟨by decide, List.cons_ne_nil _ _⟩⟩
      (by decide) (by decide) (by decide)
  · have hdisj : ∀ t u : Bool, t ≠ u → Disjoint (oneEach t) (oneEach u) := by
      intro t u hne
      rw [oneEach, oneEach, Set.disjoint_singleton]
      cases t <;> cases u <;> first | decide | exact absurd rfl hne
    obtain ⟨outs, g', hrun, halone⟩ := hclients Bool oneEach hdisj twoClients managing_twoClients
    obtain ⟨g₁, hrun₁, hcontainer⟩ := halone true
    exact ⟨outs, g', g₁, hrun, hrun₁, hcontainer _ rfl⟩

end GlbBackend
