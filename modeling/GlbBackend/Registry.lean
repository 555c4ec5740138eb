import GlbBackend.Daemon
import GlbBackend.Directory
import GlbBackend.ReplyValues

/-!
# The registry: what every command does and answers

A `Registry` is all that the daemon holds for its clients: the container of each mapped name, the SOA
container and the NS list.  It forgets where the objects are and how the random engine stands.

Every line is a `Command`, and a command is a function on registries with an answer: `Command.apply` and
`Command.answer`.  `dispatch_registry` is the refinement: run alone, the handler that the dispatch chooses
for a line does to the registry what the command does and pushes its answer.  Only the order of the names in
the answer of a command that walks the whole map is the library's.
-/

namespace GlbBackend

open Text Concurrent Concurrent.Proc Globals

/-- What the daemon holds. -/
structure Registry where
  domains : Str → Option GlbContainer
  soa : SOAContainer
  ns : List Str

/-- The registry in the globals. -/
def Globals.registry (g : Globals) : Registry := ⟨g.lookupContainer, g.globalSOA, g.nsList⟩

namespace Registry

/-- The registry of the initial state. -/
def init : Registry := ⟨fun _ => none, ⟨[], []⟩, []⟩

/-- The domains without their counts. -/
def directory (r : Registry) : Directory := fun f => (r.domains f).map GlbContainer.domain

/-- The lookup count of a mapped name. -/
def tally (r : Registry) (f : Str) : Option ℤ := (r.domains f).map GlbContainer.nLookups

end Registry

theorem registry_init (seed : ℕ) : (Globals.init seed).registry = Registry.init := rfl

/-- The mapped names, in the order an iterator walks the map. -/
def MapOrder.names (ord : MapOrder) (g : Globals) : List Str := (ord.traverse g).map Prod.fst

theorem MapOrder.mem_names (ord : MapOrder) {g : Globals} {f : Str} :
    f ∈ ord.names g ↔ (g.find f).isSome = true := by
  rw [names, ((ord.traverse_perm g).map Prod.fst).mem_iff, List.map_map]
  show f ∈ g.glbMap.keys ↔ (g.glbMap.lookup f).isSome = true
  rw [← AList.mem_keys, AList.lookup_isSome]

/-- Every mapped name is visited once. -/
theorem MapOrder.nodup_names (ord : MapOrder) (g : Globals) : (ord.names g).Nodup := by
  rw [names, ((ord.traverse_perm g).map Prod.fst).nodup_iff, List.map_map]
  exact g.glbMap.nodupKeys

/-! ### The commands -/

/-- What a line asks for. -/
inductive Command
  | domain (cmd : DomainCommand)
  | debug (nLoops : ℤ) (showFull : Bool)
  | counts (args : List Str)
  | clear (args : List Str)
  | soa (base text : Str)
  | ns (records : List Str)
  | unknown (line : Str)

/-- The command on a line. -/
def command (line : Str) : Command :=
  match domainCommand? line with
  | some cmd => .domain cmd
  | none =>
      match splitStr line " ".toList with
      | [] => .unknown line
      | name :: args =>
          if name = "DEBUG_DOMAINS".toList then
            .debug (args.head?.elim 1 atoi) (args[1]? == some "FULL".toList)
          else if name = "COUNTS".toList then .counts args
          else if name = "CLR_COUNTS".toList then .clear args
          else if name = "SET_SOA".toList then
            match args with
            | base :: s :: rest => .soa base (joinStr (s :: rest) " ".toList)
            | _ => .unknown line
          else if name = "SET_NS".toList then
            match args with
            | n :: rest => .ns (n :: rest)
            | [] => .unknown line
          else .unknown line

/-- What a command tells about the line it is on. -/
inductive Asks (line : Str) : Command → Prop
  | domain {cmd : DomainCommand} (h : domainCommand? line = some cmd) : Asks line (.domain cmd)
  | debug {args : List Str} (htok : splitStr line " ".toList = "DEBUG_DOMAINS".toList :: args) :
      Asks line (.debug (args.head?.elim 1 atoi) (args[1]? == some "FULL".toList))
  | counts {args : List Str} (htok : splitStr line " ".toList = "COUNTS".toList :: args) :
      Asks line (.counts args)
  | clear {args : List Str} (htok : splitStr line " ".toList = "CLR_COUNTS".toList :: args) :
      Asks line (.clear args)
  | soa {base s : Str} {rest : List Str}
      (htok : splitStr line " ".toList = "SET_SOA".toList :: base :: s :: rest) :
      Asks line (.soa base (joinStr (s :: rest) " ".toList))
  | ns {n : Str} {rest : List Str} (htok : splitStr line " ".toList = "SET_NS".toList :: n :: rest) :
      Asks line (.ns (n :: rest))
  | unknown : Asks line (.unknown line)

/-- **The command is on the line.** -/
theorem asks_command (line : Str) : Asks line (command line) := by
  rw [command]
  split
  case h_1 cmd hcmd => exact .domain hcmd
  case h_2 =>
    split
    case h_1 => exact .unknown
    case h_2 name args htok =>
      split_ifs with h1 h2 h3 h4 h5
      · exact .debug (h1 ▸ htok)
      · exact .counts (h2 ▸ htok)
      · exact .clear (h3 ▸ htok)
      · split
        · exact .soa (h4 ▸ htok)
        · exact .unknown
      · split
        · exact .ns (h5 ▸ htok)
        · exact .unknown
      · exact .unknown

theorem command_eq_domain_iff {line : Str} {cmd : DomainCommand} :
    command line = .domain cmd ↔ domainCommand? line = some cmd := by
  constructor
  · intro h
    have hasks := asks_command line
    rw [h] at hasks
    cases hasks with
    | domain hcmd => exact hcmd
  · intro hcmd
    rw [command, hcmd]

theorem command_eq_clear_iff {line : Str} {args : List Str} :
    command line = .clear args ↔ splitStr line " ".toList = "CLR_COUNTS".toList :: args := by
  constructor
  · intro h
    have hasks := asks_command line
    rw [h] at hasks
    cases hasks with
    | clear htok => exact htok
  · intro htok
    rw [command, domainCommand?, htok]
    rfl

/-- The names a `COUNTS` or `CLR_COUNTS` covers: its arguments, or all if it has none. -/
def covered (args names : List Str) : List Str := if args = [] then names else args

/-- The reply of a `COUNTS` that covers some names, where `tally` is the count of each mapped name. -/
def countsReply (tally : Str → Option ℤ) (names : List Str) : ServerJsonBuilder where
  type := "GET_COUNTS".toList
  hasType := true
  status := if names.all fun f => (tally f).isSome then "PASSED".toList else "FAILED".toList
  hasStatus := true
  counts := names.filterMap fun f => (tally f).map fun n => ⟨f, n⟩
  hasCounts := names.any fun f => (tally f).isSome
  errors := (names.filter fun f => (tally f).isNone).map fun f =>
    "fqdn ".toList ++ f ++ " doesn't exist".toList
  hasErrors := names.any fun f => (tally f).isNone

/-- The reply of a `CLR_COUNTS` that covers some names. -/
def clearReply (tally : Str → Option ℤ) (names : List Str) : ServerJsonBuilder where
  type := "CLR_COUNTS".toList
  hasType := true
  status := if names.all fun f => (tally f).isSome then "PASSED".toList else "FAILED".toList
  hasStatus := true
  errors := (names.filter fun f => (tally f).isNone).map fun f =>
    "fqdn".toList ++ f ++ " doesn't exist".toList
  hasErrors := names.any fun f => (tally f).isNone

/-- The reply of a `SET_SOA`. -/
def soaReply : ServerJsonBuilder :=
  (({} : ServerJsonBuilder).setType "SET_SOA".toList).setStatus "PASSED".toList

/-- The reply of a `SET_NS`. -/
def nsReply (records : List Str) : ServerJsonBuilder :=
  (records.foldl (fun jb ns => jb.addNSRecord ns)
    (({} : ServerJsonBuilder).setType "SET_NS".toList)).setStatus "PASSED".toList

/-- The line of a `DEBUG_DOMAINS` for one container. -/
def debugLine (showFull : Bool) (f : Str) (c : GlbContainer) : Str :=
  f ++ ":".toList ++ c.toString showFull

namespace Command

/-- What a command does to the registry. -/
def apply : Command → Registry → Registry
  | domain cmd, r => { r with domains := cmd.applyTo r.domains }
  | clear args, r =>
      { r with domains := fun f =>
          if args = [] ∨ f ∈ args then (r.domains f).map GlbContainer.clrNLookups else r.domains f }
  | soa base text, r => { r with soa := ⟨text, base⟩ }
  | ns records, r => { r with ns := records }
  | debug _ _, r => r
  | counts _, r => r
  | unknown _, r => r

/-- The lines a command pushes; `names` are the mapped names in the order of the map. -/
def answer (names : List Str) (r : Registry) : Command → List Str
  | domain cmd => cmd.answer (cmd.apply r.directory).1
  | debug nLoops showFull => (List.replicate nLoops.toNat
      (names.filterMap fun f => (r.domains f).map (debugLine showFull f))).flatten
  | counts args => [(countsReply r.tally (covered args names)).toJson]
  | clear args => [(clearReply r.tally (covered args names)).toJson]
  | soa _ _ => [soaReply.toJson]
  | ns records => [(nsReply records).toJson]
  | unknown line => [(DomainCommand.unknown line).reply false |>.toJson]

end Command

/-! ### Counts -/

/-- What `getCounts` reports for one name. -/
def countName (tally : Str → Option ℤ) (jb : ServerJsonBuilder) (f : Str) : ServerJsonBuilder :=
  match tally f with
  | none => (jb.setStatus "FAILED".toList).addError ("fqdn ".toList ++ f ++ " doesn't exist".toList)
  | some n => jb.addCount f n

/-- What `clearCounts` reports for one name. -/
def clearName (tally : Str → Option ℤ) (jb : ServerJsonBuilder) (f : Str) : ServerJsonBuilder :=
  match tally f with
  | none => jb.addError ("fqdn".toList ++ f ++ " doesn't exist".toList)
  | some _ => jb

/-- All names are reported, each in its list, and the status is the one set last. -/
theorem foldl_countName (tally : Str → Option ℤ) (names : List Str) (jb : ServerJsonBuilder) (status : Str) :
    (names.foldl (countName tally) jb).setStatus status = { jb with
      status := status
      hasStatus := true
      counts := jb.counts ++ names.filterMap fun f => (tally f).map fun n => ⟨f, n⟩
      hasCounts := jb.hasCounts || names.any fun f => (tally f).isSome
      errors := jb.errors ++ (names.filter fun f => (tally f).isNone).map fun f =>
        "fqdn ".toList ++ f ++ " doesn't exist".toList
      hasErrors := jb.hasErrors || names.any fun f => (tally f).isNone } := by
  induction names generalizing jb with
  | nil => simp [ServerJsonBuilder.setStatus]
  | cons f names ih =>
      rw [List.foldl_cons, ih, countName]
      cases hf : tally f with
      | none => simp [ServerJsonBuilder.setStatus, ServerJsonBuilder.addError, hf]
      | some n => simp [ServerJsonBuilder.addCount, hf]

theorem foldl_clearName (tally : Str → Option ℤ) (names : List Str) (jb : ServerJsonBuilder) :
    names.foldl (clearName tally) jb = { jb with
      errors := jb.errors ++ (names.filter fun f => (tally f).isNone).map fun f =>
        "fqdn".toList ++ f ++ " doesn't exist".toList
      hasErrors := jb.hasErrors || names.any fun f => (tally f).isNone } := by
  induction names generalizing jb with
  | nil => simp
  | cons f names ih =>
      rw [List.foldl_cons, ih, clearName]
      cases hf : tally f with
      | none => simp [ServerJsonBuilder.addError, hf]
      | some n => simp [hf]

theorem any_isNone_eq_not_all (tally : Str → Option ℤ) (names : List Str) :
    (names.any fun f => (tally f).isNone) = !(names.all fun f => (tally f).isSome) := by
  rw [List.not_all_eq_any_not]
  congr 1
  funext f
  cases tally f <;> rfl

/-- The reply of a `COUNTS` is what its loop reports, with the status that the names call for. -/
theorem countsReply_eq (tally : Str → Option ℤ) (names : List Str) :
    (names.foldl (countName tally) (({} : ServerJsonBuilder).setType "GET_COUNTS".toList)).setStatus
      (if names.any fun f => (tally f).isNone then "FAILED".toList else "PASSED".toList)
      = countsReply tally names := by
  rw [foldl_countName, countsReply, any_isNone_eq_not_all]
  cases names.all fun f => (tally f).isSome <;> simp [ServerJsonBuilder.setType]

theorem clearReply_eq (tally : Str → Option ℤ) (names : List Str) :
    (names.foldl (clearName tally) (({} : ServerJsonBuilder).setType "CLR_COUNTS".toList)).setStatus
      (if names.any fun f => (tally f).isNone then "FAILED".toList else "PASSED".toList)
      = clearReply tally names := by
  rw [foldl_clearName, clearReply, any_isNone_eq_not_all]
  cases names.all fun f => (tally f).isSome <;> simp [ServerJsonBuilder.setType, ServerJsonBuilder.setStatus]

section Runs

variable {g : Globals}

theorem tally_of_find_none {f : Str} (hf : g.find f = none) : g.registry.tally f = none := by
  show (g.lookupContainer f).map _ = none
  rw [lookupContainer_of_find_none hf, Option.map_none]

theorem Globals.WellFormed.tally_of_find (hg : g.WellFormed) {f : Str} {p : Ptr} (hf : g.find f = some p) :
    ∃ c, g.container p = some c ∧ g.lookupContainer f = some c ∧
      g.registry.tally f = some c.nLookups := by
  obtain ⟨c, hc, hlook, -⟩ := hg.lookupContainer_of_find hf
  refine ⟨c, hc, hlook, ?_⟩
  show (g.lookupContainer f).map _ = _
  rw [hlook, Option.map_some]

theorem tally_isNone (hg : g.WellFormed) (f : Str) : (g.registry.tally f).isNone = (g.find f).isNone := by
  have h := hg.lookupContainer_isSome f
  rw [← Option.not_isSome, ← Option.not_isSome, ← h]
  show (!((g.lookupContainer f).map _).isSome) = _
  rw [Option.isSome_map]

/-- The names that an iterator visits are mapped. -/
theorem tally_isNone_of_mem (ord : MapOrder) (hg : g.WellFormed) {f : Str} (hf : f ∈ ord.names g) :
    (g.registry.tally f).isNone = false := by
  rw [tally_isNone hg, ← Option.not_isSome, ord.mem_names.mp hf]
  rfl

theorem any_unmapped (ord : MapOrder) (hg : g.WellFormed) :
    ((ord.names g).any fun f => (g.registry.tally f).isNone) = false := by
  rw [List.any_eq_false]
  intro f hf
  rw [tally_isNone_of_mem ord hg hf]
  exact Bool.false_ne_true

/-- What the loop of `getCounts` does for one name. -/
theorem run_countArgs_cons (hg : g.WellFormed) (fqdn : Str) (rest : List Str) (jb : ServerJsonBuilder)
    (failed : Bool) :
    (countArgs (fqdn :: rest) jb failed).run g
      = (countArgs rest (countName g.registry.tally jb fqdn)
          (failed || (g.registry.tally fqdn).isNone)).run g := by
  simp only [countArgs, bind_eq, run_bind, run_sharedLock, run_scope, run_read, Option.bind_some]
  cases hf : g.find fqdn with
  | none => simp [countName, tally_of_find_none hf]
  | some p =>
      obtain ⟨c, hc, -, htally⟩ := hg.tally_of_find hf
      simp [countName, htally, getNLookups, hc]

theorem run_countArgs (hg : g.WellFormed) (args : List Str) (jb : ServerJsonBuilder) (failed : Bool) :
    (countArgs args jb failed).run g
      = some ((args.foldl (countName g.registry.tally) jb,
          failed || args.any fun f => (g.registry.tally f).isNone), g) := by
  induction args generalizing jb failed with
  | nil => simp [countArgs]
  | cons fqdn rest ih =>
      rw [run_countArgs_cons hg, ih, List.foldl_cons, List.any_cons, Bool.or_assoc]

theorem run_countAll (hg : g.WellFormed) (entries : List (Str × Ptr))
    (hmem : ∀ e ∈ entries, g.find e.1 = some e.2) (jb : ServerJsonBuilder) :
    (countAll entries jb).run g
      = some ((entries.map Prod.fst).foldl (countName g.registry.tally) jb, g) := by
  induction entries generalizing jb with
  | nil => rfl
  | cons e entries ih =>
      obtain ⟨c, hc, -, htally⟩ := hg.tally_of_find (hmem e List.mem_cons_self)
      have hrest := ih (fun e' he' => hmem e' (List.mem_cons_of_mem e he'))
      simp [countAll, getNLookups, hc, hrest, countName, htally]

/-- **`COUNTS`, run alone**, reports the names it covers and changes nothing. -/
theorem run_getCounts (ord : MapOrder) (hg : g.WellFormed) {line name : Str} {args : List Str}
    (htok : splitStr line " ".toList = name :: args) :
    (getCounts ord line).run g
      = some ([(countsReply g.registry.tally (covered args (ord.names g))).toJson], g) := by
  rw [getCounts, htok]
  cases args with
  | nil =>
      simp only [List.length_singleton, lt_irrefl, if_false, bind_eq, run_bind, run_sharedLock, run_scope,
        run_read, Option.bind_some, run_countAll hg _ fun e he => find_of_mem_traverse ord he, run_ret]
      rw [show covered [] (ord.names g) = ord.names g from rfl, ← countsReply_eq, any_unmapped ord hg]
      rfl
  | cons fqdn rest =>
      have hlen : 1 < (name :: fqdn :: rest).length := by simp
      simp only [if_pos hlen, bind_eq, run_bind, List.drop_succ_cons, List.drop_zero, run_countArgs hg,
        Option.bind_some, Bool.false_or, run_ret]
      rw [show covered (fqdn :: rest) (ord.names g) = fqdn :: rest from rfl, ← countsReply_eq]
      cases (fqdn :: rest).any fun f => (g.registry.tally f).isNone <;> rfl

/-! ### Clearing counts -/

/-- The state after the counts of some names were set to zero. -/
structure Cleared (names : List Str) (g g' : Globals) : Prop where
  wellFormed : g'.WellFormed
  find : ∀ f, g'.find f = g.find f
  containers : g'.lookupContainer
    = fun f => if f ∈ names then (g.lookupContainer f).map GlbContainer.clrNLookups else g.lookupContainer f
  soa : g'.globalSOA = g.globalSOA
  ns : g'.nsList = g.nsList

theorem Cleared.refl (hg : g.WellFormed) : Cleared [] g g :=
  ⟨hg, fun _ => rfl, by funext f; simp, rfl, rfl⟩

/-- One name that is not mapped, then others. -/
theorem Cleared.skip {fqdn : Str} {names : List Str} {g' : Globals} (hf : g.find fqdn = none)
    (h : Cleared names g g') : Cleared (fqdn :: names) g g' := by
  refine ⟨h.wellFormed, h.find, ?_, h.soa, h.ns⟩
  rw [h.containers]
  funext f
  by_cases hff : f = fqdn
  · rw [hff, lookupContainer_of_find_none hf, Option.map_none, ite_self, ite_self]
  · simp [hff]

/-- One mapped name, then others. -/
theorem Cleared.step (hg : g.WellFormed) {fqdn : Str} {p : Ptr} {names : List Str} {g' : Globals}
    (hf : g.find fqdn = some p) (h : Cleared names (g.update p (·.clrNLookups)) g') :
    Cleared (fqdn :: names) g g' := by
  refine ⟨h.wellFormed, h.find, ?_, h.soa, h.ns⟩
  rw [h.containers, hg.lookupContainer_update hf]
  funext f
  by_cases hff : f = fqdn
  · rw [hff, Function.update_self, if_pos List.mem_cons_self]
    split_ifs
    · cases g.lookupContainer fqdn <;> rfl
    · rfl
  · rw [Function.update_of_ne hff]
    simp [hff]

theorem wellFormed_clr (hg : g.WellFormed) (p : Ptr) : (g.update p (·.clrNLookups)).WellFormed :=
  hg.update p fun _ hc => hc.clrNLookups

/-- What `clearCounts` reports depends on which names are mapped only. -/
theorem clearName_congr {tally tally' : Str → Option ℤ} (h : ∀ f, (tally f).isNone = (tally' f).isNone) :
    clearName tally = clearName tally' := by
  funext jb f
  have hf := h f
  rw [clearName, clearName]
  cases htally : tally f <;> cases htally' : tally' f <;> simp_all

theorem run_clearArgs (hg : g.WellFormed) (args : List Str) (jb : ServerJsonBuilder) (failed : Bool) :
    ∃ g', (clearArgs args jb failed).run g
        = some ((args.foldl (clearName g.registry.tally) jb,
            failed || args.any fun f => (g.registry.tally f).isNone), g') ∧ Cleared args g g' := by
  induction args generalizing g jb failed with
  | nil => exact ⟨g, by simp [clearArgs], Cleared.refl hg⟩
  | cons fqdn rest ih =>
      simp only [clearArgs, bind_eq, run_bind, run_read, Option.bind_some, List.foldl_cons, List.any_cons]
      cases hf : g.find fqdn with
      | none =>
          obtain ⟨g', hrun, hcleared⟩ := ih hg
            (jb.addError ("fqdn".toList ++ fqdn ++ " doesn't exist".toList)) true
          refine ⟨g', ?_, hcleared.skip hf⟩
          simp only [hrun, clearName, tally_of_find_none hf, Option.isNone_none, Bool.true_or, Bool.or_true]
      | some p =>
          obtain ⟨c, hc, -, htally⟩ := hg.tally_of_find hf
          have hg₁ := wellFormed_clr hg p
          obtain ⟨g', hrun, hcleared⟩ := ih hg₁ jb failed
          have hsame : ∀ f, ((g.update p (·.clrNLookups)).registry.tally f).isNone
              = (g.registry.tally f).isNone := by
            intro f
            rw [tally_isNone hg₁, tally_isNone hg, find_update]
          rw [clearName_congr hsame] at hrun
          simp only [hsame] at hrun
          refine ⟨g', ?_, hcleared.step hg hf⟩
          simp only [clrNLookups, run_bind, run_lockGuard, run_modify, Option.bind_some, hrun, clearName,
            htally, Option.isNone_some, Bool.false_or]

theorem run_clearAll (hg : g.WellFormed) (entries : List (Str × Ptr))
    (hmem : ∀ e ∈ entries, g.find e.1 = some e.2) :
    ∃ g', (clearAll entries).run g = some ((), g') ∧ Cleared (entries.map Prod.fst) g g' := by
  induction entries generalizing g with
  | nil => exact ⟨g, rfl, Cleared.refl hg⟩
  | cons e entries ih =>
      obtain ⟨f, p⟩ := e
      have hf : g.find f = some p := hmem _ List.mem_cons_self
      obtain ⟨g', hrun, hcleared⟩ := ih (wellFormed_clr hg p)
        (fun e' he' => hmem e' (List.mem_cons_of_mem _ he'))
      refine ⟨g', ?_, hcleared.step hg hf⟩
      simp [clearAll, clrNLookups, hrun]

/-- **`CLR_COUNTS`, run alone**, sets the counts of the names it covers to zero. -/
theorem run_clearCounts (ord : MapOrder) (hg : g.WellFormed) {line name : Str} {args : List Str}
    (htok : splitStr line " ".toList = name :: args) :
    ∃ g', (clearCounts ord line).run g
        = some ([(clearReply g.registry.tally (covered args (ord.names g))).toJson], g') ∧
      Cleared (covered args (ord.names g)) g g' := by
  rw [clearCounts, htok]
  cases args with
  | nil =>
      obtain ⟨g', hrun, hcleared⟩ := run_clearAll hg (ord.traverse g)
        (fun e he => find_of_mem_traverse ord he)
      refine ⟨g', ?_, hcleared⟩
      simp only [List.length_singleton, lt_irrefl, if_false, bind_eq, run_bind, run_sharedLock, run_scope,
        run_read, Option.bind_some, hrun, run_ret]
      have hfilter : ((ord.names g).filter fun f => (g.registry.tally f).isNone) = [] := by
        rw [List.filter_eq_nil_iff]
        intro f hf
        rw [tally_isNone_of_mem ord hg hf]
        exact Bool.false_ne_true
      rw [show covered [] (ord.names g) = ord.names g from rfl, ← clearReply_eq, foldl_clearName,
        any_unmapped ord hg, hfilter]
      rfl
  | cons fqdn rest =>
      obtain ⟨g', hrun, hcleared⟩ := run_clearArgs hg (fqdn :: rest)
        (({} : ServerJsonBuilder).setType "CLR_COUNTS".toList) false
      refine ⟨g', ?_, hcleared⟩
      have hlen : 1 < (name :: fqdn :: rest).length := by simp
      simp only [if_pos hlen, bind_eq, run_bind, List.drop_succ_cons, List.drop_zero, run_sharedLock,
        run_scope, hrun, Option.bind_some, Bool.false_or, run_ret]
      rw [show covered (fqdn :: rest) (ord.names g) = fqdn :: rest from rfl, ← clearReply_eq]
      cases (fqdn :: rest).any fun f => (g.registry.tally f).isNone <;> rfl

/-! ### The other handlers -/

theorem run_containerToString {p : Ptr} {c : GlbContainer} (hc : g.container p = some c) (showFull : Bool) :
    (containerToString p showFull).run g = some (c.toString showFull, g) := by
  simp only [containerToString, run_sharedLock, bind_eq, run_bind, run_read, Option.bind_some, hc,
    expect_some, run_ret]

theorem run_debugPass (hg : g.WellFormed) (showFull : Bool) (entries : List (Str × Ptr))
    (hmem : ∀ e ∈ entries, g.find e.1 = some e.2) :
    (debugPass showFull entries).run g
      = some ((entries.map Prod.fst).filterMap fun f =>
          (g.registry.domains f).map (debugLine showFull f), g) := by
  induction entries with
  | nil => rfl
  | cons e entries ih =>
      obtain ⟨c, hc, hlook, -⟩ := hg.lookupContainer_of_find (hmem e List.mem_cons_self)
      have hrest := ih fun e' he' => hmem e' (List.mem_cons_of_mem e he')
      have hline : (g.registry.domains e.1).map (debugLine showFull e.1)
          = some (debugLine showFull e.1 c) := by
        show (g.lookupContainer e.1).map _ = _
        rw [hlook, Option.map_some]
      simp only [List.map_cons, List.filterMap_cons, hline]
      simp only [debugPass, bind_eq, run_bind, run_containerToString hc, Option.bind_some, hrest, run_ret,
        debugLine]

theorem run_debugLoop {showFull : Bool} {entries : List (Str × Ptr)} {pass : List Str}
    (hpass : (debugPass showFull entries).run g = some (pass, g)) (n : ℕ) :
    (debugLoop showFull entries n).run g = some ((List.replicate n pass).flatten, g) := by
  induction n with
  | zero => rfl
  | succ n ih =>
      simp only [debugLoop, bind_eq, run_bind, hpass, Option.bind_some, ih, run_ret, List.replicate_succ,
        List.flatten_cons]

/-- **`DEBUG_DOMAINS`, run alone**, lists every container as often as its argument says. -/
theorem run_debugDomains (ord : MapOrder) (hg : g.WellFormed) {line name : Str} {args : List Str}
    (htok : splitStr line " ".toList = name :: args) :
    (debugDomains ord line).run g
      = some ((Command.debug (args.head?.elim 1 atoi) (args[1]? == some "FULL".toList)).answer
          (ord.names g) g.registry, g) := by
  have hloops : debugLoops line = args.head?.elim 1 atoi := by
    rw [debugLoops, htok]
    cases args <;> rfl
  rw [debugDomains, htok, hloops]
  simp only [run_sharedLock, run_scope, bind_eq, run_bind, run_read, Option.bind_some]
  exact run_debugLoop (run_debugPass hg _ _ fun e he => find_of_mem_traverse ord he) _

theorem run_setSOA {line name base s : Str} {rest : List Str}
    (htok : splitStr line " ".toList = name :: base :: s :: rest) (g : Globals) :
    (setSOA line).run g
      = some ([soaReply.toJson], g.setSOA (joinStr (s :: rest) " ".toList) base) := by
  have hlen : ¬ (name :: base :: s :: rest).length < 3 := by
    simp only [List.length_cons]
    omega
  rw [setSOA, htok]
  simp only [if_neg hlen, List.getElem?_cons_succ, List.getElem?_cons_zero, expect_some, bind_eq, ret_bind,
    run_bind, setGlobalSOARecord, run_lockGuard, run_scope, run_modify, Option.bind_some, run_ret]
  rfl

theorem run_setNS {line name n : Str} {rest : List Str} (htok : splitStr line " ".toList = name :: n :: rest)
    (g : Globals) :
    (setNS line).run g = some ([(nsReply (n :: rest)).toJson], g.setNS (n :: rest)) := by
  have hlen : ¬ (name :: n :: rest).length < 2 := by
    simp only [List.length_cons]
    omega
  rw [setNS, htok]
  simp only [if_neg hlen, bind_eq, run_bind, setNSRecords, run_lockGuard, run_scope, run_modify,
    Option.bind_some, run_ret]
  rfl

end Runs

/-! ### The dispatch -/

theorem cmdMatch_ne {name expected : Str} (h : name ≠ expected) (n : ℕ) (args : List Str) :
    cmdMatch n (name :: args) expected = false := by
  simp [cmdMatch, h]

/-- A line matches one command at most. -/
theorem cmdMatch_other {m : ℕ} {sv : List Str} {expected other : Str} (h : cmdMatch m sv expected = true)
    (hne : expected ≠ other) (n : ℕ) : cmdMatch n sv other = false := by
  rcases sv with _ | ⟨name, args⟩
  · simp [cmdMatch] at h
  · have hname : name = expected := by
      simp only [cmdMatch, Bool.and_eq_true] at h
      simpa using h.2
    exact cmdMatch_ne (by rw [hname]; exact hne) n args

/-- A line that is no domain command goes to one of the other handlers. -/
theorem dispatch_of_none (ord : MapOrder) {line : Str} (h : domainCommand? line = none) :
    dispatch ord line =
      (let args := splitStr line " ".toList
      if cmdMatch 1 args "DEBUG_DOMAINS".toList then debugDomains ord line
      else if cmdMatch 1 args "COUNTS".toList then getCounts ord line
      else if cmdMatch 1 args "CLR_COUNTS".toList then clearCounts ord line
      else if cmdMatch 3 args "SET_SOA".toList then setSOA line
      else if cmdMatch 2 args "SET_NS".toList then setNS line
      else unknownCommand line) := by
  rw [domainCommand?] at h
  rw [dispatch]
  rcases htok : splitStr line " ".toList with _ | ⟨name, args⟩
  · exact absurd htok (splitStr_ne_nil _ _)
  rw [htok] at h
  simp only at h
  by_cases hadd : name = "ADD_DOMAIN".toList
  · rw [if_pos hadd] at h
    rcases args with _ | ⟨_, _ | ⟨_, _⟩⟩ <;> exact absurd h (Option.some_ne_none _)
  by_cases hdel : name = "DEL_DOMAIN".toList
  · rw [if_neg hadd, if_pos hdel] at h
    rcases args with _ | ⟨_, _⟩ <;> exact absurd h (Option.some_ne_none _)
  by_cases hsnap : name = "SNAPSHOT".toList
  · rw [if_neg hadd, if_neg hdel, if_pos hsnap] at h
    rcases args with _ | ⟨_, _⟩ <;> exact absurd h (Option.some_ne_none _)
  by_cases hclr : name = "CLR_DOMAINS".toList
  · rw [if_neg hadd, if_neg hdel, if_neg hsnap, if_pos hclr] at h
    exact absurd h (Option.some_ne_none _)
  simp only [cmdMatch_ne hadd, cmdMatch_ne hdel, cmdMatch_ne hsnap, cmdMatch_ne hclr, Bool.false_eq_true,
    if_false]

/-- The registry after a state in which the counts of some names were set to zero. -/
theorem Cleared.registry {args names : List Str} {g g' : Globals} (h : Cleared (covered args names) g g')
    (hnames : ∀ f, f ∈ names ↔ (g.lookupContainer f).isSome = true) :
    g'.registry = (Command.clear args).apply g.registry := by
  rw [Globals.registry, h.containers, h.soa, h.ns]
  show Registry.mk _ _ _ = Registry.mk _ _ _
  congr 1
  funext f
  rw [covered]
  by_cases hargs : args = []
  · rw [if_pos hargs, if_pos (Or.inl hargs)]
    show _ = (g.lookupContainer f).map _
    by_cases hf : f ∈ names
    · rw [if_pos hf]
    · rw [if_neg hf]
      have hnone : g.lookupContainer f = none := by
        rw [← Option.not_isSome_iff_eq_none]
        exact fun h => hf ((hnames f).mpr h)
      rw [hnone, Option.map_none]
  · simp only [hargs, false_or]
    rfl

/-- **The refinement.**  Run alone, the code the dispatch chooses for a line does to the registry what the
line's command does, and pushes its answer. -/
theorem dispatch_registry (ord : MapOrder) {g : Globals} (hg : g.WellFormed) (line : Str) :
    ∃ g', (dispatch ord line).run g = some ((command line).answer (ord.names g) g.registry, g') ∧
      g'.WellFormed ∧ g'.registry = (command line).apply g.registry := by
  obtain ⟨out, g', hrun, hg', -⟩ :=
    (dispatch_safe g ord line).run Grows.refl Grows.trans hg (Grows.refl g)
  suffices h : ∃ g₁, (dispatch ord line).run g
      = some ((command line).answer (ord.names g) g.registry, g₁) ∧
      g₁.registry = (command line).apply g.registry by
    obtain ⟨g₁, hrun₁, hregistry⟩ := h
    obtain ⟨-, rfl⟩ := Prod.mk.inj (Option.some.inj (hrun.symm.trans hrun₁))
    exact ⟨g', hrun₁, hg', hregistry⟩
  cases hcmd : domainCommand? line with
  | some cmd =>
      obtain ⟨g₁, hrun₁, hcontainers, hsoa, hns⟩ := cmd.run_containers hg
      rw [← dispatch_eq_code ord hcmd] at hrun₁
      refine ⟨g₁, ?_, ?_⟩
      · rw [hrun₁, command, hcmd]
        rfl
      · rw [Globals.registry, hcontainers, hsoa, hns, command, hcmd]
        rfl
  | none =>
      rw [dispatch_of_none ord hcmd, command, hcmd]
      rcases htok : splitStr line " ".toList with _ | ⟨name, args⟩
      · exact absurd htok (splitStr_ne_nil _ _)
      have hself : ∀ expected : Str, cmdMatch 1 (expected :: args) expected = true := by
        simp [cmdMatch]
      simp only
      by_cases h1 : name = "DEBUG_DOMAINS".toList
      · subst h1
        rw [if_pos (hself _), if_pos rfl]
        exact ⟨g, run_debugDomains ord hg htok, rfl⟩
      rw [cmdMatch_ne h1, if_neg Bool.false_ne_true, if_neg h1]
      by_cases h2 : name = "COUNTS".toList
      · subst h2
        rw [if_pos (hself _), if_pos rfl]
        exact ⟨g, run_getCounts ord hg htok, rfl⟩
      rw [cmdMatch_ne h2, if_neg Bool.false_ne_true, if_neg h2]
      by_cases h3 : name = "CLR_COUNTS".toList
      · subst h3
        rw [if_pos (hself _), if_pos rfl]
        obtain ⟨g₁, hrun₁, hcleared⟩ := run_clearCounts ord hg htok
        refine ⟨g₁, hrun₁, hcleared.registry fun f => ?_⟩
        rw [ord.mem_names, hg.lookupContainer_isSome]
      rw [cmdMatch_ne h3, if_neg Bool.false_ne_true, if_neg h3]
      by_cases h4 : name = "SET_SOA".toList
      · subst h4
        rw [if_pos rfl]
        rcases args with _ | ⟨base, _ | ⟨s, rest⟩⟩
        · exact ⟨g, rfl, rfl⟩
        · exact ⟨g, rfl, rfl⟩
        · exact ⟨_, run_setSOA htok g, rfl⟩
      rw [cmdMatch_ne h4, if_neg Bool.false_ne_true, if_neg h4]
      by_cases h5 : name = "SET_NS".toList
      · subst h5
        rw [if_pos rfl]
        rcases args with _ | ⟨n, rest⟩
        · exact ⟨g, rfl, rfl⟩
        · refine ⟨_, run_setNS htok g, ?_⟩
          show Registry.mk _ _ _ = _
          rw [nsList, vector_setNS]
          rfl
      rw [cmdMatch_ne h5, if_neg Bool.false_ne_true, if_neg h5]
      exact ⟨g, rfl, rfl⟩

end GlbBackend
