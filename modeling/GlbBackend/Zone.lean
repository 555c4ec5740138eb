import GlbBackend.Requests

/-!
# The zone: all that answers depend on

A `Zone` is the directory, the SOA container and the NS list: the globals without their heaps, the counts
and the random engine.  Every command line acts on it as a function (`Zone.run`), and lookups leave it
alone; so the zone after a run is a fold over the lines (`processLines_zone`), and facts about whole runs
become facts about that fold.
-/

namespace GlbBackend

open Text Concurrent Concurrent.Proc Globals

/-- What the daemon serves. -/
structure Zone where
  directory : Directory
  soa : SOAContainer
  ns : List Str

/-- The zone in the globals. -/
def Globals.zone (g : Globals) : Zone := ⟨g.directory, g.globalSOA, g.nsList⟩

namespace Zone

/-- The zone of the initial state. -/
def init : Zone := ⟨Directory.empty, ⟨[], []⟩, []⟩

/-- What a command line does to the zone. -/
def run (z : Zone) (line : Str) : Zone :=
  match domainCommand? line with
  | some cmd => { z with directory := (cmd.apply z.directory).2 }
  | none =>
      let args := splitStr line " ".toList
      if cmdMatch 3 args "SET_SOA".toList then
        { z with soa := ⟨joinStrFrom args " ".toList 2, args.getD 1 []⟩ }
      else if cmdMatch 2 args "SET_NS".toList then { z with ns := args.drop 1 }
      else z

/-- What some command lines do to it, one after the other. -/
def runs (z : Zone) (lines : List Str) : Zone := lines.foldl run z

theorem runs_append (z : Zone) (ls ms : List Str) : z.runs (ls ++ ms) = (z.runs ls).runs ms :=
  List.foldl_append

theorem run_of_command {line : Str} {cmd : DomainCommand} (h : domainCommand? line = some cmd) (z : Zone) :
    z.run line = { z with directory := (cmd.apply z.directory).2 } := by
  rw [run, h]

theorem directory_run {line : Str} {cmd : DomainCommand} (h : domainCommand? line = some cmd) (z : Zone) :
    (z.run line).directory = (cmd.apply z.directory).2 := by
  rw [run_of_command h]

end Zone

theorem zone_init (seed : ℕ) : (Globals.init seed).zone = Zone.init := rfl

/-! ### The refinement -/

/-- The zone in a registry. -/
def Registry.zone (r : Registry) : Zone := ⟨r.directory, r.soa, r.ns⟩

theorem zone_registry (g : Globals) : g.zone = g.registry.zone := rfl

/-- Counting does not show in the zone. -/
theorem Registry.directory_of_counts {r : Registry} {d : Str → Option GlbContainer}
    (h : ∀ f, (d f).map GlbContainer.domain = (r.domains f).map GlbContainer.domain) :
    ({ r with domains := d } : Registry).zone = r.zone := by
  have hdir : ({ r with domains := d } : Registry).directory = r.directory := funext h
  rw [zone, hdir]
  rfl

/-- A command does to the zone what its line does. -/
theorem zone_apply (line : Str) (r : Registry) : ((command line).apply r).zone = r.zone.run line := by
  cases hcmd : domainCommand? line with
  | some cmd =>
      rw [command, hcmd, Zone.run_of_command hcmd]
      show Zone.mk _ _ _ = Zone.mk _ _ _
      congr 1
      exact cmd.domains_applyTo r.domains
  | none =>
      rw [command, Zone.run, hcmd]
      rcases htok : splitStr line " ".toList with _ | ⟨name, args⟩
      · exact absurd htok (splitStr_ne_nil _ _)
      simp only
      have hquiet : ∀ {expected : Str}, name = expected → expected ≠ "SET_SOA".toList →
          expected ≠ "SET_NS".toList → ∀ cmd : Command, (cmd.apply r).zone = r.zone →
          (cmd.apply r).zone = if cmdMatch 3 (name :: args) "SET_SOA".toList then
            { r.zone with soa := ⟨joinStrFrom (name :: args) " ".toList 2, (name :: args).getD 1 []⟩ }
            else if cmdMatch 2 (name :: args) "SET_NS".toList then { r.zone with ns := (name :: args).drop 1 }
            else r.zone := by
        rintro expected rfl hsoa hns cmd hzone
        rw [cmdMatch_ne hsoa, cmdMatch_ne hns]
        exact hzone
      by_cases h1 : name = "DEBUG_DOMAINS".toList
      · rw [if_pos h1]
        exact hquiet h1 (by decide) (by decide) (.debug _ _) rfl
      by_cases h2 : name = "COUNTS".toList
      · rw [if_neg h1, if_pos h2]
        exact hquiet h2 (by decide) (by decide) (.counts _) rfl
      by_cases h3 : name = "CLR_COUNTS".toList
      · rw [if_neg h1, if_neg h2, if_pos h3]
        refine hquiet h3 (by decide) (by decide) (.clear _) (Registry.directory_of_counts fun f => ?_)
        split_ifs
        · cases r.domains f <;> rfl
        · rfl
      rw [if_neg h1, if_neg h2, if_neg h3]
      by_cases h4 : name = "SET_SOA".toList
      · subst h4
        rw [if_pos rfl]
        rcases args with _ | ⟨base, _ | ⟨s, rest⟩⟩ <;> rfl
      rw [if_neg h4, cmdMatch_ne h4]
      by_cases h5 : name = "SET_NS".toList
      · subst h5
        rw [if_pos rfl]
        rcases args with _ | ⟨n, rest⟩ <;> rfl
      rw [if_neg h5, cmdMatch_ne h5]
      rfl

/-- **The refinement.**  A command line, run alone, acts on the zone as `Zone.run` says. -/
theorem dispatch_zone (ord : MapOrder) {g : Globals} (hg : g.WellFormed) (line : Str) :
    ∃ out g', (dispatch ord line).run g = some (out, g') ∧ g'.WellFormed ∧ g'.zone = g.zone.run line := by
  obtain ⟨g', hrun, hg', hregistry⟩ := dispatch_registry ord hg line
  refine ⟨_, g', hrun, hg', ?_⟩
  rw [zone_registry, hregistry, zone_apply, zone_registry]

/-- **Lines, run alone one after the other**, act on the zone as their fold. -/
theorem processLines_zone (ord : MapOrder) {g : Globals} (hg : g.WellFormed) (lines : List Str) :
    ∃ outs g', (processLines ord lines).run g = some (outs, g') ∧ g'.WellFormed ∧
      g'.zone = g.zone.runs lines := by
  induction lines generalizing g with
  | nil => exact ⟨[], g, rfl, hg, rfl⟩
  | cons line lines ih =>
      obtain ⟨out, g₁, hrun, hg₁, hzone⟩ := dispatch_zone ord hg line
      obtain ⟨outs, g', hrest, hg', hzone'⟩ := ih hg₁
      refine ⟨out ++ outs, g', ?_, hg', ?_⟩
      · simp only [processLines, bind_eq, run_bind, hrun, Option.bind_some, hrest, run_ret]
      · rw [hzone', hzone]
        rfl

/-! ### Requests one at a time -/

/-- What a request does to the zone: a query does nothing. -/
def Zone.serve (z : Zone) : Request → Zone
  | .command line => z.run line
  | .query _ _ _ _ _ => z

/-- Of a request the zone sees what its line does. -/
theorem zone_serve (req : Request) (r : Registry) : (r.serve req).zone = r.zone.serve req := by
  cases req with
  | command line => exact zone_apply line r
  | query type qdomain n rr b =>
      show (r.lookedUp type (lower qdomain)).zone = r.zone
      rw [Registry.lookedUp]
      split_ifs
      · refine Registry.directory_of_counts fun f => ?_
        rw [Function.update_apply]
        split_ifs with hf
        · rw [hf]
          cases r.domains (lower qdomain) <;> rfl
        · rfl
      · rfl

section Served

variable {ord : MapOrder} {rnd : Randomness} {g g' : Globals} {rs : List (Request × Reply)}

theorem serve_zone (hg : g.WellFormed) {req : Request} {reply : Reply}
    (hrun : (GlbBackend.serve ord rnd req).run g = some (reply, g')) :
    g'.WellFormed ∧ g'.zone = g.zone.serve req := by
  obtain ⟨hg', hregistry⟩ := serve_registry hg hrun
  refine ⟨hg', ?_⟩
  rw [zone_registry, hregistry, zone_serve, zone_registry]

/-- **The zone after requests** is the fold of what each does. -/
theorem Served.zone (hg : g.WellFormed) (h : Served ord rnd g rs g') :
    g'.WellFormed ∧ g'.zone = (rs.map Prod.fst).foldl Zone.serve g.zone := by
  induction h with
  | nil g => exact ⟨hg, rfl⟩
  | cons hrun _ ih =>
      obtain ⟨hg₁, hzone⟩ := serve_zone hg hrun
      obtain ⟨hg₂, hzone'⟩ := ih hg₁
      rw [hzone] at hzone'
      exact ⟨hg₂, hzone'⟩

end Served

/-! ### The SOA container and the NS list -/

/-- Does the dispatcher hand the line to `setSOA`? -/
def isSetSOA (line : Str) : Bool := cmdMatch 3 (splitStr line " ".toList) "SET_SOA".toList

/-- Does the dispatcher hand the line to `setNS`? -/
def isSetNS (line : Str) : Bool := cmdMatch 2 (splitStr line " ".toList) "SET_NS".toList

/-- A line with another name is no domain command. -/
theorem domainCommand?_of_cmdMatch {line name : Str} {n : ℕ}
    (h : cmdMatch n (splitStr line " ".toList) name = true)
    (hname : name ≠ "ADD_DOMAIN".toList ∧ name ≠ "DEL_DOMAIN".toList ∧ name ≠ "SNAPSHOT".toList ∧
      name ≠ "CLR_DOMAINS".toList) : domainCommand? line = none := by
  obtain ⟨hadd, hdel, hsnap, hclr⟩ := hname
  rw [domainCommand?]
  rcases htok : splitStr line " ".toList with _ | ⟨cmd, args⟩
  · rfl
  · have hcmd : cmd = name := by
      by_contra hne
      rw [htok, cmdMatch_ne hne] at h
      exact Bool.false_ne_true h
    simp only
    rw [hcmd, if_neg hadd, if_neg hdel, if_neg hsnap, if_neg hclr]

/-- The SOA container changes with a `SET_SOA` only. -/
theorem Zone.run_soa (z : Zone) (line : Str) :
    (z.run line).soa = if isSetSOA line = true then
      ⟨joinStrFrom (splitStr line " ".toList) " ".toList 2, (splitStr line " ".toList).getD 1 []⟩
      else z.soa := by
  rw [isSetSOA, Zone.run]
  by_cases h : cmdMatch 3 (splitStr line " ".toList) "SET_SOA".toList = true
  · rw [domainCommand?_of_cmdMatch h (by decide)]
    simp only [if_pos h]
  · split
    · exact (if_neg h).symm
    · simp only [if_neg h]
      split_ifs <;> rfl

/-- The NS list changes with a `SET_NS` only. -/
theorem Zone.run_ns (z : Zone) (line : Str) :
    (z.run line).ns = if isSetNS line = true then (splitStr line " ".toList).drop 1 else z.ns := by
  rw [isSetNS, Zone.run]
  by_cases h : cmdMatch 2 (splitStr line " ".toList) "SET_NS".toList = true
  · have hsoa : ¬ cmdMatch 3 (splitStr line " ".toList) "SET_SOA".toList = true := by
      rw [cmdMatch_other h (by decide)]
      exact Bool.false_ne_true
    rw [domainCommand?_of_cmdMatch h (by decide)]
    simp only [if_neg hsoa, if_pos h]
  · split
    · exact (if_neg h).symm
    · simp only [if_neg h]
      split_ifs <;> rfl

/-- What no line among the requests changes is as before. -/
theorem foldl_serve_unchanged {β : Type} (read : Zone → β) {reqs : List Request}
    (hnot : ∀ line, Request.command line ∈ reqs → ∀ z : Zone, read (z.run line) = read z) (z : Zone) :
    read (reqs.foldl Zone.serve z) = read z := by
  induction reqs generalizing z with
  | nil => rfl
  | cons req reqs ih =>
      rw [List.foldl_cons, ih fun line hline => hnot line (List.mem_cons_of_mem req hline)]
      cases req with
      | command line => exact hnot line List.mem_cons_self z
      | query type qdomain n rr b => rfl

end GlbBackend
