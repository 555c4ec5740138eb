import GlbBackend.Zone

/-!
# What a domain's record list is

`snapshotsSince f lines` reads off the lines of a run which `SNAPSHOT` commands the domain `f` has got since
the `ADD_DOMAIN` that created it.  `Tracks` ties that history to the directory and is kept by every line, so
after every run the stored list is the concatenation of the records of all of them: `setIPs` pushes behind
what is there and never clears (`Tracks.run`, `Tracks.runs`).

A `SNAPSHOT` is to set the list, as `SET_SOA` and `SET_NS` set their values.  It does exactly when the
snapshots before the last one had no decodable entry (`snapshot_sets_iff`).
-/

namespace GlbBackend

open Text Concurrent Concurrent.Proc Globals

/-! ### The history of a domain -/

/-- The entries of the snapshots of a domain since its creation, `none` while there is no domain, after one
more line. -/
def snapshotsAfter (f : Str) (history : Option (List (List Str))) (line : Str) :
    Option (List (List Str)) :=
  match domainCommand? line with
  | some (.add fqdn algoName) =>
      if fqdn = f ∧ ¬ strToGlbType algoName < 0 then some (history.getD []) else history
  | some (.del fqdn) => if fqdn = f then none else history
  | some (.snapshot fqdn entries) => if fqdn = f then history.map (· ++ [entries]) else history
  | some .clear => none
  | _ => history

/-- The entries of the snapshots of a domain since its creation, in a run of some lines. -/
def snapshotsSince (f : Str) (lines : List Str) : Option (List (List Str)) :=
  lines.foldl (snapshotsAfter f) none

/-- The directory is what the history says of the domain: its records are those of all the snapshots. -/
def Tracks (f : Str) : Option (List (List Str)) → Directory → Prop
  | none, d => d f = none
  | some snaps, d => ∃ algorithm, d f = some ⟨algorithm, snaps.flatMap DomainCommand.records⟩

section Tracks

variable {f : Str} {history : Option (List (List Str))} {z : Zone}

/-- A line that is not about the domain. -/
theorem Tracks.of_eq {d d' : Directory} (h : Tracks f history d) (heq : d' f = d f) :
    Tracks f history d' := by
  cases history with
  | none => exact heq.trans h
  | some snaps =>
      obtain ⟨algorithm, hd⟩ := h
      exact ⟨algorithm, heq.trans hd⟩

theorem Tracks.eq_none {d : Directory} (h : Tracks f history d) (hd : d f = none) : history = none := by
  cases history with
  | none => rfl
  | some snaps =>
      obtain ⟨algorithm, hsome⟩ := h
      rw [hd] at hsome
      cases hsome

theorem Tracks.eq_some {d : Directory} (h : Tracks f history d) (hd : (d f).isSome = true) :
    ∃ snaps, history = some snaps := by
  cases history with
  | none =>
      rw [show d f = none from h] at hd
      cases hd
  | some snaps => exact ⟨snaps, rfl⟩

/-- **One line** keeps the history and the directory together. -/
theorem Tracks.run (h : Tracks f history z.directory) (line : Str) :
    Tracks f (snapshotsAfter f history line) (z.run line).directory := by
  cases hcmd : domainCommand? line with
  | none =>
      rw [snapshotsAfter, Zone.run, hcmd]
      apply h.of_eq
      simp only
      split_ifs <;> rfl
  | some cmd =>
      rw [Zone.run_of_command hcmd, snapshotsAfter, hcmd]
      show Tracks f _ (cmd.apply z.directory).2
      cases cmd.effect f z.directory with
      | @created algoName hknown hfree happly =>
          obtain rfl := h.eq_none hfree
          rw [happly]
          show Tracks f (if f = f ∧ ¬ strToGlbType algoName < 0 then some [] else none) _
          rw [if_pos ⟨rfl, hknown⟩]
          exact ⟨_, Function.update_self _ _ _⟩
      | @refused algoName hrefused happly =>
          rw [happly]
          simp only
          split_ifs with hadd
          · obtain ⟨snaps, rfl⟩ := h.eq_some (hrefused.resolve_left hadd.2)
            exact h
          · exact h
      | removed hfound happly =>
          rw [happly]
          simp only [if_true]
          exact Function.update_self _ _ _
      | notFound hfree happly =>
          rw [happly]
          simp only [if_true]
          exact hfree
      | @filled entries x hfound happly =>
          rw [happly]
          simp only [if_true]
          obtain ⟨snaps, rfl⟩ := h.eq_some (by rw [hfound]; rfl)
          obtain ⟨algorithm, hd⟩ := h
          obtain rfl := Option.some.inj (hfound.symm.trans hd)
          refine ⟨algorithm, (Function.update_self _ _ _).trans ?_⟩
          rw [List.flatMap_append, List.flatMap_singleton]
      | notFilled hfree happly =>
          obtain rfl := h.eq_none hfree
          rw [happly]
          simp only [if_true]
          exact h
      | cleared => rfl
      | other hclear hf happly =>
          -- the history does not see a command about another name
          have hsame : Tracks f history (cmd.apply z.directory).2 := h.of_eq happly
          cases cmd <;> simp_all [DomainCommand.subject]

/-- **Every run** does. -/
theorem Tracks.runs (h : Tracks f history z.directory) (lines : List Str) :
    Tracks f (lines.foldl (snapshotsAfter f) history) (z.runs lines).directory := by
  induction lines generalizing history z with
  | nil => exact h
  | cons line lines ih => exact ih (h.run line)

end Tracks

/-! ### Setting and accumulating -/

/-- What a list of snapshots amounts to is its last one exactly when the others hold no record. -/
theorem flatMap_eq_last_iff {α β : Type} (records : List α → List β) (hnil : records [] = [])
    (snaps : List (List α)) :
    snaps.flatMap records = records (snaps.getLast?.getD []) ↔ ∀ es ∈ snaps.dropLast, records es = [] := by
  rcases List.eq_nil_or_concat snaps with rfl | ⟨init, last, rfl⟩
  · simp [hnil]
  · rw [List.concat_eq_append, List.flatMap_append, List.flatMap_singleton, List.getLast?_concat,
      List.dropLast_concat, Option.getD_some, List.append_left_eq_self, List.flatMap_eq_nil_iff]

theorem records_eq_nil_iff (entries : List Str) :
    DomainCommand.records entries = [] ↔ ∀ t ∈ entries, decodeEntry t = none :=
  List.filterMap_eq_nil_iff

/-- The stored records after some lines are those of all the snapshots since the creation. -/
theorem stored_eq (ord : MapOrder) {seed : ℕ} {lines outs : List Str} {g : Globals}
    (hrun : (processLines ord lines).run (init seed) = some (outs, g)) {f : Str} {c : GlbContainer}
    (hc : g.lookupContainer f = some c) :
    ∃ snaps, snapshotsSince f lines = some snaps ∧ c.ips = snaps.flatMap DomainCommand.records := by
  obtain ⟨outs', g', hrun', -, hzone⟩ := processLines_zone ord (wellFormed_init seed) lines
  obtain ⟨-, rfl⟩ := Prod.mk.inj (Option.some.inj (hrun.symm.trans hrun'))
  have htracks : Tracks f (snapshotsSince f lines) (Zone.init.runs lines).directory :=
    Tracks.runs (show Tracks f none Zone.init.directory from rfl) lines
  have hdir : g.directory f = some c.domain := by
    rw [directory, hc, Option.map_some]
  rw [← zone_init seed, ← hzone] at htracks
  cases hs : snapshotsSince f lines with
  | none =>
      rw [hs] at htracks
      exact absurd (htracks.symm.trans hdir) (Option.some_ne_none _).symm
  | some snaps =>
      rw [hs] at htracks
      obtain ⟨algorithm, hd⟩ := htracks
      refine ⟨snaps, rfl, ?_⟩
      exact congrArg Domain.records (Option.some.inj (hdir.symm.trans hd))

/-- A `SNAPSHOT`, sent some times. -/
theorem runs_replicate_snapshot {f line : Str} {entries : List Str}
    (hcmd : domainCommand? line = some (.snapshot f entries)) (n : ℕ) {z : Zone} {x : Domain}
    (hx : z.directory f = some x) :
    (z.runs (List.replicate n line)).directory f = some { x with
      records := x.records ++ (List.replicate n (DomainCommand.records entries)).flatten } := by
  induction n generalizing z x with
  | zero =>
      rw [List.replicate_zero, List.replicate_zero, List.flatten_nil, List.append_nil]
      exact hx
  | succ n ih =>
      have hfill : (z.run line).directory f
          = some { x with records := x.records ++ DomainCommand.records entries } := by
        rw [Zone.run_of_command hcmd, DomainCommand.apply, Directory.fill_of_some _ hx]
        exact Function.update_self _ _ _
      rw [List.replicate_succ, List.replicate_succ, List.flatten_cons, ← List.append_assoc]
      exact ih hfill

/-- **When a `SNAPSHOT` sets.**  After every run of command lines and for every mapped domain, the stored
list is the list of decodable entries of the last `SNAPSHOT` since the domain was created if and only if no
earlier one had a decodable entry; and sending a `SNAPSHOT` twice leaves what sending it once leaves if and
only if it has no decodable entry. -/
theorem snapshot_sets_iff (ord : MapOrder) {seed : ℕ} {lines outs : List Str} {g : Globals}
    (hrun : (processLines ord lines).run (init seed) = some (outs, g)) {f : Str} {c : GlbContainer}
    (hc : g.lookupContainer f = some c) :
    (∃ snaps, snapshotsSince f lines = some snaps ∧
      (c.ips = (snaps.getLast?.getD []).filterMap decodeEntry ↔
        ∀ entries ∈ snaps.dropLast, ∀ t ∈ entries, decodeEntry t = none)) ∧
    ∀ line entries, domainCommand? line = some (.snapshot f entries) →
      ∃ outs₁ g₁ c₁ outs₂ g₂ c₂,
        (processLines ord (lines ++ [line])).run (init seed) = some (outs₁, g₁) ∧
        g₁.lookupContainer f = some c₁ ∧
        (processLines ord (lines ++ [line, line])).run (init seed) = some (outs₂, g₂) ∧
        g₂.lookupContainer f = some c₂ ∧
        (c₂.ips = c₁.ips ↔ ∀ t ∈ entries, decodeEntry t = none) := by
  obtain ⟨snaps, hs, hips⟩ := stored_eq ord hrun hc
  refine ⟨⟨snaps, hs, ?_⟩, fun line entries hcmd => ?_⟩
  · rw [hips]
    refine (flatMap_eq_last_iff DomainCommand.records rfl snaps).trans ?_
    simp only [records_eq_nil_iff]
  · have hdir : g.directory f = some c.domain := by
      rw [directory, hc, Option.map_some]
    obtain ⟨outs', g', hrun', -, hzone⟩ := processLines_zone ord (wellFormed_init seed) lines
    obtain ⟨-, rfl⟩ := Prod.mk.inj (Option.some.inj (hrun.symm.trans hrun'))
    -- one more snapshot, or two
    have hmore : ∀ n : ℕ, ∃ outs' g' c', (processLines ord (lines ++ List.replicate n line)).run (init seed)
        = some (outs', g') ∧ g'.lookupContainer f = some c' ∧
        c'.ips = c.ips ++ (List.replicate n (DomainCommand.records entries)).flatten := by
      intro n
      obtain ⟨outs', g', hrun', -, hzone'⟩ :=
        processLines_zone ord (wellFormed_init seed) (lines ++ List.replicate n line)
      rw [Zone.runs_append, ← hzone] at hzone'
      have hstored := runs_replicate_snapshot hcmd n (show g.zone.directory f = some c.domain from hdir)
      rw [← hzone'] at hstored
      obtain ⟨c', hc', hdomain⟩ := Option.map_eq_some_iff.mp (show g'.directory f = _ from hstored)
      exact ⟨outs', g', c', hrun', hc', congrArg Domain.records hdomain⟩
    obtain ⟨outs₁, g₁, c₁, hrun₁, hc₁, hips₁⟩ := hmore 1
    obtain ⟨outs₂, g₂, c₂, hrun₂, hc₂, hips₂⟩ := hmore 2
    refine ⟨outs₁, g₁, c₁, outs₂, g₂, c₂, hrun₁, hc₁, hrun₂, hc₂, ?_⟩
    rw [hips₁, hips₂, ← records_eq_nil_iff]
    simp

/-- Two snapshots of a domain; the second does not replace the first. -/
def twoSnapshots : List Str :=
  ["ADD_DOMAIN a NONE".toList, "SNAPSHOT a 4-60-1.1.1.1-x".toList, "SNAPSHOT a 4-60-2.2.2.2-x".toList]

theorem snapshot_sets_iff_twoSnapshots :
    ∃ outs g c, (processLines MapOrder.entries twoSnapshots).run (init 0) = some (outs, g) ∧
      g.lookupContainer "a".toList = some c ∧
      ∃ snaps, snapshotsSince "a".toList twoSnapshots = some snaps ∧
        (c.ips = (snaps.getLast?.getD []).filterMap decodeEntry ↔
          ∀ entries ∈ snaps.dropLast, ∀ t ∈ entries, decodeEntry t = none) := by
  obtain ⟨outs, g, c, hrun, hc⟩ : ∃ outs g c,
      (processLines MapOrder.entries twoSnapshots).run (init 0) = some (outs, g) ∧
        g.lookupContainer "a".toList = some c := ⟨_, _, _, rfl, rfl⟩
  exact ⟨outs, g, c, hrun, hc, (snapshot_sets_iff MapOrder.entries hrun hc).1⟩

/-- **A `SNAPSHOT` does not set**: after two, the address that is missing from the newest is still stored. -/
theorem snapshot_accumulates :
    ¬ ∀ (ord : MapOrder) (seed : ℕ) (lines outs : List Str) (g : Globals) (f : Str) (c : GlbContainer)
      (snaps : List (List Str)), (processLines ord lines).run (init seed) = some (outs, g) →
      g.lookupContainer f = some c → snapshotsSince f lines = some snaps →
      c.ips = (snaps.getLast?.getD []).filterMap decodeEntry := by
  intro h
  have hset := h MapOrder.entries 0 twoSnapshots _ _ "a".toList _ _ rfl rfl rfl
  exact absurd hset (by decide)

end GlbBackend
