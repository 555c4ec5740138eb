import GlbBackend.Requests

/-!
# A `SNAPSHOT` reports what it did

What one `SNAPSHOT` line does to the whole state, and what its reply says about every entry token.  The loop
of the handler runs the decoder of the source on each token with the variables that the token before left;
`accepted` is what the decoder makes of a token on its own, and the report is about that.
-/

namespace GlbBackend

open Text Concurrent Concurrent.Proc Globals

/-! ### The decoder on one token -/

/-- The record that `decodeIP` leaves in fresh variables, if it accepts the token. -/
def accepted (token : Str) : Option IPRecord :=
  (decodeIP token IpVars.init).bind fun (ok, v) =>
    if ok then some ⟨v.ipType, v.ipAddr, v.ipTTL⟩ else none

theorem accepted_eq (token : Str) : accepted token = decodeEntry token := by
  obtain ⟨v, hv, hsome, -⟩ := decodeIP_spec token IpVars.init
  rw [accepted, hv, Option.bind_some]
  cases hd : decodeEntry token with
  | none => rfl
  | some r => exact congrArg some (hsome r hd).symm

/-- **Nothing is left over**: what the decoder makes of a token does not depend on the variables it finds. -/
theorem decodeIP_accepted (token : Str) (v : IpVars) :
    ∃ v', decodeIP token v = some ((accepted token).isSome, v') ∧
      ∀ r, accepted token = some r → r = ⟨v'.ipType, v'.ipAddr, v'.ipTTL⟩ := by
  obtain ⟨v', hv, hsome, -⟩ := decodeIP_spec token v
  rw [accepted_eq]
  exact ⟨v', hv, hsome⟩

theorem entryError_ne_nil (token : Str) : entryError token ≠ [] := by
  rw [entryError]
  split
  · split_ifs <;> decide
  · decide

/-- The reply's element for a token shows the token, with an error if and only if it was rejected. -/
theorem entryReport_eq (token : Str) :
    (entryReport token).ip = token ∧ (entryReport token).hasError = (accepted token).isNone := by
  rw [entryReport, accepted_eq]
  cases decodeEntry token with
  | none => exact ⟨by simp [entryError_ne_nil], by simp [entryError_ne_nil]⟩
  | some r => exact ⟨rfl, rfl⟩

/-! ### The whole command -/

/-- The reply of a `SNAPSHOT` that found its domain. -/
structure ReportsEntries (jb : ServerJsonBuilder) (entries : List Str) : Prop where
  /-- One element for each token, in order, with an error for the rejected ones. -/
  ips : jb.ips.map (fun e => (e.ip, e.hasError)) = entries.map fun t => (t, (accepted t).isNone)
  /-- They are written, if there are any. -/
  hasIps : jb.hasIps = !entries.isEmpty
  status : jb.status = if ∀ t ∈ entries, (accepted t).isSome = true then "PASSED".toList else "FAILED".toList
  hasStatus : jb.hasStatus = true

theorem reportsEntries (fqdn : Str) (entries : List Str) :
    ReportsEntries ((DomainCommand.snapshot fqdn entries).reply true) entries := by
  rw [DomainCommand.reply]
  simp only [foldl_reportEntry, if_true]
  refine ⟨?_, ?_, ?_, rfl⟩
  · show (entries.map entryReport).map _ = _
    rw [List.map_map]
    refine List.map_congr_left fun t _ => ?_
    obtain ⟨h1, h2⟩ := entryReport_eq t
    show ((entryReport t).ip, (entryReport t).hasError) = _
    rw [h1, h2]
  · show (false || !entries.isEmpty) = _
    rw [Bool.false_or]
  · show (if (entries.all fun t => (decodeEntry t).isSome) = true then _ else _) = _
    simp only [List.all_eq_true, accepted_eq]

/-- The records that the accepted tokens stand for. -/
theorem records_eq (entries : List Str) : DomainCommand.records entries = entries.filterMap accepted := by
  rw [DomainCommand.records, show accepted = decodeEntry from funext accepted_eq]

section Run

variable {g : Globals} {line fqdn : Str} {entries : List Str}

theorem run_snapshot_unmapped (htok : splitStr line " ".toList = "SNAPSHOT".toList :: fqdn :: entries)
    (hf : g.find fqdn = none) :
    (snapshotDomain line).run g
      = some ([((DomainCommand.snapshot fqdn entries).reply false).toJson], g) := by
  rw [snapshotDomain_eq htok, DomainCommand.code, run_bind, run_findSection, Option.bind_some, hf]
  rfl

theorem run_snapshot_mapped (htok : splitStr line " ".toList = "SNAPSHOT".toList :: fqdn :: entries)
    {p : Ptr} (hf : g.find fqdn = some p) :
    (snapshotDomain line).run g
      = some ([((DomainCommand.snapshot fqdn entries).reply true).toJson],
          g.update p (·.setIPs (entries.filterMap accepted))) := by
  rw [snapshotDomain_eq htok, DomainCommand.code, run_bind, run_findSection, Option.bind_some, hf,
    ← records_eq]
  simp only [DomainCommand.filling, run_bind, run_setIPs, Option.bind_some, run_ret]
  rfl

/-- A line with the command's name and one argument is handed to the handler. -/
theorem dispatch_snapshot (ord : MapOrder)
    (htok : splitStr line " ".toList = "SNAPSHOT".toList :: fqdn :: entries) :
    dispatch ord line = snapshotDomain line := by
  have hcmd : domainCommand? line = some (.snapshot fqdn entries) := by
    rw [domainCommand?, htok]
    rfl
  rw [dispatch_eq_code ord hcmd, snapshotDomain_eq htok]

end Run

/-- **A `SNAPSHOT` reports exactly what it did.**  In every reachable state, a line that the dispatch hands
to the handler does nothing but fail if its name is not mapped.  Otherwise the records of the accepted
tokens, in order, go to the container of the name and nothing else of the state changes, and the reply has an
element for each token, with an error for the rejected ones, and says whether there were any. -/
theorem snapshot_reports (ord : MapOrder) (rnd : Randomness) {g : Globals} (hg : g.Reachable ord rnd)
    {line : Str} (hmatch : cmdMatch 2 (splitStr line " ".toList) "SNAPSHOT".toList = true) :
    dispatch ord line = snapshotDomain line ∧
    ∃ fqdn entries, splitStr line " ".toList = "SNAPSHOT".toList :: fqdn :: entries ∧
      (∀ t v, ∃ v', decodeIP t v = some ((accepted t).isSome, v') ∧
        ∀ r, accepted t = some r → r = ⟨v'.ipType, v'.ipAddr, v'.ipTTL⟩) ∧
      (g.find fqdn = none → ∃ jb : ServerJsonBuilder, (snapshotDomain line).run g = some ([jb.toJson], g) ∧
        jb.status = "FAILED".toList ∧ jb.hasStatus = true) ∧
      ∀ p, g.find fqdn = some p → ∃ (jb : ServerJsonBuilder) (g' : Globals) (c : GlbContainer),
        (snapshotDomain line).run g = some ([jb.toJson], g') ∧
        ReportsEntries jb entries ∧ g.container p = some c ∧
        g'.container p = some { c with ips := c.ips ++ entries.filterMap accepted } ∧
        (∀ q, q ≠ p → g'.container q = g.container q) ∧ g'.glbMap = g.glbMap ∧
        g'.globalSOA = g.globalSOA ∧ g'.vectors = g.vectors ∧ g'.globalNsRecords = g.globalNsRecords ∧
        g'.rng = g.rng := by
  obtain ⟨fqdn, entries, htok⟩ := cmdMatch_two hmatch
  refine ⟨dispatch_snapshot ord htok, fqdn, entries, htok, decodeIP_accepted, fun hf => ?_, fun p hf => ?_⟩
  · exact ⟨_, run_snapshot_unmapped htok hf, rfl, rfl⟩
  · obtain ⟨c, hc, -⟩ := hg.wellFormed.mapped fqdn p hf
    refine ⟨_, _, c, run_snapshot_mapped htok hf, reportsEntries fqdn entries, hc, ?_, fun q hq => ?_, rfl,
      rfl, rfl, rfl, rfl⟩
    · rw [container_update, if_pos rfl, hc, Option.map_some, GlbContainer.setIPs_eq]
    · rw [container_update, if_neg hq]

/-- One token is accepted and one is not. -/
theorem snapshot_reports_mixed :
    ∃ (g g' : Globals) (jb : ServerJsonBuilder), g.Reachable MapOrder.entries Randomness.counting ∧
      (snapshotDomain "SNAPSHOT a 4-60-1.1.1.1-x 3-15-NOT_AN_IP-1".toList).run g = some ([jb.toJson], g') ∧
      ReportsEntries jb ["4-60-1.1.1.1-x".toList, "3-15-NOT_AN_IP-1".toList] := by
  obtain ⟨g, hg, hfind⟩ := exists_reachable_domain
  have hmatch : cmdMatch 2 (splitStr "SNAPSHOT a 4-60-1.1.1.1-x 3-15-NOT_AN_IP-1".toList " ".toList)
      "SNAPSHOT".toList = true := by decide
  obtain ⟨-, fqdn, entries, htok, -, -, hmapped⟩ :=
    snapshot_reports MapOrder.entries Randomness.counting hg hmatch
  have htokens : "SNAPSHOT".toList :: fqdn :: entries
      = ["SNAPSHOT".toList, "a".toList, "4-60-1.1.1.1-x".toList, "3-15-NOT_AN_IP-1".toList] :=
    htok.symm.trans rfl
  simp only [List.cons.injEq, true_and] at htokens
  obtain ⟨rfl, rfl⟩ := htokens
  obtain ⟨jb, g', -, hrun, hreport, -⟩ := hmapped 0 hfind
  exact ⟨g, g', jb, hg, hrun, hreport⟩

end GlbBackend
