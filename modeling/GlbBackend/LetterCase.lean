import GlbBackend.Zone

/-!
# Letter case

`lookup` searches in lower case: it lowers the queried name before it asks the map and before it compares
with the base domain.  `addDomain` and `setSOA` store their names as they come.  So a name is served in
every spelling exactly if it was stored in lower case (`addresses_iff`, `nsRecords_iff`), and what is stored
under any other name is served in no spelling at all.

`names_served_iff` says so about runs: a domain that was added with algorithm `NONE` and filled
(`Filled`), and a base domain that was set (`Based`).
-/

namespace GlbBackend

open Text Concurrent Concurrent.Proc Globals

/-! ### What a run stores -/

/-- What does not take a domain away keeps its algorithm and its records, and may put more behind them. -/
theorem serve_keeps {f : Str} {z : Zone} {x : Domain} (hx : z.directory f = some x) {req : Request}
    (hnot : ¬ TakesAway f req) :
    ∃ more, (z.serve req).directory f = some ⟨x.algorithm, x.records ++ more⟩ := by
  have hsame : ∀ {z' : Zone}, z'.directory f = z.directory f →
      ∃ more, z'.directory f = some ⟨x.algorithm, x.records ++ more⟩ := fun h =>
    ⟨[], by rw [h, hx, List.append_nil]⟩
  cases req with
  | query type qdomain n rr b => exact hsame rfl
  | command line =>
      show ∃ more, (z.run line).directory f = some ⟨x.algorithm, x.records ++ more⟩
      cases hcmd : domainCommand? line with
      | none =>
          apply hsame
          rw [Zone.run, hcmd]
          simp only
          split_ifs <;> rfl
      | some cmd =>
          rw [Zone.run_of_command hcmd]
          show ∃ more, (cmd.apply z.directory).2 f = some ⟨x.algorithm, x.records ++ more⟩
          cases cmd.effect f z.directory with
          | created hknown hfree => exact absurd (hfree.symm.trans hx) (by simp)
          | refused hrefused happly =>
              rw [happly]
              exact hsame rfl
          | removed hfound => exact absurd (Or.inl hcmd) hnot
          | notFound hfree => exact absurd (hfree.symm.trans hx) (by simp)
          | @filled entries y hfound happly =>
              obtain rfl := Option.some.inj (hx.symm.trans hfound)
              rw [happly]
              exact ⟨DomainCommand.records entries, Function.update_self _ _ _⟩
          | notFilled hfree => exact absurd (hfree.symm.trans hx) (by simp)
          | cleared => exact absurd (Or.inr hcmd) hnot
          | other hclear hf happly => exact ⟨[], happly.trans (by rw [hx, List.append_nil])⟩

/-- So do any number of such requests. -/
theorem foldl_serve_keeps {f : Str} {reqs : List Request} (hnot : ∀ req ∈ reqs, ¬ TakesAway f req)
    {z : Zone} {x : Domain} (hx : z.directory f = some x) :
    ∃ more, (reqs.foldl Zone.serve z).directory f = some ⟨x.algorithm, x.records ++ more⟩ := by
  induction reqs generalizing z x with
  | nil => exact ⟨[], by rw [List.append_nil]; exact hx⟩
  | cons req reqs ih =>
      obtain ⟨more, hmore⟩ := serve_keeps hx (hnot req List.mem_cons_self)
      obtain ⟨more', hmore'⟩ := ih (fun r hr => hnot r (List.mem_cons_of_mem req hr)) hmore
      exact ⟨more ++ more', by rw [← List.append_assoc]; exact hmore'⟩

/-- Among the requests are an `ADD_DOMAIN` of the name with algorithm `NONE` and, later, a `SNAPSHOT` of it
with decodable entries; both passed, and nothing has taken the domain away since. -/
def Filled (rs : List (Request × Reply)) (f : Str) (entries : List Str) : Prop :=
  ∃ before mid after addLine snapLine,
    rs = before ++ (.command addLine, .lines ((DomainCommand.add f "NONE".toList).answer true)) ::
      (mid ++ (.command snapLine, .lines ((DomainCommand.snapshot f entries).answer true)) :: after) ∧
    domainCommand? addLine = some (.add f "NONE".toList) ∧
    domainCommand? snapLine = some (.snapshot f entries) ∧
    (∀ t ∈ entries, (decodeEntry t).isSome = true) ∧
    ∀ r ∈ mid ++ after, ¬ TakesAway f r.1

section Stored

variable {ord : MapOrder} {rnd : Randomness} {g g' : Globals} {rs : List (Request × Reply)} {f : Str}

/-- An `ADD_DOMAIN` that passed has made the domain. -/
theorem directory_of_added (hg : g.WellFormed) {line algoName : Str} (ht : ¬ strToGlbType algoName < 0)
    (hcmd : domainCommand? line = some (.add f algoName))
    (hrun : (serve ord rnd (.command line)).run g
      = some (.lines ((DomainCommand.add f algoName).answer true), g')) :
    g'.directory f = some ⟨strToGlbType algoName, []⟩ := by
  obtain ⟨g₁, hline, -, hdir⟩ := dispatch_command ord hg hcmd
  simp only [serve, run_bind, hline, Option.bind_some, run_ret] at hrun
  obtain ⟨hreply, rfl⟩ := Prod.mk.inj (Option.some.inj hrun)
  injection hreply with hreply
  rw [DomainCommand.apply, if_neg ht] at hreply hdir
  cases hd : g.directory f with
  | none =>
      rw [Directory.add_of_none _ hd] at hdir
      rw [hdir]
      exact Function.update_self _ _ _
  | some x =>
      -- the name was taken: the reply would have been another
      rw [Directory.add_of_some _ hd, DomainCommand.answer_add_true f ht] at hreply
      exact absurd hreply (DomainCommand.answer_add_false f algoName)

/-- **A filled domain is stored** with its algorithm and, among its records, those of the snapshot. -/
theorem Filled.stored {seed : ℕ} (hrun : Served ord rnd (init seed) rs g) {entries : List Str}
    (h : Filled rs f entries) :
    ∃ c, g.lookupContainer f = some c ∧ c.glbType = GlbType.NONE ∧
      entries.filterMap decodeEntry <:+: c.ips := by
  obtain ⟨before, mid, after, addLine, snapLine, rfl, hadd, hsnap, -, hkept⟩ := h
  obtain ⟨g₁, h1, h2⟩ := hrun.split
  have hg₁ := (h1.zone (wellFormed_init seed)).1
  cases h2 with
  | @cons _ g₂ _ _ _ _ hrunAdd h3 =>
      have hadded := directory_of_added hg₁ (by decide) hadd hrunAdd
      have hzone := (h3.zone (serve_zone hg₁ hrunAdd).1).2
      rw [List.map_append, List.foldl_append, List.map_cons, List.foldl_cons] at hzone
      have hkeptMid : ∀ req ∈ mid.map Prod.fst, ¬ TakesAway f req := by
        intro req hreq
        obtain ⟨r, hr, rfl⟩ := List.mem_map.mp hreq
        exact hkept r (List.mem_append_left _ hr)
      have hkeptAfter : ∀ req ∈ after.map Prod.fst, ¬ TakesAway f req := by
        intro req hreq
        obtain ⟨r, hr, rfl⟩ := List.mem_map.mp hreq
        exact hkept r (List.mem_append_right _ hr)
      obtain ⟨pre, hmid⟩ :=
        foldl_serve_keeps hkeptMid (show g₂.zone.directory f = some _ from hadded)
      -- the snapshot puts its records behind those of the stretch before it
      have hfill : (((mid.map Prod.fst).foldl Zone.serve g₂.zone).serve (.command snapLine)).directory f
          = some ⟨GlbType.NONE, pre ++ entries.filterMap decodeEntry⟩ := by
        show (Zone.run _ snapLine).directory f = _
        rw [Zone.run_of_command hsnap, DomainCommand.apply, Directory.fill_of_some _ hmid]
        exact Function.update_self _ _ _
      obtain ⟨post, hlast⟩ := foldl_serve_keeps hkeptAfter hfill
      rw [← hzone] at hlast
      obtain ⟨c, hc, hdomain⟩ := Option.map_eq_some_iff.mp (show g.directory f = some _ from hlast)
      refine ⟨c, hc, congrArg Domain.algorithm hdomain, pre, post, ?_⟩
      exact (congrArg Domain.records hdomain).symm

end Stored

/-! ### Which spellings are served -/

section Spellings

variable {g : Globals} {f b : Str} {c : GlbContainer}

theorem qtype_of_mem_authorityAnswer {type : QType} {qdomain content base : Str} {ns : List Str}
    {rr : DNSResourceRecord} (h : rr ∈ authorityAnswer type qdomain content base ns) :
    rr.qtype = QType.SOA ∨ rr.qtype = QType.NS := by
  rcases mem_authorityAnswer.mp h with ⟨-, rfl⟩ | ⟨-, n, -, rfl⟩
  · exact Or.inl rfl
  · exact Or.inr rfl

theorem qtype_addressRR (qdomain : Str) (r : IPRecord) :
    ¬ ((addressRR qdomain r).qtype = QType.SOA ∨ (addressRR qdomain r).qtype = QType.NS) := by
  rw [addressRR]
  split_ifs
  · exact show ¬ (QType.A = QType.SOA ∨ QType.A = QType.NS) by decide
  · exact show ¬ (QType.AAAA = QType.SOA ∨ QType.AAAA = QType.NS) by decide

/-- In state `g` the query delivers, behind authority records only, exactly the stored records of the asked
families, and then nothing. -/
def ServesAddresses (rnd : Randomness) (g : Globals) (type : QType) (qdomain : Str)
    (stored : List IPRecord) : Prop :=
  ∀ b : GLBBackend, ∃ authority : List DNSResourceRecord,
    (∀ rr ∈ authority, rr.qtype = QType.SOA ∨ rr.qtype = QType.NS) ∧
    ∀ (n : ℕ) (rr : DNSResourceRecord), ∃ g', (query rnd type qdomain n rr b).run g
      = some (deliver n (authority ++ (stored.filter (Asked type)).map (addressRR qdomain)), g')

/-- A query serves what is stored under its name in lower case. -/
theorem servesAddresses_lower (hg : g.WellFormed) (rnd : Randomness) {type : QType}
    (hasks : AsksAddresses type) (qdomain : Str)
    (hnone : ∀ c, g.lookupContainer (lower qdomain) = some c → c.glbType = GlbType.NONE) :
    ServesAddresses rnd g type qdomain (((g.lookupContainer (lower qdomain)).map (·.ips)).getD []) := by
  intro b
  refine ⟨authorityAnswer type qdomain (loadedSOA b (lower qdomain) g.globalSOA) g.globalSOA.baseFQDN
    g.nsList, fun rr hrr => qtype_of_mem_authorityAnswer hrr, fun n rr => ?_⟩
  obtain ⟨g', hrun⟩ := query_run hg rnd type qdomain n rr b fun _ => hnone
  refine ⟨g', ?_⟩
  rw [hrun, Observation.answer, addressAnswer, if_pos hasks]
  rfl

/-- What a query serves is determined. -/
theorem ServesAddresses.filter_eq_nil {rnd : Randomness} {type : QType} {qdomain : Str}
    {stored : List IPRecord} (h : ServesAddresses rnd g type qdomain stored)
    (h' : ServesAddresses rnd g type qdomain []) : stored.filter (Asked type) = [] := by
  rw [List.eq_nil_iff_forall_not_mem]
  intro r hr
  obtain ⟨authority, -, hdeliver⟩ := h .new
  obtain ⟨authority', hqtype, hdeliver'⟩ := h' .new
  -- an address record, once enough calls are made, cannot be among authority records
  have hmem : addressRR qdomain r ∈ authority ++ (stored.filter (Asked type)).map (addressRR qdomain) :=
    List.mem_append_right _ (List.mem_map_of_mem hr)
  obtain ⟨g₁, hrun⟩ := hdeliver _ ⟨[], 0, [], 0, false, 0⟩
  obtain ⟨g₂, hrun'⟩ := hdeliver' _ ⟨[], 0, [], 0, false, 0⟩
  have hdelivered := mem_deliver_length hmem
  rw [(Prod.mk.inj (Option.some.inj (hrun.symm.trans hrun'))).1] at hdelivered
  have hmem' := mem_of_mem_deliver hdelivered
  rw [List.filter_nil, List.map_nil, List.append_nil] at hmem'
  exact qtype_addressRR qdomain r (hqtype _ hmem')

/-- **Addresses**: a `NONE` domain whose name no other key differs from in case only is served in every
spelling exactly if its name is in lower case or nothing is stored. -/
theorem addresses_iff (hg : g.WellFormed) (rnd : Randomness) (hc : g.lookupContainer f = some c)
    (htype : c.glbType = GlbType.NONE)
    (hunique : ∀ f', lower f' = lower f → (g.find f').isSome = true → f' = f) :
    (∀ q, lower q = lower f → ∀ type, AsksAddresses type → ServesAddresses rnd g type q c.ips) ↔
      lower f = f ∨ c.ips = [] := by
  have hnone : ∀ q, lower q = lower f → ∀ c', g.lookupContainer (lower q) = some c' →
      lower f = f ∧ c' = c := by
    intro q hq c' hc'
    have hmapped : (g.find (lower q)).isSome = true := by
      rw [← hg.directory_isSome, directory, hc']
      rfl
    have hqf := hunique (lower q) (by rw [lower_lower, hq]) hmapped
    rw [hqf] at hc'
    exact ⟨by rw [← hq, hqf], Option.some.inj (hc'.symm.trans hc)⟩
  have hserves : ∀ q, lower q = lower f → ∀ type, AsksAddresses type → ServesAddresses rnd g type q
      (((g.lookupContainer (lower q)).map (·.ips)).getD []) := fun q hq type hasks =>
    servesAddresses_lower hg rnd hasks q fun c' hc' => by rw [(hnone q hq c' hc').2, htype]
  constructor
  · intro h
    by_contra hnot
    obtain ⟨hcase, hips⟩ := not_or.mp hnot
    have hunmapped : g.lookupContainer (lower f) = none := by
      rw [Option.eq_none_iff_forall_ne_some]
      exact fun c' hc' => hcase (hnone f rfl c' hc').1
    have hempty := hserves f rfl QType.ANY (Or.inr (Or.inr rfl))
    rw [hunmapped] at hempty
    have hfilter := (h f rfl QType.ANY (Or.inr (Or.inr rfl))).filter_eq_nil hempty
    -- every record is of a family that `ANY` asks for
    rw [List.filter_eq_self.mpr fun r _ => by simp [Asked]] at hfilter
    exact hips hfilter
  · intro h q hq type hasks
    have hq' := hserves q hq type hasks
    cases hmapped : g.lookupContainer (lower q) with
    | some c' =>
        rw [hmapped, (hnone q hq c' hmapped).2] at hq'
        exact hq'
    | none =>
        rcases h with hcase | hips
        · rw [hq, hcase, hc] at hmapped
          exact absurd hmapped (by simp)
        · rw [hmapped] at hq'
          rw [hips]
          exact hq'

/-- A case variant of the base domain, or a name below one. -/
def UnderVariant (base q : Str) : Prop :=
  lower q = lower base ∨ ∃ pre base', q = pre ++ '.' :: base' ∧ lower base' = lower base

/-- In state `g` an NS query for the name delivers exactly the NS records of the base domain. -/
def ServesNS (rnd : Randomness) (g : Globals) (base qdomain : Str) : Prop :=
  ∀ (b : GLBBackend) (n : ℕ) (rr : DNSResourceRecord), ∃ g', (query rnd QType.NS qdomain n rr b).run g
    = some (deliver n (g.nsList.map (nsRR base)), g')

/-- An NS query delivers the NS list if its name in lower case is under the base domain as stored. -/
theorem ns_query_run (hg : g.WellFormed) (rnd : Randomness) (hbase : g.globalSOA.baseFQDN = b)
    (qdomain : Str) (n : ℕ) (rr : DNSResourceRecord) (bk : GLBBackend) :
    ∃ g', (query rnd QType.NS qdomain n rr bk).run g
      = some (deliver n (if matchesBaseFqdn (lower qdomain) b then g.nsList.map (nsRR b) else []), g') := by
  obtain ⟨g', hrun⟩ := query_run hg rnd QType.NS qdomain n rr bk fun h => absurd h (by decide)
  refine ⟨g', ?_⟩
  have haddresses : ¬ AsksAddresses QType.NS := by decide
  have hsoa : ¬ QType.NS = QType.SOA := by decide
  have hns : AsksNS QType.NS := Or.inl rfl
  rw [hrun, Observation.answer, authorityAnswer, addressAnswer, if_neg haddresses, if_neg hsoa,
    List.nil_append, List.append_nil]
  show some (deliver n (if AsksNS QType.NS ∧ matchesBaseFqdn (lower qdomain) g.globalSOA.baseFQDN = true then
    g.nsList.map (nsRR g.globalSOA.baseFQDN) else []), g') = _
  rw [hbase]
  simp only [hns, true_and]

/-- **NS records**: the base domain is served in every spelling exactly if it is stored in lower case. -/
theorem nsRecords_iff (hg : g.WellFormed) (rnd : Randomness) (hbase : g.globalSOA.baseFQDN = b)
    (hns : g.nsList ≠ []) : (∀ q, UnderVariant b q → ServesNS rnd g b q) ↔ lower b = b := by
  constructor
  · intro h
    by_contra hcase
    have hout : ¬ matchesBaseFqdn (lower b) b = true := by
      rw [matchesBaseFqdn_iff]
      rintro (hsuffix | heq)
      · have hlen := hsuffix.length_le
        rw [lower, List.length_map, List.length_cons] at hlen
        omega
      · exact hcase heq
    obtain ⟨g₁, hrun⟩ := h b (Or.inl rfl) .new 1 ⟨[], 0, [], 0, false, 0⟩
    obtain ⟨g₂, hrun'⟩ := ns_query_run hg rnd hbase b 1 ⟨[], 0, [], 0, false, 0⟩ .new
    rw [if_neg hout] at hrun'
    have heq := (Prod.mk.inj (Option.some.inj (hrun.symm.trans hrun'))).1
    cases hlist : g.nsList with
    | nil => exact hns hlist
    | cons ns nss =>
        rw [hlist] at heq
        exact absurd heq (by simp [deliver])
  · intro hcase q hq bk n rr
    have hmatch : matchesBaseFqdn (lower q) b = true := by
      rw [matchesBaseFqdn_iff]
      rcases hq with hq | ⟨pre, base', rfl, hbase'⟩
      · exact Or.inr (hq.trans hcase)
      · refine Or.inl ⟨lower pre, ?_⟩
        rw [lower_append, lower_cons, hbase', hcase]
        rfl
    obtain ⟨g', hrun⟩ := ns_query_run hg rnd hbase q n rr bk
    rw [if_pos hmatch] at hrun
    exact ⟨g', hrun⟩

end Spellings

/-! ### The base domain of a run -/

/-- The base domain on a line that the dispatcher hands to `setSOA`. -/
def soaBase? (line : Str) : Option Str :=
  if cmdMatch 3 (splitStr line " ".toList) "SET_SOA".toList then (splitStr line " ".toList)[1]? else none

/-- Among the requests are a `SET_SOA` of the base domain, the last of its kind, and a `SET_NS`. -/
def Based (rs : List (Request × Reply)) (base : Str) : Prop :=
  (∃ before after line out, rs = before ++ (.command line, out) :: after ∧ soaBase? line = some base ∧
    ∀ r ∈ after, ∀ line', r.1 = .command line' → soaBase? line' = none) ∧
  ∃ line out, (.command line, out) ∈ rs ∧ isSetNS line = true

theorem run_base (z : Zone) (line : Str) :
    (z.run line).soa.baseFQDN = (soaBase? line).getD z.soa.baseFQDN := by
  rw [Zone.run_soa, soaBase?]
  by_cases h : isSetSOA line = true
  · rw [if_pos h, if_pos (show cmdMatch 3 (splitStr line " ".toList) "SET_SOA".toList = true from h),
      List.getD_eq_getElem?_getD]
    rcases htok : splitStr line " ".toList with _ | ⟨cmd, _ | ⟨base, rest⟩⟩
    · exact absurd htok (splitStr_ne_nil _ _)
    · rw [isSetSOA, htok] at h
      exact absurd h (by simp [cmdMatch])
    · rfl
  · rw [if_neg h, if_neg (show ¬ cmdMatch 3 (splitStr line " ".toList) "SET_SOA".toList = true from h),
      Option.getD_none]

theorem foldl_serve_base {reqs : List Request}
    (hnot : ∀ req ∈ reqs, ∀ line, req = .command line → soaBase? line = none) (z : Zone) :
    (reqs.foldl Zone.serve z).soa.baseFQDN = z.soa.baseFQDN := by
  refine foldl_serve_unchanged (·.soa.baseFQDN) (fun line hline z => ?_) z
  rw [run_base, hnot _ hline line rfl, Option.getD_none]

/-- A `SET_NS` that was dispatched leaves NS records, and no other line takes them away. -/
theorem run_ns_ne_nil {z : Zone} {line : Str} (h : isSetNS line = true ∨ z.ns ≠ []) :
    (z.run line).ns ≠ [] := by
  rw [Zone.run_ns]
  by_cases hset : isSetNS line = true
  · obtain ⟨ns, rest, htok⟩ := cmdMatch_two hset
    rw [if_pos hset, htok]
    exact List.cons_ne_nil ns rest
  · rw [if_neg hset]
    exact h.resolve_left hset

theorem foldl_serve_ns {reqs : List Request} {z : Zone}
    (h : z.ns ≠ [] ∨ ∃ line, .command line ∈ reqs ∧ isSetNS line = true) :
    (reqs.foldl Zone.serve z).ns ≠ [] := by
  induction reqs generalizing z with
  | nil => exact h.resolve_right fun ⟨_, hmem, _⟩ => List.not_mem_nil hmem
  | cons req reqs ih =>
      apply ih
      by_cases hlater : ∃ line, .command line ∈ reqs ∧ isSetNS line = true
      · exact Or.inr hlater
      · refine Or.inl ?_
        have hhere : z.ns ≠ [] ∨ ∃ line, req = .command line ∧ isSetNS line = true := by
          rcases h with h | ⟨line, hmem, hset⟩
          · exact Or.inl h
          · rcases List.mem_cons.mp hmem with heq | hmem
            · exact Or.inr ⟨line, heq.symm, hset⟩
            · exact absurd ⟨line, hmem, hset⟩ hlater
        cases req with
        | command line =>
            apply run_ns_ne_nil
            rcases hhere with h | ⟨line', heq, hset⟩
            · exact Or.inr h
            · injection heq with heq
              rw [heq]
              exact Or.inl hset
        | query type qdomain n rr b =>
            rcases hhere with h | ⟨_, heq, _⟩
            · exact h
            · exact absurd heq (by simp)

/-- **A base domain that was set** is the base domain of the state, and there are NS records. -/
theorem Based.stored {ord : MapOrder} {rnd : Randomness} {seed : ℕ} {rs : List (Request × Reply)}
    {g : Globals} (hrun : Served ord rnd (init seed) rs g) {base : Str} (h : Based rs base) :
    g.globalSOA.baseFQDN = base ∧ g.nsList ≠ [] := by
  have hzone := (hrun.zone (wellFormed_init seed)).2
  obtain ⟨⟨before, after, line, out, rfl, hsoa, hlast⟩, line', out', hmem, hset⟩ := h
  constructor
  · have hafter : ∀ req ∈ after.map Prod.fst, ∀ l, req = .command l → soaBase? l = none := by
      intro req hreq l heq
      obtain ⟨r, hr, rfl⟩ := List.mem_map.mp hreq
      exact hlast r hr l heq
    show g.zone.soa.baseFQDN = base
    rw [hzone, List.map_append, List.foldl_append, List.map_cons, List.foldl_cons,
      foldl_serve_base hafter, Zone.serve, run_base, hsoa, Option.getD_some]
  · show g.zone.ns ≠ []
    rw [hzone]
    exact foldl_serve_ns (Or.inr ⟨line', List.mem_map.mpr ⟨_, hmem, rfl⟩, hset⟩)

/-- **When names are served whatever their letter case.**  After every run: a domain that was added with
algorithm `NONE` and filled, and whose name no other key differs from in case only, is served in every
spelling if and only if its name is in lower case or it has no record; and a base domain that was set, with
NS records given, is served in every spelling if and only if it is in lower case. -/
theorem names_served_iff (ord : MapOrder) (rnd : Randomness) {seed : ℕ} {rs : List (Request × Reply)}
    {g : Globals} (hrun : Served ord rnd (init seed) rs g) :
    (∀ f entries, Filled rs f entries →
      (∀ f', lower f' = lower f → (g.find f').isSome = true → f' = f) →
      ∃ c, g.lookupContainer f = some c ∧ entries.filterMap decodeEntry <:+: c.ips ∧
        ((∀ q, lower q = lower f → ∀ type, AsksAddresses type → ServesAddresses rnd g type q c.ips) ↔
          lower f = f ∨ c.ips = [])) ∧
    ∀ base, Based rs base →
      ((∀ q, UnderVariant base q → ServesNS rnd g base q) ↔ lower base = base) := by
  have hg := (hrun.zone (wellFormed_init seed)).1
  constructor
  · intro f entries hfilled hunique
    obtain ⟨c, hc, htype, hrecords⟩ := hfilled.stored hrun
    exact ⟨c, hc, hrecords, addresses_iff hg rnd hc htype hunique⟩
  · intro base hbased
    obtain ⟨hbase, hns⟩ := hbased.stored hrun
    exact nsRecords_iff hg rnd hbase hns

/-! #### Names in upper case -/

/-- A domain is added and filled under the name `A`. -/
def upperCase : List (Request × Reply) :=
  [(.command "ADD_DOMAIN A NONE".toList, .lines ((DomainCommand.add "A".toList "NONE".toList).answer true)),
   (.command "SNAPSHOT A 4-60-1.1.1.1-x".toList,
     .lines ((DomainCommand.snapshot "A".toList ["4-60-1.1.1.1-x".toList]).answer true))]

theorem filled_upperCase : Filled upperCase "A".toList ["4-60-1.1.1.1-x".toList] :=
  ⟨[], [], [], _, _, rfl, rfl, rfl, by decide, fun _ h => absurd h List.not_mem_nil⟩

theorem served_upperCase :
    ∃ g, Served MapOrder.entries Randomness.counting (init 0) upperCase g :=
  ⟨_, Served.cons rfl (Served.cons rfl (Served.nil _))⟩

/-- There is no other domain. -/
theorem upperCase_unique {ord : MapOrder} {rnd : Randomness} {seed : ℕ} {g : Globals}
    (hrun : Served ord rnd (init seed) upperCase g) (f : Str) (hmapped : (g.find f).isSome = true) :
    f = "A".toList := by
  obtain ⟨hg, hzone⟩ := hrun.zone (wellFormed_init seed)
  by_contra hne
  have hadd : domainCommand? "ADD_DOMAIN A NONE".toList = some (.add "A".toList "NONE".toList) := rfl
  have hsnap : domainCommand? "SNAPSHOT A 4-60-1.1.1.1-x".toList
      = some (.snapshot "A".toList ["4-60-1.1.1.1-x".toList]) := rfl
  have hother : some "A".toList ≠ some f := fun h => hne (Option.some.inj h).symm
  have hkept : ∀ d, ((DomainCommand.snapshot "A".toList ["4-60-1.1.1.1-x".toList]).apply d).2 f = d f :=
    fun d => DomainCommand.apply_of_ne (by simp) hother
  have hkept' : ∀ d, ((DomainCommand.add "A".toList "NONE".toList).apply d).2 f = d f :=
    fun d => DomainCommand.apply_of_ne (by simp) hother
  have hunmapped : g.zone.directory f = none := by
    rw [hzone]
    show ((Zone.run _ "ADD_DOMAIN A NONE".toList).run "SNAPSHOT A 4-60-1.1.1.1-x".toList).directory f = none
    rw [Zone.directory_run hsnap, hkept, Zone.directory_run hadd, hkept']
    rfl
  rw [← hg.directory_isSome, show g.directory f = none from hunmapped] at hmapped
  exact Bool.false_ne_true hmapped

/-- The base domain is set to `B`, with an NS record. -/
def upperBase (out₁ out₂ : Reply) : List (Request × Reply) :=
  [(.command "SET_SOA B x".toList, out₁), (.command "SET_NS n".toList, out₂)]

theorem based_upperBase (out₁ out₂ : Reply) : Based (upperBase out₁ out₂) "B".toList := by
  refine ⟨⟨[], [(.command "SET_NS n".toList, out₂)], _, out₁, rfl, rfl, fun r hr line' hline' => ?_⟩,
    _, out₂, List.mem_cons_of_mem _ (List.mem_singleton_self _), rfl⟩
  rw [List.mem_singleton.mp hr] at hline'
  cases hline'
  rfl

theorem served_upperBase :
    ∃ out₁ out₂ g, Served MapOrder.entries Randomness.counting (init 0) (upperBase out₁ out₂) g :=
  ⟨_, _, _, Served.cons rfl (Served.cons rfl (Served.nil _))⟩

theorem names_served_iff_upperCase :
    (∃ g, Served MapOrder.entries Randomness.counting (init 0) upperCase g ∧
      ∃ c, g.lookupContainer "A".toList = some c ∧
        ((∀ q, lower q = lower "A".toList → ∀ type, AsksAddresses type →
          ServesAddresses Randomness.counting g type q c.ips) ↔ lower "A".toList = "A".toList ∨ c.ips = [])) ∧
    ∃ out₁ out₂ g, Served MapOrder.entries Randomness.counting (init 0) (upperBase out₁ out₂) g ∧
      ((∀ q, UnderVariant "B".toList q → ServesNS Randomness.counting g "B".toList q) ↔
        lower "B".toList = "B".toList) := by
  constructor
  · obtain ⟨g, hrun⟩ := served_upperCase
    obtain ⟨c, hc, -, hiff⟩ := (names_served_iff MapOrder.entries Randomness.counting hrun).1 _ _
      filled_upperCase fun f' _ => upperCase_unique hrun f'
    exact ⟨g, hrun, c, hc, hiff⟩
  · obtain ⟨out₁, out₂, g, hrun⟩ := served_upperBase
    exact ⟨out₁, out₂, g, hrun,
      (names_served_iff MapOrder.entries Randomness.counting hrun).2 _ (based_upperBase out₁ out₂)⟩

/-- **An upper-case name is not served**, not even in its own spelling. -/
theorem upperCase_not_served :
    ¬ ∀ (ord : MapOrder) (rnd : Randomness) (seed : ℕ) (rs : List (Request × Reply)) (g : Globals)
      (f : Str) (entries : List Str) (c : GlbContainer), Served ord rnd (init seed) rs g →
      Filled rs f entries → (∀ f', lower f' = lower f → (g.find f').isSome = true → f' = f) →
      g.lookupContainer f = some c → ∀ q, lower q = lower f → ∀ type, AsksAddresses type →
        ServesAddresses rnd g type q c.ips := by
  intro h
  obtain ⟨g, hrun⟩ := served_upperCase
  have hunique := fun f' (_ : lower f' = lower "A".toList) => upperCase_unique hrun f'
  obtain ⟨c, hc, htype, hrecords⟩ := filled_upperCase.stored hrun
  have hserves := h _ _ _ _ _ _ _ _ hrun filled_upperCase hunique hc
  have hg := (hrun.zone (wellFormed_init 0)).1
  rcases (addresses_iff hg Randomness.counting hc htype hunique).mp hserves with hcase | hips
  · exact absurd hcase (by decide)
  · rw [hips] at hrecords
    exact absurd (List.infix_nil.mp hrecords) (by decide)

end GlbBackend
