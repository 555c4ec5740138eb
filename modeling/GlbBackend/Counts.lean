import GlbBackend.Requests

/-!
# Lookup accounting

What a lookup count means, read off the history of a sequential run: the number of lookups for addresses
under the lowercased name since the latest of the `ADD_DOMAIN` that created the domain and the `CLR_COUNTS`
that covered it (`CountedSince`).

`domain_serve` is the step, what one request does to the count of one name; `counted` is the run.  With the
answer of a `COUNTS` from the registry this gives `counts_exact`.
-/

namespace GlbBackend

open Text Concurrent Concurrent.Proc Globals

/-! ### The rule -/

/-- An `ADD_DOMAIN` of the name that passed. -/
def Creates (f : Str) (r : Request × Reply) : Prop :=
  ∃ line algoName, r.1 = .command line ∧ domainCommand? line = some (.add f algoName) ∧
    r.2 = .lines [(DomainCommand.addPassed f).toJson]

/-- A `CLR_COUNTS` without arguments, or with the name among them. -/
def ClearsCount (f : Str) : Request → Prop
  | .command line => ∃ args, splitStr line " ".toList = "CLR_COUNTS".toList :: args ∧ (args = [] ∨ f ∈ args)
  | .query _ _ _ _ _ => False

/-- A lookup of type A, AAAA or ANY whose lowercased name is `f`. -/
def looksUp (f : Str) : Request → Bool
  | .command _ => false
  | .query type qdomain _ _ _ =>
      decide (AsksAddresses type) && lower qdomain == f

/-- `n` is the number of lookups of the name since it was last created or cleared, which was after it was
last taken away. -/
def CountedSince (f : Str) (rs : List (Request × Reply)) (n : ℤ) : Prop :=
  ∃ before r after, rs = before ++ r :: after ∧ (Creates f r ∨ ClearsCount f r.1) ∧
    (∀ s ∈ after, ¬ Creates f s ∧ ¬ ClearsCount f s.1 ∧ ¬ TakesAway f s.1) ∧
    n = (after.countP fun s => looksUp f s.1 : ℕ)

section CountedSince

variable {f : Str} {rs : List (Request × Reply)} {r : Request × Reply} {n : ℤ}

/-- The count starts again. -/
theorem CountedSince.start (h : Creates f r ∨ ClearsCount f r.1) : CountedSince f (rs ++ [r]) 0 :=
  ⟨rs, r, [], rfl, h, fun _ hs => absurd hs List.not_mem_nil, rfl⟩

/-- Or it goes on. -/
theorem CountedSince.snoc (h : CountedSince f rs n)
    (hr : ¬ Creates f r ∧ ¬ ClearsCount f r.1 ∧ ¬ TakesAway f r.1) :
    CountedSince f (rs ++ [r]) (n + if looksUp f r.1 then 1 else 0) := by
  obtain ⟨before, r₀, after, rfl, hstart, hafter, rfl⟩ := h
  refine ⟨before, r₀, after ++ [r], by simp, hstart, fun s hs => ?_, ?_⟩
  · rcases List.mem_append.mp hs with hs | hs
    · exact hafter s hs
    · rw [List.mem_singleton.mp hs]
      exact hr
  · rw [List.countP_append, List.countP_singleton]
    split_ifs <;> simp

end CountedSince

/-! ### One request -/

section Step

variable {ord : MapOrder} {rnd : Randomness} {g g' : Globals} {f : Str} {r : Request × Reply}

/-- What a request did to the count of a mapped name: it starts again, or it goes on. -/
inductive Counted (f : Str) (r : Request × Reply) (before : Option GlbContainer) (n : ℤ) : Prop
  | starts (h : Creates f r ∨ ClearsCount f r.1) (hn : n = 0)
  | continues (hr : ¬ Creates f r ∧ ¬ ClearsCount f r.1 ∧ ¬ TakesAway f r.1) {c : GlbContainer}
      (hc : before = some c) (hn : n = c.nLookups + if looksUp f r.1 then 1 else 0)

/-- A query counts if it asks for addresses of the name. -/
theorem counted_query {reg : Registry} {type : QType} {qdomain : Str} {n : ℕ} {rr : DNSResourceRecord}
    {b : GLBBackend} {reply : Reply} {c : GlbContainer}
    (hc : (reg.lookedUp type (lower qdomain)).domains f = some c) :
    Counted f (.query type qdomain n rr b, reply) (reg.domains f) c.nLookups := by
  have hquiet : ¬ Creates f (.query type qdomain n rr b, reply) ∧
      ¬ ClearsCount f (.query type qdomain n rr b) ∧ ¬ TakesAway f (.query type qdomain n rr b) := by
    refine ⟨?_, id, id⟩
    rintro ⟨line, algoName, hline, -⟩
    exact absurd hline (by simp)
  rw [Registry.lookedUp] at hc
  by_cases hasks : AsksAddresses type
  · rw [if_pos (lookupMask_isSome_iff.mpr hasks)] at hc
    change Function.update reg.domains (lower qdomain) _ f = some c at hc
    by_cases hf : f = lower qdomain
    · rw [hf, Function.update_self] at hc
      obtain ⟨c₀, hc₀, rfl⟩ := Option.map_eq_some_iff.mp hc
      refine .continues hquiet (hf ▸ hc₀) ?_
      simp [looksUp, hasks, hf, GlbContainer.incNLookups]
    · rw [Function.update_of_ne hf] at hc
      refine .continues hquiet hc ?_
      simp [looksUp, Ne.symm hf]
  · rw [if_neg (fun h => hasks (lookupMask_isSome_iff.mp h))] at hc
    refine .continues hquiet hc ?_
    simp [looksUp, hasks]

/-- A domain command that does not create the name, and leaves it where it is. -/
theorem quiet_of_domain {line : Str} {cmd : DomainCommand} (hcmd : domainCommand? line = some cmd)
    {reply : Reply} (hadd : ∀ algoName, cmd = .add f algoName →
      reply ≠ .lines [(DomainCommand.addPassed f).toJson])
    (hdel : cmd ≠ .del f) (hclr : cmd ≠ .clear) :
    ¬ Creates f (.command line, reply) ∧ ¬ ClearsCount f (.command line) ∧
      ¬ TakesAway f (.command line) := by
  refine ⟨?_, ?_, ?_⟩
  · rintro ⟨line', algoName, hline, hcmd', hreply⟩
    injection hline with hline
    rw [← hline, hcmd] at hcmd'
    exact hadd algoName (Option.some.inj hcmd') hreply
  · rintro ⟨args, htok, -⟩
    have hclear := command_eq_clear_iff.mpr htok
    rw [command_eq_domain_iff.mpr hcmd] at hclear
    exact absurd hclear (by simp)
  · rintro (h | h)
    · exact hdel (Option.some.inj (hcmd.symm.trans h))
    · exact hclr (Option.some.inj (hcmd.symm.trans h))

/-- Only the `ADD_DOMAIN` that creates a domain starts its count; no domain command goes on counting. -/
theorem counted_domain {reg : Registry} {line : Str} {cmd : DomainCommand}
    (hcmd : domainCommand? line = some cmd) {c : GlbContainer} (hc : cmd.applyTo reg.domains f = some c) :
    Counted f (.command line, .lines (cmd.answer (cmd.apply reg.directory).1)) (reg.domains f)
      c.nLookups := by
  have hgoes : ∀ {n : ℤ}, n = n + if looksUp f (.command line) then 1 else 0 := (add_zero _).symm
  cases cmd with
  | add fqdn algoName =>
      rw [DomainCommand.applyTo] at hc
      by_cases hfails : strToGlbType algoName < 0 ∨ (reg.domains fqdn).isSome = true
      · rw [if_pos hfails] at hc
        have hfalse : ((DomainCommand.add fqdn algoName).apply reg.directory).1 = false := by
          rw [DomainCommand.apply, Directory.add, Registry.directory, Option.isSome_map]
          rcases hfails with h | h
          · rw [if_pos h]
          · rw [if_pos h]
            split_ifs <;> rfl
        refine .continues (quiet_of_domain hcmd ?_ (by simp) (by simp)) hc hgoes
        rintro algo ⟨rfl, rfl⟩ hreply
        rw [hfalse] at hreply
        exact DomainCommand.answer_add_false _ _ (Reply.lines.inj hreply)
      · rw [if_neg hfails] at hc
        obtain ⟨hknown, hfree⟩ := not_or.mp hfails
        by_cases hf : f = fqdn
        · subst hf
          rw [Function.update_self] at hc
          refine .starts (Or.inl ⟨line, algoName, rfl, hcmd, ?_⟩) ?_
          · rw [DomainCommand.apply, Directory.add, Registry.directory, Option.isSome_map, if_neg hknown,
              if_neg hfree, DomainCommand.answer_add_true _ hknown]
          · rw [← Option.some.inj hc]
            rfl
        · rw [Function.update_of_ne hf] at hc
          refine .continues (quiet_of_domain hcmd ?_ (by simp) (by simp)) hc hgoes
          rintro algo ⟨rfl, rfl⟩
          exact absurd rfl hf
  | del fqdn =>
      rw [DomainCommand.applyTo] at hc
      by_cases hf : f = fqdn
      · rw [hf, Function.update_self] at hc
        exact absurd hc (by simp)
      · rw [Function.update_of_ne hf] at hc
        refine .continues (quiet_of_domain hcmd (by simp) ?_ (by simp)) hc hgoes
        exact fun h => hf (DomainCommand.del.inj h).symm
  | snapshot fqdn entries =>
      have hquiet : ∀ reply, ¬ Creates f (.command line, reply) ∧ ¬ ClearsCount f (.command line) ∧
          ¬ TakesAway f (.command line) := fun reply =>
        quiet_of_domain hcmd (by simp) (by simp) (by simp)
      rw [DomainCommand.applyTo] at hc
      by_cases hf : f = fqdn
      · subst hf
        rw [Function.update_self] at hc
        obtain ⟨c₀, hc₀, rfl⟩ := Option.map_eq_some_iff.mp hc
        refine .continues (hquiet _) hc₀ ?_
        rw [GlbContainer.setIPs_eq]
        exact hgoes
      · rw [Function.update_of_ne hf] at hc
        exact .continues (hquiet _) hc hgoes
  | clear => exact absurd hc (by simp [DomainCommand.applyTo])
  | unknown line' =>
      exact .continues (quiet_of_domain hcmd (by simp) (by simp) (by simp)) hc hgoes

/-- **One command line**: the count of a name starts with its creation and with a clearing that covers it. -/
theorem counted_command {reg : Registry} {names : List Str} {line : Str} {c : GlbContainer}
    (hc : ((command line).apply reg).domains f = some c) :
    Counted f (.command line, .lines ((command line).answer names reg)) (reg.domains f) c.nLookups := by
  have hgoes : ∀ {n : ℤ}, n = n + if looksUp f (.command line) then 1 else 0 := (add_zero _).symm
  cases hcmd : domainCommand? line with
  | some cmd =>
      rw [command_eq_domain_iff.mpr hcmd] at hc ⊢
      exact counted_domain hcmd hc
  | none =>
      have hcreates : ∀ reply, ¬ Creates f (.command line, reply) := by
        rintro reply ⟨line', algoName, hline, hadd, -⟩
        injection hline with hline
        rw [← hline, hcmd] at hadd
        exact absurd hadd (by simp)
      have htakes : ¬ TakesAway f (.command line) := by
        rintro (h | h) <;> exact absurd (hcmd.symm.trans h) (by simp)
      by_cases hclr : ClearsCount f (.command line)
      · refine .starts (Or.inr hclr) ?_
        obtain ⟨args, htok, hargs⟩ := hclr
        rw [command_eq_clear_iff.mpr htok] at hc
        change (if args = [] ∨ f ∈ args then _ else _) = some c at hc
        rw [if_pos hargs] at hc
        obtain ⟨c₀, -, rfl⟩ := Option.map_eq_some_iff.mp hc
        rfl
      · refine .continues ⟨hcreates _, hclr, htakes⟩ ?_ hgoes
        rcases hline : command line with cmd | _ | _ | args | _ | _ | _
        · exact absurd (hcmd.symm.trans (command_eq_domain_iff.mp hline)) (by simp)
        · rwa [hline] at hc
        · rwa [hline] at hc
        · rw [hline] at hc
          change (if args = [] ∨ f ∈ args then _ else _) = some c at hc
          rwa [if_neg fun hargs => hclr ⟨args, command_eq_clear_iff.mp hline, hargs⟩] at hc
        · rwa [hline] at hc
        · rwa [hline] at hc
        · rwa [hline] at hc

/-- **The step.** -/
theorem domain_serve (hg : g.WellFormed) {req : Request} {reply : Reply}
    (hrun : (GlbBackend.serve ord rnd req).run g = some (reply, g')) {c : GlbContainer}
    (hc : g'.registry.domains f = some c) :
    Counted f (req, reply) (g.registry.domains f) c.nLookups := by
  rw [(serve_registry hg hrun).2] at hc
  cases req with
  | query type qdomain n rr b => exact counted_query hc
  | command line =>
      obtain ⟨g₁, hline, -, -⟩ := dispatch_registry ord hg line
      simp only [GlbBackend.serve, run_bind, hline, Option.bind_some, run_ret] at hrun
      rw [← (Prod.mk.inj (Option.some.inj hrun)).1]
      exact counted_command hc

/-! ### Runs -/

/-- **The run**: the count of a mapped name is the number of lookups of it since it started. -/
theorem counted {seed : ℕ} {rs : List (Request × Reply)} (hrun : Served ord rnd (init seed) rs g)
    {c : GlbContainer} (hc : g.registry.domains f = some c) : CountedSince f rs c.nLookups := by
  induction rs using List.reverseRecOn generalizing g c with
  | nil =>
      cases hrun
      exact absurd hc (by simp [registry_init, Registry.init])
  | append_singleton rs r ih =>
      obtain ⟨g₁, hbefore, hlast⟩ := hrun.split
      obtain ⟨hg₁, -⟩ := hbefore.registry (wellFormed_init seed)
      cases hlast with
      | cons hserve hend =>
          cases hend
          cases domain_serve hg₁ hserve hc with
          | starts h hn =>
              rw [hn]
              exact CountedSince.start h
          | continues hr hc₁ hn =>
              rw [hn]
              exact (ih hbefore hc₁).snoc hr

/-- What a `COUNTS` reports about some names, after a run, where `jb` is what its reply was written from.  The flags say
which members are written, so nothing that is reported is left out and nothing else is added. -/
structure Accounts (g : Globals) (rs : List (Request × Reply)) (names : List Str) (jb : ServerJsonBuilder) :
    Prop where
  /-- One pair for each mapped name, in order. -/
  pairs : jb.counts.map FqdnCount.fqdn = names.filter fun f => (g.find f).isSome
  /-- Each with the lookups since the name was created or cleared. -/
  lookups : ∀ e ∈ jb.counts, CountedSince e.fqdn rs e.count
  /-- The pairs are written, if there are any. -/
  hasCounts : jb.hasCounts = !jb.counts.isEmpty
  /-- One error for each other name, in order. -/
  errors : jb.errors = (names.filter fun f => (g.find f).isNone).map fun f =>
    "fqdn ".toList ++ f ++ " doesn't exist".toList
  /-- The errors are written, if there are any. -/
  hasErrors : jb.hasErrors = !jb.errors.isEmpty
  status : jb.status = if ∀ f ∈ names, (g.find f).isSome = true then "PASSED".toList else "FAILED".toList
  hasStatus : jb.hasStatus = true
  type : jb.type = "GET_COUNTS".toList
  hasType : jb.hasType = true
  /-- No other member is written. -/
  others : jb.hasFqdn = false ∧ jb.hasError = false ∧ jb.hasIps = false

theorem map_fqdn_counts (tally : Str → Option ℤ) (names : List Str) :
    (names.filterMap fun f => (tally f).map fun n => (⟨f, n⟩ : FqdnCount)).map FqdnCount.fqdn
      = names.filter fun f => (tally f).isSome := by
  induction names with
  | nil => rfl
  | cons f names ih => cases h : tally f <;> simp [h, ih]

theorem any_eq_filterMap {α β : Type} (g : α → Option β) (xs : List α) :
    (xs.any fun x => (g x).isSome) = !(xs.filterMap g).isEmpty := by
  induction xs with
  | nil => rfl
  | cons x xs ih => cases h : g x <;> simp [h, ih]

theorem any_eq_filter {α : Type} (p : α → Bool) (xs : List α) : xs.any p = !(xs.filter p).isEmpty := by
  induction xs with
  | nil => rfl
  | cons x xs ih => cases h : p x <;> simp [h, ih]

/-- The reply of a `COUNTS` accounts for the names it covers. -/
theorem accounts_countsReply {seed : ℕ} {rs : List (Request × Reply)} (hrun : Served ord rnd (init seed) rs g)
    (names : List Str) : Accounts g rs names (countsReply g.registry.tally names) := by
  have hg := (hrun.registry (wellFormed_init seed)).1
  have hsome : ∀ f, (g.registry.tally f).isSome = (g.find f).isSome := by
    intro f
    rw [← Option.not_isNone, tally_isNone hg, Option.not_isNone]
  refine ⟨?_, ?_, ?_, ?_, ?_, ?_, rfl, rfl, rfl, rfl, rfl, rfl⟩
  · show (names.filterMap _).map _ = _
    rw [map_fqdn_counts]
    simp only [hsome]
  · intro e he
    obtain ⟨f, -, hf⟩ := List.mem_filterMap.mp he
    obtain ⟨n, htally, rfl⟩ := Option.map_eq_some_iff.mp hf
    obtain ⟨c, hc, rfl⟩ := Option.map_eq_some_iff.mp htally
    exact counted hrun hc
  · show (names.any fun f => (g.registry.tally f).isSome) = !(names.filterMap _).isEmpty
    rw [← any_eq_filterMap]
    simp only [Option.isSome_map]
  · simp only [countsReply, tally_isNone hg]
  · show (names.any fun f => (g.registry.tally f).isNone) = !List.isEmpty (List.map _ _)
    rw [List.isEmpty_map, ← any_eq_filter]
  · simp only [countsReply, hsome, List.all_eq_true]

end Step

theorem dispatch_counts (ord : MapOrder) {line : Str} {args : List Str}
    (htok : splitStr line " ".toList = "COUNTS".toList :: args) : dispatch ord line = getCounts ord line := by
  rw [dispatch_of_none ord (by rw [domainCommand?, htok]; rfl)]
  simp only [htok]
  rw [cmdMatch_ne (by decide)]
  rfl

theorem dispatch_clear (ord : MapOrder) {line : Str} {args : List Str}
    (htok : splitStr line " ".toList = "CLR_COUNTS".toList :: args) :
    dispatch ord line = clearCounts ord line := by
  rw [dispatch_of_none ord (by rw [domainCommand?, htok]; rfl)]
  simp only [htok]
  rw [cmdMatch_ne (by decide), cmdMatch_ne (by decide)]
  rfl

/-- **The counts are exact.**  After every run, a `COUNTS` changes nothing, and reports for the names it
covers the lookups since each was created or cleared; a `CLR_COUNTS` sets the counts of the names it covers
to zero and no other.  Without arguments both cover every mapped name, `COUNTS` once each; with arguments
they cover these. -/
theorem counts_exact (ord : MapOrder) (rnd : Randomness) {seed : ℕ} {rs : List (Request × Reply)}
    {g : Globals} (hrun : Served ord rnd (init seed) rs g) :
    (∀ line args, splitStr line " ".toList = "COUNTS".toList :: args →
      ∃ names jb, (dispatch ord line).run g = some ([jb.toJson], g) ∧ Accounts g rs names jb ∧
        (args = [] → names.Nodup ∧ ∀ f, f ∈ names ↔ (g.find f).isSome = true) ∧
        (args ≠ [] → names = args)) ∧
    ∀ line args, splitStr line " ".toList = "CLR_COUNTS".toList :: args →
      ∃ out g', (dispatch ord line).run g = some (out, g') ∧ (∀ f, g'.find f = g.find f) ∧
        ∀ f, (args = [] ∨ f ∈ args → ∀ c, g'.lookupContainer f = some c → c.nLookups = 0) ∧
          (¬ (args = [] ∨ f ∈ args) → g'.lookupContainer f = g.lookupContainer f) := by
  have hg := (hrun.registry (wellFormed_init seed)).1
  constructor
  · intro line args htok
    refine ⟨covered args (ord.names g), countsReply g.registry.tally (covered args (ord.names g)), ?_,
      accounts_countsReply hrun _, fun hargs => ?_, fun hargs => if_neg hargs⟩
    · rw [dispatch_counts ord htok]
      exact run_getCounts ord hg htok
    · rw [covered, if_pos hargs]
      exact ⟨ord.nodup_names g, fun f => ord.mem_names⟩
  · intro line args htok
    obtain ⟨g', hclear, hcleared⟩ := run_clearCounts ord hg htok
    have hcontainers : g'.lookupContainer
        = ((Command.clear args).apply g.registry).domains := by
      rw [← hcleared.registry fun f => by rw [ord.mem_names, hg.lookupContainer_isSome]]
      rfl
    refine ⟨_, g', by rw [dispatch_clear ord htok, hclear], hcleared.find, fun f => ⟨?_, ?_⟩⟩
    · intro hf c hc
      rw [hcontainers] at hc
      change (if args = [] ∨ f ∈ args then _ else _) = some c at hc
      rw [if_pos hf] at hc
      obtain ⟨c₀, -, rfl⟩ := Option.map_eq_some_iff.mp hc
      rfl
    · intro hf
      rw [hcontainers]
      exact if_neg hf

/-! #### A domain that is cleared between two lookups -/

/-- A domain is added, looked up in upper case, cleared, and looked up twice, once for its name servers. -/
def twoLookups : List (Request × Reply) :=
  [(.command "ADD_DOMAIN a NONE".toList, .lines ((DomainCommand.add "a".toList "NONE".toList).answer true)),
   (.query QType.A "A".toList 0 ⟨[], 0, [], 0, false, 0⟩ GLBBackend.new, .answers []),
   (.command "CLR_COUNTS a".toList, .lines [(clearReply (fun _ => some 0) ["a".toList]).toJson]),
   (.query QType.ANY "a".toList 0 ⟨[], 0, [], 0, false, 0⟩ GLBBackend.new, .answers []),
   (.query QType.NS "a".toList 0 ⟨[], 0, [], 0, false, 0⟩ GLBBackend.new, .answers [])]

theorem served_twoLookups : ∃ g, Served MapOrder.entries Randomness.counting (init 0) twoLookups g :=
  ⟨_, Served.cons rfl (Served.cons rfl (Served.cons rfl (Served.cons rfl (Served.cons rfl (Served.nil _)))))⟩

theorem counts_exact_twoLookups :
    ∃ g, Served MapOrder.entries Randomness.counting (init 0) twoLookups g ∧
      ∃ jb, (dispatch MapOrder.entries "COUNTS a".toList).run g = some ([jb.toJson], g) ∧
        Accounts g twoLookups ["a".toList] jb := by
  obtain ⟨g, hrun⟩ := served_twoLookups
  obtain ⟨names, jb, hjb, haccounts, -, hnames⟩ := (counts_exact MapOrder.entries Randomness.counting hrun).1
    "COUNTS a".toList ["a".toList] rfl
  rw [hnames (List.cons_ne_nil _ _)] at haccounts
  exact ⟨g, hrun, jb, hjb, haccounts⟩

end GlbBackend
