import GlbBackend.Service
import GlbBackend.Zone

/-!
# What does not show

Three comparisons of runs, each an unwinding over the service.

* `memory_invisible` — two daemons that show the same registry answer all requests alike from then on, however their
  memories differ.
* `resync` — after a `CLR_DOMAINS` the domains are what the rest of the requests make of them, whatever the daemon held
  before; so a client that sends everything again brings any daemon to the same domains.
* `monitoring_transparent` — `COUNTS`, `CLR_COUNTS`, `DEBUG_DOMAINS` and lines that no handler takes can be left out of
  any run without changing another reply, and `queries_transparent` — queries show in no command's reply but the
  counters.
-/

namespace GlbBackend

open Text Concurrent Concurrent.Proc Globals

/-! ### What replies depend on -/

namespace Command

/-- The reply walks the whole map. -/
def Walks : Command → Prop
  | debug _ _ => True
  | counts args => args = []
  | _ => False

/-- The reply shows lookup counters. -/
def ShowsCounts : Command → Prop
  | debug _ _ => True
  | counts _ => True
  | _ => False

end Command

theorem clearReply_congr {tally tally' : Str → Option ℤ} {names : List Str}
    (h : ∀ f, (tally f).isSome = (tally' f).isSome) : clearReply tally names = clearReply tally' names := by
  have hsome : (fun f => (tally f).isSome) = fun f => (tally' f).isSome := funext h
  have hnone : (fun f => (tally f).isNone) = fun f => (tally' f).isNone := by
    funext f
    rw [← Option.not_isSome, ← Option.not_isSome, h f]
  rw [clearReply, clearReply, hsome, hnone]

/-- Of the mapped names there is nothing to report but success. -/
theorem clearReply_orders {r : Registry} {names : List Str} (hnames : Service.Orders names r) :
    clearReply r.tally names = clearReply r.tally [] := by
  have hsome : ∀ f ∈ names, (r.tally f).isSome = true := fun f hf => by
    rw [Registry.tally, Option.isSome_map]
    exact (hnames.mem f).mp hf
  have hall : (names.all fun f => (r.tally f).isSome) = true := List.all_eq_true.mpr hsome
  have hany : (names.any fun f => (r.tally f).isNone) = false := by
    rw [any_isNone_eq_not_all, hall]
    rfl
  have hfilter : (names.filter fun f => (r.tally f).isNone) = [] := by
    rw [List.filter_eq_nil_iff]
    intro f hf
    rw [← Option.not_isSome, hsome f hf]
    exact Bool.false_ne_true
  rw [clearReply, clearReply, hall, hany, hfilter]
  rfl

section Answers

variable {cmd : Command} {r r' : Registry} {names names' : List Str}

/-- A reply shows the domains only. -/
theorem answer_of_domains (h : r.domains = r'.domains) (cmd : Command) (names : List Str) :
    cmd.answer names r = cmd.answer names r' := by
  obtain ⟨domains, soa, ns⟩ := r
  obtain ⟨domains', soa', ns'⟩ := r'
  obtain rfl : domains = domains' := h
  cases cmd <;> rfl

/-- A reply that shows no counters shows the zone only. -/
theorem answer_of_zone (hcounts : ¬ cmd.ShowsCounts) (hzone : r.zone = r'.zone) (hnames : Service.Orders names r)
    (hnames' : Service.Orders names' r') : cmd.answer names r = cmd.answer names' r' := by
  have hdir : r.directory = r'.directory := congrArg Zone.directory hzone
  have htally : ∀ f, (r.tally f).isSome = (r'.tally f).isSome := fun f => by
    have h := congrArg Option.isSome (congrFun hdir f)
    rw [Registry.directory, Registry.directory, Option.isSome_map, Option.isSome_map] at h
    rw [Registry.tally, Registry.tally, Option.isSome_map, Option.isSome_map, h]
  cases cmd with
  | domain cmd =>
      show cmd.answer _ = cmd.answer _
      rw [hdir]
  | debug nLoops showFull => exact absurd trivial hcounts
  | counts args => exact absurd trivial hcounts
  | clear args =>
      show [(clearReply r.tally (covered args names)).toJson] = [(clearReply r'.tally (covered args names')).toJson]
      rw [covered, covered]
      split_ifs
      · rw [clearReply_orders hnames, clearReply_orders hnames', clearReply_congr htally]
      · rw [clearReply_congr htally]
  | soa base text => rfl
  | ns records => rfl
  | unknown line => rfl

/-- A reply that does not walk the map does not show its order. -/
theorem answer_of_order (hwalks : ¬ cmd.Walks) (hnames : Service.Orders names r)
    (hnames' : Service.Orders names' r) : cmd.answer names r = cmd.answer names' r := by
  by_cases hcounts : cmd.ShowsCounts
  · cases cmd with
    | debug nLoops showFull => exact absurd trivial hwalks
    | counts args =>
        have hargs : args ≠ [] := hwalks
        show [(countsReply r.tally (covered args names)).toJson] = [(countsReply r.tally (covered args names')).toJson]
        rw [covered, covered, if_neg hargs, if_neg hargs]
    | domain cmd => exact hcounts.elim
    | clear args => exact hcounts.elim
    | soa base text => exact hcounts.elim
    | ns records => exact hcounts.elim
    | unknown line => exact hcounts.elim
  · exact answer_of_zone hcounts rfl hnames hnames'

end Answers

/-- Two replies to a request that differ in the order at most in which a command walked the whole map. -/
def Reordered : Request → Reply → Reply → Prop
  | .command line, o, p => (¬ (command line).Walks → o = p) ∧
      ∃ r names names', Service.Orders names r ∧ Service.Orders names' r ∧
        o = .lines ((command line).answer names r) ∧ p = .lines ((command line).answer names' r)
  | .query _ _ _ _ _, o, p => o = p

section Steps

variable {rnd : Randomness} {s s' t t' : Service} {o p : Reply}

theorem steps_command {line : Str} (h : Service.Steps rnd s (.command line) o s') :
    ∃ names, Service.Orders names s.registry ∧ o = .lines ((command line).answer names s.registry) ∧
      s' = ⟨(command line).apply s.registry, s.rng⟩ := by
  obtain ⟨names, hnames, heq⟩ := h
  obtain ⟨rfl, rfl⟩ := Prod.mk.inj heq
  exact ⟨names, hnames, rfl, rfl⟩

theorem steps_query {type : QType} {qdomain : Str} {n : ℕ} {rr : DNSResourceRecord} {b : GLBBackend}
    (h : Service.Steps rnd s (.query type qdomain n rr b) o s') :
    o = .answers (deliver n (s.owed rnd type qdomain (loadedSOA b (lower qdomain) s.registry.soa))) ∧
      s' = ⟨s.registry.lookedUp type (lower qdomain), (s.addresses rnd type (lower qdomain)).2⟩ := by
  obtain ⟨names, -, heq⟩ := h
  obtain ⟨rfl, rfl⟩ := Prod.mk.inj heq
  exact ⟨rfl, rfl⟩

/-- A command is answered alike when the domains are the same. -/
theorem reordered_of_domains {line : Str} (hdomains : s.registry.domains = t.registry.domains)
    (hs : Service.Steps rnd s (.command line) o s') (ht : Service.Steps rnd t (.command line) p t') :
    Reordered (.command line) o p := by
  obtain ⟨names, hnames, rfl, -⟩ := steps_command hs
  obtain ⟨names', hnames', rfl, -⟩ := steps_command ht
  have hnames'' : Service.Orders names' s.registry := ⟨hnames'.nodup, fun f => by rw [hdomains]; exact hnames'.mem f⟩
  rw [← answer_of_domains hdomains]
  refine ⟨fun hwalks => ?_, _, names, names', hnames, hnames'', rfl, rfl⟩
  rw [answer_of_order hwalks hnames hnames'']

/-! ### The memory -/

end Steps

/-- A daemon with one domain. -/
def oneDomainGlobals : Globals := (init 0).insert "a".toList (GlbContainer.new "a".toList (strToGlbType "NONE".toList))

theorem wellFormed_oneDomainGlobals : oneDomainGlobals.WellFormed :=
  (wellFormed_init 0).insert (GlbContainer.valid_new (by decide) (by simp [Word]) (by decide)) rfl

/-- What a request sets the SOA container to. -/
def soaSet? : Request → Option SOAContainer
  | .command line =>
      match command line with
      | Command.soa base text => some ⟨text, base⟩
      | _ => none
  | .query _ _ _ _ _ => none

/-- What a request sets the NS list to. -/
def nsSet? : Request → Option (List Str)
  | .command line =>
      match command line with
      | Command.ns records => some records
      | _ => none
  | .query _ _ _ _ _ => none

/-- What the last request that sets a cell sets it to. -/
def latest {α : Type} (set? : Request → Option α) : List Request → Option α
  | [] => none
  | req :: reqs => (latest set? reqs).or (set? req)

theorem latest_isSome {α : Type} (set? : Request → Option α) (reqs : List Request) :
    (latest set? reqs).isSome = true ↔ ∃ req ∈ reqs, (set? req).isSome = true := by
  induction reqs with
  | nil => simp [latest]
  | cons req reqs ih => simp [latest, ih, or_comm]

section Cells

variable {rnd : Randomness} {s s' t t' : Service} {rs ps : List (Request × Reply)}

theorem lookedUp_soa (r : Registry) (type : QType) (name : Str) : (r.lookedUp type name).soa = r.soa := by
  rw [Registry.lookedUp]
  split_ifs <;> rfl

theorem lookedUp_ns (r : Registry) (type : QType) (name : Str) : (r.lookedUp type name).ns = r.ns := by
  rw [Registry.lookedUp]
  split_ifs <;> rfl

/-- A cell that each step sets, or leaves as it is, ends as it was last set. -/
theorem cell_runs {α : Type} (cell : Service → α) (set? : Request → Option α)
    (hstep : ∀ {s s' : Service} {req : Request} {o : Reply}, Service.Steps rnd s req o s' →
      cell s' = (set? req).getD (cell s))
    (h : Service.Runs rnd s rs s') : cell s' = (latest set? (rs.map Prod.fst)).getD (cell s) := by
  induction h with
  | nil s => rfl
  | @cons s s₁ s₂ req o rs hs _ ih =>
      rw [ih, hstep hs, List.map_cons, latest]
      cases latest set? (rs.map Prod.fst) <;> rfl

theorem soa_step {req : Request} {o : Reply} (h : Service.Steps rnd s req o s') :
    s'.registry.soa = (soaSet? req).getD s.registry.soa := by
  cases req with
  | command line =>
      obtain ⟨names, -, -, rfl⟩ := steps_command h
      rw [soaSet?]
      cases command line <;> rfl
  | query type qdomain n rr b =>
      obtain ⟨-, rfl⟩ := steps_query h
      exact lookedUp_soa _ _ _

theorem ns_step {req : Request} {o : Reply} (h : Service.Steps rnd s req o s') :
    s'.registry.ns = (nsSet? req).getD s.registry.ns := by
  cases req with
  | command line =>
      obtain ⟨names, -, -, rfl⟩ := steps_command h
      rw [nsSet?]
      cases command line <;> rfl
  | query type qdomain n rr b =>
      obtain ⟨-, rfl⟩ := steps_query h
      exact lookedUp_ns _ _ _

/-- After the same requests a cell is the same exactly if it was before, or is set. -/
theorem cell_eq_iff {α : Type} (cell : Service → α) (set? : Request → Option α)
    (hstep : ∀ {s s' : Service} {req : Request} {o : Reply}, Service.Steps rnd s req o s' →
      cell s' = (set? req).getD (cell s))
    (h₁ : Service.Runs rnd s rs s') (h₂ : Service.Runs rnd t ps t') (hreqs : rs.map Prod.fst = ps.map Prod.fst) :
    cell s' = cell t' ↔ cell s = cell t ∨ ∃ req ∈ rs.map Prod.fst, (set? req).isSome = true := by
  rw [← latest_isSome, cell_runs cell set? hstep h₁, cell_runs cell set? hstep h₂, ← hreqs]
  cases latest set? (rs.map Prod.fst) <;> simp

end Cells

section Resync

variable {rnd : Randomness} {s s' t t' : Service} {o p : Reply}

/-- What a command makes of the domains depends on the domains only. -/
theorem apply_domains_congr {r r' : Registry} (h : r.domains = r'.domains) (cmd : Command) :
    (cmd.apply r).domains = (cmd.apply r').domains := by
  obtain ⟨domains, soa, ns⟩ := r
  obtain ⟨domains', soa', ns'⟩ := r'
  obtain rfl : domains = domains' := h
  cases cmd <;> rfl

theorem lookedUp_domains_congr {r r' : Registry} (h : r.domains = r'.domains) (type : QType) (name : Str) :
    (r.lookedUp type name).domains = (r'.lookedUp type name).domains := by
  rw [Registry.lookedUp, Registry.lookedUp]
  split_ifs
  · show Function.update _ _ _ = Function.update _ _ _
    rw [h]
  · exact h

/-- A command is answered alike up to the order of the map; what a query is told may differ. -/
def CommandsReordered : Request → Reply → Reply → Prop
  | .command line, o, p => Reordered (.command line) o p
  | .query _ _ _ _ _, _, _ => True

theorem unwinding_domains (rnd : Randomness) :
    Unwinding (Service.Steps rnd) (fun _ => true) (fun s t => s.registry.domains = t.registry.domains)
      CommandsReordered where
  dropped h := absurd h (by decide)
  kept {s s' t t' req o p} _ hR hs ht := by
    cases req with
    | command line =>
        refine ⟨reordered_of_domains hR hs ht, ?_⟩
        obtain ⟨names, -, -, rfl⟩ := steps_command hs
        obtain ⟨names', -, -, rfl⟩ := steps_command ht
        exact apply_domains_congr hR _
    | query type qdomain n rr b =>
        obtain ⟨-, rfl⟩ := steps_query hs
        obtain ⟨-, rfl⟩ := steps_query ht
        exact ⟨trivial, lookedUp_domains_congr hR _ _⟩

/-- A `CLR_DOMAINS` leaves no domain, and succeeds. -/
theorem steps_clear {line : Str} (hclear : command line = .domain .clear)
    (h : Service.Steps rnd s (.command line) o s') :
    o = .lines (DomainCommand.clear.answer true) ∧ s'.registry.domains = fun _ => none := by
  obtain ⟨names, -, rfl, rfl⟩ := steps_command h
  constructor
  · rw [hclear]
    rfl
  · show ((command line).apply s.registry).domains = _
    rw [hclear]
    rfl

theorem orders_nil {r : Registry} (h : r.domains = fun _ => none) : Service.Orders [] r :=
  ⟨List.nodup_nil, fun f => by rw [h]; simp⟩

/-- The replies to a `CLR_DOMAINS` are the same. -/
theorem reordered_clear {line : Str} (hclear : command line = .domain .clear)
    (hs : Service.Steps rnd s (.command line) o s') (ht : Service.Steps rnd t (.command line) p t') :
    Reordered (.command line) o p := by
  obtain ⟨rfl, -⟩ := steps_clear hclear hs
  obtain ⟨rfl, -⟩ := steps_clear hclear ht
  have hanswer : (command line).answer [] Registry.init = DomainCommand.clear.answer true := by
    rw [hclear]
    rfl
  exact ⟨fun _ => rfl, Registry.init, [], [], orders_nil rfl, orders_nil rfl, by rw [hanswer], by rw [hanswer]⟩

theorem runs_resync {clr : Str} (hclear : command clr = .domain .clear) {reqs : List Request}
    {rs ps : List (Request × Reply)} (h₁ : Service.Runs rnd s rs s') (h₂ : Service.Runs rnd t ps t')
    (hreqs₁ : rs.map Prod.fst = .command clr :: reqs) (hreqs₂ : ps.map Prod.fst = .command clr :: reqs) :
    s'.registry.domains = t'.registry.domains ∧ List.Forall₂ (AnsweredAlike CommandsReordered) rs ps := by
  cases h₁ with
  | nil => cases hreqs₁
  | @cons _ s₁ _ req₁ o rs hstep₁ hrest₁ =>
      cases h₂ with
      | nil => cases hreqs₂
      | @cons _ t₁ _ req₂ p ps hstep₂ hrest₂ =>
          obtain ⟨rfl, htail₁⟩ := List.cons.inj hreqs₁
          obtain ⟨rfl, htail₂⟩ := List.cons.inj hreqs₂
          have hdomains : s₁.registry.domains = t₁.registry.domains :=
            (steps_clear hclear hstep₁).2.trans (steps_clear hclear hstep₂).2.symm
          obtain ⟨hR, halike⟩ :=
            hrest₁.compare (unwinding_domains rnd) hrest₂ hdomains (htail₁.trans htail₂.symm)
          exact ⟨hR, List.Forall₂.cons ⟨rfl, reordered_clear hclear hstep₁ hstep₂⟩ halike⟩

end Resync

/-- **Sending everything again.**  After a `CLR_DOMAINS` the same requests bring any two daemons to the same
containers, counts included, and answer every command alike up to the order of the map.  The SOA container and the NS
list are not cleared: they come out the same exactly if they were the same, or if one of the requests sets them. -/
theorem resync (ord₁ ord₂ : MapOrder) (rnd : Randomness) {g₁ g₂ : Globals} (hg₁ : g₁.WellFormed)
    (hg₂ : g₂.WellFormed) {clr : Str} (hclear : command clr = .domain .clear) (reqs : List Request) :
    ∃ rs₁ rs₂ g₁' g₂', Served ord₁ rnd g₁ rs₁ g₁' ∧ Served ord₂ rnd g₂ rs₂ g₂' ∧
      rs₁.map Prod.fst = .command clr :: reqs ∧
      g₁'.lookupContainer = g₂'.lookupContainer ∧
      (g₁'.globalSOA = g₂'.globalSOA ↔
        g₁.globalSOA = g₂.globalSOA ∨ ∃ req ∈ reqs, (soaSet? req).isSome = true) ∧
      (g₁'.nsList = g₂'.nsList ↔ g₁.nsList = g₂.nsList ∨ ∃ req ∈ reqs, (nsSet? req).isSome = true) ∧
      List.Forall₂ (AnsweredAlike CommandsReordered) rs₁ rs₂ := by
  obtain ⟨rs₁, g₁', hserved₁, hreqs₁⟩ := exists_served ord₁ rnd hg₁ (.command clr :: reqs)
  obtain ⟨rs₂, g₂', hserved₂, hreqs₂⟩ := exists_served ord₂ rnd hg₂ (.command clr :: reqs)
  have hruns₁ := (hserved₁.service hg₁).2
  have hruns₂ := (hserved₂.service hg₂).2
  have hsame : rs₁.map Prod.fst = rs₂.map Prod.fst := hreqs₁.trans hreqs₂.symm
  -- the `CLR_DOMAINS` itself sets neither
  have hmem : ∀ {α : Type} (set? : Request → Option α), set? (.command clr) = none →
      ((∃ req ∈ rs₁.map Prod.fst, (set? req).isSome = true) ↔ ∃ req ∈ reqs, (set? req).isSome = true) := by
    intro α set? hnone
    rw [hreqs₁, List.exists_mem_cons_iff, hnone]
    exact or_iff_right Bool.false_ne_true
  have hsoa := cell_eq_iff (fun s => s.registry.soa) soaSet? soa_step hruns₁ hruns₂ hsame
  have hns := cell_eq_iff (fun s => s.registry.ns) nsSet? ns_step hruns₁ hruns₂ hsame
  rw [hmem soaSet? (by rw [soaSet?, hclear])] at hsoa
  rw [hmem nsSet? (by rw [nsSet?, hclear])] at hns
  obtain ⟨hdomains, halike⟩ := runs_resync hclear hruns₁ hruns₂ hreqs₁ hreqs₂
  exact ⟨rs₁, rs₂, g₁', g₂', hserved₁, hserved₂, hreqs₁, hdomains, hsoa, hns, halike⟩

/-- One daemon held a domain and one did not. -/
theorem resync_oneDomain :
    ∃ rs₁ rs₂ g₁' g₂', Served MapOrder.entries Randomness.counting (init 0) rs₁ g₁' ∧
      Served MapOrder.entries Randomness.counting oneDomainGlobals rs₂ g₂' ∧
      rs₁.map Prod.fst = [.command "CLR_DOMAINS".toList, .command "ADD_DOMAIN b RANDOM".toList] ∧
      g₁'.lookupContainer = g₂'.lookupContainer := by
  obtain ⟨rs₁, rs₂, g₁', g₂', hserved₁, hserved₂, hreqs, hdomains, -⟩ :=
    resync MapOrder.entries MapOrder.entries Randomness.counting (wellFormed_init 0)
      wellFormed_oneDomainGlobals (show command "CLR_DOMAINS".toList = .domain .clear by rfl)
      [.command "ADD_DOMAIN b RANDOM".toList]
  exact ⟨rs₁, rs₂, g₁', g₂', hserved₁, hserved₂, hreqs, hdomains⟩

/-! ### Watching -/

/-- The command looks at the daemon or clears counters. -/
def Command.watches : Command → Bool
  | .debug _ _ => true
  | .counts _ => true
  | .clear _ => true
  | .unknown _ => true
  | .domain (.unknown _) => true
  | _ => false

/-- The request is a command line that looks at the daemon or clears counters. -/
def Request.watches : Request → Bool
  | .command line => (GlbBackend.command line).watches
  | .query _ _ _ _ _ => false

/-- The request is a command line. -/
def Request.isCommand : Request → Bool
  | .command _ => true
  | .query _ _ _ _ _ => false

section Watching

variable {rnd : Randomness} {s s' t t' : Service} {o p : Reply} {req : Request}

theorem steps_zone (h : Service.Steps rnd s req o s') : s'.registry.zone = s.registry.zone.serve req := by
  rw [← zone_serve]
  cases req with
  | command line =>
      obtain ⟨names, -, -, rfl⟩ := steps_command h
      rfl
  | query type qdomain n rr b =>
      obtain ⟨-, rfl⟩ := steps_query h
      rfl

/-- Watching leaves the zone as it is. -/
theorem zone_apply_watches {cmd : Command} (h : cmd.watches = true) (r : Registry) :
    (cmd.apply r).zone = r.zone := by
  have hclear : ∀ args, ((Command.clear args).apply r).zone = r.zone := fun args =>
    Registry.directory_of_counts fun f => by
      split_ifs
      · cases r.domains f <;> rfl
      · rfl
  cases cmd with
  | domain cmd =>
      cases cmd with
      | unknown line => rfl
      | add fqdn algoName => cases h
      | del fqdn => cases h
      | snapshot fqdn entries => cases h
      | clear => cases h
  | debug nLoops showFull => rfl
  | counts args => rfl
  | clear args => exact hclear args
  | soa base text => cases h
  | ns records => cases h
  | unknown line => rfl

/-- A command that does not watch shows no counters. -/
theorem not_showsCounts {cmd : Command} (h : cmd.watches = false) : ¬ cmd.ShowsCounts := by
  cases cmd with
  | debug nLoops showFull => cases h
  | counts args => cases h
  | domain cmd => exact id
  | clear args => exact id
  | soa base text => exact id
  | ns records => exact id
  | unknown line => exact id

/-- What a container serves does not depend on its counter. -/
theorem served_of_domain {c c' : GlbContainer} (h : c.domain = c'.domain) (rnd : Randomness) (rng : ℕ) (mask : ℤ) :
    c.served rnd rng mask = c'.served rnd rng mask := by
  obtain ⟨htype, hips⟩ := Domain.mk.inj h
  rw [GlbContainer.served, GlbContainer.served, htype, hips]

theorem addresses_of_zone (hzone : s.registry.zone = t.registry.zone) (hrng : s.rng = t.rng) (type : QType)
    (name : Str) : s.addresses rnd type name = t.addresses rnd type name := by
  have hdir : (s.registry.domains name).map GlbContainer.domain = (t.registry.domains name).map GlbContainer.domain :=
    congrFun (congrArg Zone.directory hzone) name
  rw [Service.addresses, Service.addresses, hrng]
  cases hs : s.registry.domains name with
  | none =>
      rw [hs, Option.map_none] at hdir
      rw [Option.map_eq_none_iff.mp hdir.symm]
  | some c =>
      rw [hs, Option.map_some] at hdir
      obtain ⟨c', ht, hc⟩ := Option.map_eq_some_iff.mp hdir.symm
      rw [ht]
      cases lookupMask type with
      | none => rfl
      | some mask => exact served_of_domain hc.symm rnd t.rng mask

/-- A query is answered from the zone and the random engine. -/
theorem query_of_zone (hzone : s.registry.zone = t.registry.zone) (hrng : s.rng = t.rng) {type : QType}
    {qdomain : Str} {n : ℕ} {rr : DNSResourceRecord} {b : GLBBackend}
    (hs : Service.Steps rnd s (.query type qdomain n rr b) o s')
    (ht : Service.Steps rnd t (.query type qdomain n rr b) p t') : o = p ∧ s'.rng = t'.rng := by
  obtain ⟨rfl, rfl⟩ := steps_query hs
  obtain ⟨rfl, rfl⟩ := steps_query ht
  have hsoa : s.registry.soa = t.registry.soa := congrArg Zone.soa hzone
  have hns : s.registry.ns = t.registry.ns := congrArg Zone.ns hzone
  have haddresses : s.addresses rnd type (lower qdomain) = t.addresses rnd type (lower qdomain) :=
    addresses_of_zone hzone hrng type (lower qdomain)
  refine ⟨?_, congrArg Prod.snd haddresses⟩
  rw [Service.owed, Service.owed, haddresses, hsoa, hns]

/-- A command that shows no counters is answered from the zone. -/
theorem command_of_zone {line : Str} (hcounts : ¬ (command line).ShowsCounts)
    (hzone : s.registry.zone = t.registry.zone) (hs : Service.Steps rnd s (.command line) o s')
    (ht : Service.Steps rnd t (.command line) p t') : o = p := by
  obtain ⟨names, hnames, rfl, -⟩ := steps_command hs
  obtain ⟨names', hnames', rfl, -⟩ := steps_command ht
  rw [answer_of_zone hcounts hzone hnames hnames']

theorem steps_command_rng {line : Str} (h : Service.Steps rnd s (.command line) o s') : s'.rng = s.rng := by
  obtain ⟨names, -, -, rfl⟩ := steps_command h
  rfl

theorem unwinding_watching (rnd : Randomness) :
    Unwinding (Service.Steps rnd) (fun req => !req.watches)
      (fun s t => s.registry.zone = t.registry.zone ∧ s.rng = t.rng) (fun _ => Eq) where
  dropped {s s' t req o} hkeep hR hs := by
    cases req with
    | command line =>
        have hwatches : (command line).watches = true := by simpa [Request.watches] using hkeep
        refine ⟨?_, (steps_command_rng hs).trans hR.2⟩
        obtain ⟨names, -, -, rfl⟩ := steps_command hs
        exact (zone_apply_watches hwatches _).trans hR.1
    | query type qdomain n rr b => cases hkeep
  kept {s s' t t' req o p} hkeep hR hs ht := by
    have hzone : s'.registry.zone = t'.registry.zone := by rw [steps_zone hs, steps_zone ht, hR.1]
    cases req with
    | command line =>
        have hwatches : (command line).watches = false := by simpa [Request.watches] using hkeep
        exact ⟨command_of_zone (not_showsCounts hwatches) hR.1 hs ht, hzone,
          (steps_command_rng hs).trans (hR.2.trans (steps_command_rng ht).symm)⟩
    | query type qdomain n rr b =>
        obtain ⟨hanswer, hrng⟩ := query_of_zone hR.1 hR.2 hs ht
        exact ⟨hanswer, hzone, hrng⟩

/-- The requests are the same; a command that shows no counters has the same reply. -/
def AlikeButCounts : Request → Reply → Reply → Prop
  | .command line, o, p => ¬ (command line).ShowsCounts → o = p
  | .query _ _ _ _ _, _, _ => True

theorem unwinding_queries (rnd : Randomness) :
    Unwinding (Service.Steps rnd) Request.isCommand (fun s t => s.registry.zone = t.registry.zone)
      AlikeButCounts where
  dropped {s s' t req o} hkeep hR hs := by
    cases req with
    | command line => cases hkeep
    | query type qdomain n rr b => exact (steps_zone hs).trans hR
  kept {s s' t t' req o p} hkeep hR hs ht := by
    have hzone : s'.registry.zone = t'.registry.zone := by rw [steps_zone hs, steps_zone ht, hR]
    cases req with
    | command line => exact ⟨fun hcounts => command_of_zone hcounts hR hs ht, hzone⟩
    | query type qdomain n rr b => cases hkeep

end Watching

section Transparent

variable {ord : MapOrder} {rnd : Randomness} {g g' : Globals} {rs : List (Request × Reply)}

/-- **Watching does not show.**  Without its `COUNTS`, `CLR_COUNTS`, `DEBUG_DOMAINS` and unknown lines a run gives every
other request the reply it had, and ends in the same zone with the same random engine. -/
theorem monitoring_transparent (hg : g.WellFormed) (h : Served ord rnd g rs g') :
    ∃ h', Served ord rnd g (rs.filter fun r => !r.1.watches) h' ∧ h'.zone = g'.zone ∧ h'.rng = g'.rng := by
  obtain ⟨ps, h', hserved, hreqs⟩ := exists_served ord rnd hg ((rs.map Prod.fst).filter fun req => !req.watches)
  obtain ⟨⟨hzone, hrng⟩, halike⟩ := (h.service hg).2.unwind (unwinding_watching rnd) (hserved.service hg).2
    ⟨rfl, rfl⟩ hreqs.symm
  have heq : (rs.filter fun r => !r.1.watches) = ps := by
    rw [← List.forall₂_eq_eq_eq]
    exact halike.imp fun r p hrp => Prod.ext hrp.1 hrp.2
  exact ⟨h', heq ▸ hserved, hzone.symm, hrng.symm⟩

/-- **Queries do not show.**  Without its queries a run gives every command the reply it had, but for those that show
counters, and ends in the same zone. -/
theorem queries_transparent (hg : g.WellFormed) (h : Served ord rnd g rs g') :
    ∃ ps h', Served ord rnd g ps h' ∧ h'.zone = g'.zone ∧
      List.Forall₂ (AnsweredAlike AlikeButCounts) (rs.filter fun r => r.1.isCommand) ps := by
  obtain ⟨ps, h', hserved, hreqs⟩ := exists_served ord rnd hg ((rs.map Prod.fst).filter Request.isCommand)
  obtain ⟨hzone, halike⟩ := (h.service hg).2.unwind (unwinding_queries rnd) (hserved.service hg).2 rfl hreqs.symm
  exact ⟨ps, h', hserved, hzone.symm, halike⟩

end Transparent

/-- A `COUNTS` between two commands. -/
theorem monitoring_transparent_counts :
    ∃ rs g', Served MapOrder.entries Randomness.counting (init 0) rs g' ∧
      rs.map Prod.fst = [.command "ADD_DOMAIN a NONE".toList, .command "COUNTS".toList,
        .command "DEL_DOMAIN a".toList] ∧
      ∃ h', Served MapOrder.entries Randomness.counting (init 0) (rs.filter fun r => !r.1.watches) h' ∧
        h'.zone = g'.zone ∧ h'.rng = g'.rng := by
  obtain ⟨rs, g', hserved, hreqs⟩ := exists_served MapOrder.entries Randomness.counting (wellFormed_init 0)
    [.command "ADD_DOMAIN a NONE".toList, .command "COUNTS".toList, .command "DEL_DOMAIN a".toList]
  exact ⟨rs, g', hserved, hreqs, monitoring_transparent (wellFormed_init 0) hserved⟩

/-- A query between two commands. -/
theorem queries_transparent_oneQuery :
    ∃ rs g', Served MapOrder.entries Randomness.counting (init 0) rs g' ∧
      rs.map Prod.fst = [.command "ADD_DOMAIN a NONE".toList,
        .query QType.A "a".toList 3 ⟨[], 0, [], QType.A, false, 0⟩ GLBBackend.new, .command "DEL_DOMAIN a".toList] ∧
      ∃ ps h', Served MapOrder.entries Randomness.counting (init 0) ps h' ∧ h'.zone = g'.zone ∧
        List.Forall₂ (AnsweredAlike AlikeButCounts) (rs.filter fun r => r.1.isCommand) ps := by
  obtain ⟨rs, g', hserved, hreqs⟩ := exists_served MapOrder.entries Randomness.counting (wellFormed_init 0)
    [.command "ADD_DOMAIN a NONE".toList, .query QType.A "a".toList 3 ⟨[], 0, [], QType.A, false, 0⟩ GLBBackend.new,
      .command "DEL_DOMAIN a".toList]
  exact ⟨rs, g', hserved, hreqs, queries_transparent (wellFormed_init 0) hserved⟩

end GlbBackend
