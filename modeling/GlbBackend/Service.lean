import GlbBackend.AnswerStream
import GlbBackend.Requests
import GlbBackend.Concurrent.Unwinding

/-!
# The daemon without its memory

A `Service` is a registry and the state of the random engine, and that is all a client can ever see of the daemon:
where the containers and vectors lie, which of them are garbage and who still points to them changes no reply.
`Service.serve` says what each request does and replies, as a function; only the order in which the whole map is
walked is the library's, and a list of the mapped names stands for it.

`serve_service` is the step of the refinement and `service_refines` the run: the requests of any sequential run are
answered as the service answers them.
-/

namespace GlbBackend

open Text Concurrent Concurrent.Proc Globals

/-- What the daemon shows. -/
structure Service where
  registry : Registry
  rng : ℕ

def Globals.service (g : Globals) : Service := ⟨g.registry, g.rng⟩

/-! ### The specification -/

/-- The records that a container serves, and the random engine afterwards. -/
def GlbContainer.served (c : GlbContainer) (rnd : Randomness) (rng : ℕ) (mask : ℤ) : List IPRecord × ℕ :=
  if c.glbType = GlbType.NONE then (getIPSNoneAlgo c.ips [] mask, rng)
  else if c.glbType = GlbType.RANDOM then
    let r := getIPSRandomAlgo rnd.lib rnd.gen rng c.ips [] mask
    (r.1.getD [], r.2)
  else ([], rng)

namespace Service

/-- The records served for a name. -/
def addresses (s : Service) (rnd : Randomness) (type : QType) (name : Str) : List IPRecord × ℕ :=
  match s.registry.domains name, lookupMask type with
  | some c, some mask => c.served rnd s.rng mask
  | _, _ => ([], s.rng)

/-- The records owed to a query; `content` is the SOA text that the instance holds. -/
def owed (s : Service) (rnd : Randomness) (type : QType) (qdomain content : Str) : List DNSResourceRecord :=
  authorityAnswer type qdomain content s.registry.soa.baseFQDN s.registry.ns
    ++ (s.addresses rnd type (lower qdomain)).1.map (addressRR qdomain)

/-- What a request replies and what it leaves, when the mapped names are walked in this order. -/
def serve (rnd : Randomness) (names : List Str) (s : Service) : Request → Reply × Service
  | .command line =>
      (.lines ((command line).answer names s.registry), ⟨(command line).apply s.registry, s.rng⟩)
  | .query type qdomain n _ b =>
      (.answers (deliver n (s.owed rnd type qdomain (loadedSOA b (lower qdomain) s.registry.soa))),
        ⟨s.registry.lookedUp type (lower qdomain), (s.addresses rnd type (lower qdomain)).2⟩)

/-- An order of the mapped names. -/
structure Orders (names : List Str) (r : Registry) : Prop where
  nodup : names.Nodup
  mem : ∀ f, f ∈ names ↔ (r.domains f).isSome = true

/-- One request, with some order of the mapped names. -/
def Steps (rnd : Randomness) (s : Service) (req : Request) (reply : Reply) (s' : Service) : Prop :=
  ∃ names, Orders names s.registry ∧ s.serve rnd names req = (reply, s')

/-- A run of the service. -/
abbrev Runs (rnd : Randomness) : Service → List (Request × Reply) → Service → Prop := Journal (Steps rnd)

end Service

/-! ### Command lines leave the random engine alone -/

/-- Accesses that leave the random engine alone. -/
abbrev KeepsRng (f : Globals → Globals) : Prop := ∀ g, (f g).rng = g.rng

section KeepsRng

variable {α : Type}

theorem keepsRng_read_bind {q : Globals → Code α} (hq : ∀ g, Accesses KeepsRng (q g)) :
    Accesses KeepsRng (Proc.read.bind q) :=
  ⟨fun _ => rfl, hq⟩

theorem keepsRng_modify {f : Globals → Globals} (hf : KeepsRng f) :
    Accesses KeepsRng (modify f : Code Unit) :=
  ⟨hf, fun _ => trivial⟩

theorem keepsRng_block {p : Code α} (hp : Accesses KeepsRng p) (l : LockId) (m : Mode) (c : Scope) :
    Accesses KeepsRng (guarded l m (scope c p)) :=
  Accesses.guarded (Accesses.scope hp c) l m

theorem keepsRng_addDomain (line : Str) : Accesses KeepsRng (addDomain line) := by
  rw [addDomain]
  split_ifs
  · trivial
  · refine Accesses.bind (Accesses.expect _) fun fqdn => Accesses.bind (Accesses.expect _) fun algoName => ?_
    simp only
    split_ifs
    · trivial
    · refine Accesses.bind (keepsRng_block (keepsRng_read_bind fun g => ?_) _ _ _) fun known => ?_
      · split_ifs
        · trivial
        · exact keepsRng_modify fun _ => rfl
      · split_ifs <;> trivial

theorem keepsRng_delDomain (line : Str) : Accesses KeepsRng (delDomain line) := by
  rw [delDomain]
  refine Accesses.bind (Accesses.expect _) fun fqdn => ?_
  simp only
  split_ifs
  · trivial
  · refine Accesses.bind (keepsRng_block (keepsRng_read_bind fun g => ?_) _ _ _) fun found => ?_
    · split_ifs
      · trivial
      · exact keepsRng_modify fun _ => rfl
    · split_ifs <;> trivial

theorem keepsRng_clearDomains (line : Str) : Accesses KeepsRng (clearDomains line) :=
  Accesses.bind (p := debug) trivial fun _ =>
    Accesses.bind (keepsRng_block (keepsRng_modify fun _ => rfl) .glbMapMutex .exclusive .clearDomains)
      fun _ => trivial

theorem keepsRng_pushIPs (p : Ptr) (ips : List IPRecord) : Accesses KeepsRng (pushIPs p ips) := by
  induction ips with
  | nil => trivial
  | cons r rest ih => exact Accesses.bind (keepsRng_modify fun _ => rfl) fun _ => ih

theorem keepsRng_snapshotDomain (line : Str) : Accesses KeepsRng (snapshotDomain line) := by
  rw [snapshotDomain]
  split_ifs
  · trivial
  · refine Accesses.bind (Accesses.expect _) fun fqdn => Accesses.bind (Accesses.expect _) fun decoded => ?_
    refine Accesses.bind (keepsRng_block (keepsRng_read_bind fun g => ?_) _ _ _) fun glb => ?_
    · trivial
    · cases glb with
      | none => trivial
      | some p =>
          exact Accesses.bind (keepsRng_block (keepsRng_pushIPs p _) (.glbMutex p) .exclusive .setIPs)
            fun _ => trivial

theorem keepsRng_setSOA (line : Str) : Accesses KeepsRng (setSOA line) := by
  rw [setSOA]
  split_ifs
  · trivial
  · exact Accesses.bind (Accesses.expect _) fun base =>
      Accesses.bind (keepsRng_block (keepsRng_modify fun _ => rfl) .soaMutex .exclusive .setGlobalSOARecord)
        fun _ => trivial

theorem keepsRng_setNS (line : Str) : Accesses KeepsRng (setNS line) := by
  rw [setNS]
  split_ifs
  · trivial
  · exact Accesses.bind (keepsRng_block (keepsRng_modify fun _ => rfl) .soaMutex .exclusive .setNSRecords)
      fun _ => trivial

theorem keepsRng_getNLookups (glb : Ptr) : Accesses KeepsRng (getNLookups glb) := by
  refine Accesses.guarded (keepsRng_read_bind fun g => ?_) _ _
  exact Accesses.bind (Accesses.expect _) fun _ => trivial

theorem keepsRng_clrNLookups (glb : Ptr) : Accesses KeepsRng (clrNLookups glb) :=
  Accesses.guarded (keepsRng_modify fun _ => rfl) (.nLookupsMutex glb) .exclusive

theorem keepsRng_getCounts (ord : MapOrder) (line : Str) : Accesses KeepsRng (getCounts ord line) := by
  have hargs (args : List Str) (jb : ServerJsonBuilder) (failed : Bool) :
      Accesses KeepsRng (countArgs args jb failed) := by
    induction args generalizing jb failed with
    | nil => trivial
    | cons fqdn rest ih =>
        refine Accesses.bind (keepsRng_block (keepsRng_read_bind fun g => ?_) _ _ _) fun r => ih _ _
        cases g.find fqdn with
        | none => trivial
        | some glb => exact Accesses.bind (keepsRng_getNLookups glb) fun _ => trivial
  have hall (entries : List (Str × Ptr)) (jb : ServerJsonBuilder) : Accesses KeepsRng (countAll entries jb) := by
    induction entries generalizing jb with
    | nil => trivial
    | cons e rest ih => exact Accesses.bind (keepsRng_getNLookups e.2) fun n => ih _
  rw [getCounts]
  simp only
  split_ifs
  · exact Accesses.bind (hargs _ _ _) fun _ => trivial
  · exact Accesses.bind (keepsRng_block (keepsRng_read_bind fun g => hall _ _) _ _ _) fun _ => trivial

theorem keepsRng_clearCounts (ord : MapOrder) (line : Str) : Accesses KeepsRng (clearCounts ord line) := by
  have hargs (args : List Str) (jb : ServerJsonBuilder) (failed : Bool) :
      Accesses KeepsRng (clearArgs args jb failed) := by
    induction args generalizing jb failed with
    | nil => trivial
    | cons fqdn rest ih =>
        refine keepsRng_read_bind fun g => ?_
        cases g.find fqdn with
        | none => exact ih _ _
        | some glb => exact Accesses.bind (keepsRng_clrNLookups glb) fun _ => ih _ _
  have hall (entries : List (Str × Ptr)) : Accesses KeepsRng (clearAll entries) := by
    induction entries with
    | nil => trivial
    | cons e rest ih => exact Accesses.bind (keepsRng_clrNLookups e.2) fun _ => ih
  rw [clearCounts]
  simp only
  split_ifs
  · exact Accesses.bind (keepsRng_block (hargs _ _ _) _ _ _) fun _ => trivial
  · exact Accesses.bind (keepsRng_block (keepsRng_read_bind fun g => hall _) _ _ _) fun _ => trivial

theorem keepsRng_debugDomains (ord : MapOrder) (line : Str) : Accesses KeepsRng (debugDomains ord line) := by
  have hpass (showFull : Bool) (entries : List (Str × Ptr)) : Accesses KeepsRng (debugPass showFull entries) := by
    induction entries with
    | nil => trivial
    | cons e rest ih =>
        refine Accesses.bind (p := containerToString e.2 showFull) (Accesses.guarded (keepsRng_read_bind fun g => ?_) _ _)
          fun _ => Accesses.bind ih fun _ => trivial
        exact Accesses.bind (Accesses.expect _) fun _ => trivial
  have hloop (showFull : Bool) (entries : List (Str × Ptr)) (n : ℕ) :
      Accesses KeepsRng (debugLoop showFull entries n) := by
    induction n with
    | zero => trivial
    | succ n ih => exact Accesses.bind (hpass showFull entries) fun _ => Accesses.bind ih fun _ => trivial
  exact keepsRng_block (keepsRng_read_bind fun g => hloop _ _ _) _ _ _

/-- **No command line touches the random engine.** -/
theorem keepsRng_dispatch (ord : MapOrder) (line : Str) : Accesses KeepsRng (dispatch ord line) := by
  rw [dispatch]
  split_ifs
  · exact keepsRng_debugDomains ord line
  · exact keepsRng_addDomain line
  · exact keepsRng_delDomain line
  · exact keepsRng_snapshotDomain line
  · exact keepsRng_getCounts ord line
  · exact keepsRng_clearCounts ord line
  · exact keepsRng_setSOA line
  · exact keepsRng_setNS line
  · exact keepsRng_clearDomains line
  · trivial

end KeepsRng

/-! ### Queries -/

section Query

variable {g g' : Globals}

theorem service_update (hg : g.WellFormed) {name : Str} {p : Ptr} (hf : g.find name = some p)
    (u : GlbContainer → GlbContainer) (rng : ℕ) :
    ({ g.update p u with rng := rng } : Globals).service
      = ⟨{ g.registry with
            domains := Function.update g.registry.domains name ((g.registry.domains name).map u) }, rng⟩ := by
  show Service.mk ⟨(g.update p u).lookupContainer, g.globalSOA, g.nsList⟩ rng = _
  rw [hg.lookupContainer_update hf]
  rfl

/-- `getIPs`, run alone, counts the lookup and serves the container's records. -/
theorem run_getIPs {p : Ptr} {c : GlbContainer} (hc : g.container p = some c) (rnd : Randomness) (mask : ℤ) :
    (getIPs rnd p [] mask).run g
      = some ((c.served rnd g.rng mask).1,
          { g.update p (·.incNLookups) with rng := (c.served rnd g.rng mask).2 }) := by
  have hc₁ : (g.update p (·.incNLookups)).container p = some c.incNLookups := by
    rw [container_update, if_pos rfl, hc, Option.map_some]
  have htype : c.incNLookups.glbType = c.glbType := rfl
  have hips : c.incNLookups.ips = c.ips := rfl
  have hrng : (g.update p (·.incNLookups)).rng = g.rng := rfl
  simp only [getIPs, incNLookups, bind_eq, run_bind, run_lockGuard, run_modify, run_read, Option.bind_some, hc₁,
    expect_some, run_ret, htype, GlbContainer.served]
  split_ifs with h1 h2
  · simp only [run_sharedLock, run_scope, run_bind, run_read, Option.bind_some, hc₁, expect_some, run_ret, hips]
    rfl
  · obtain ⟨served, hserved, -⟩ := getIPSRandomAlgo_eq rnd.lib rnd.gen g.rng c.ips [] mask
    simp only [run_sharedLock, run_scope, run_bind, run_read, Option.bind_some, hc₁, expect_some, run_ret, hips,
      run_access, hrng, hserved, Option.getD_some]
  · rfl

/-- The last part of `lookup`, run alone, on an instance that holds no records. -/
theorem run_lookupIPs (hg : g.WellFormed) (rnd : Randomness) (type : QType) (name : Str) {b : GLBBackend}
    (hips : b.ips = []) :
    ∃ g', (lookupIPs rnd type name b).run g
        = some ({ b with ips := (g.service.addresses rnd type name).1 }, g') ∧
      g'.service = ⟨g.registry.lookedUp type name, (g.service.addresses rnd type name).2⟩ := by
  have hb : ({ b with ips := [] } : GLBBackend) = b := by rw [← hips]
  simp only [lookupIPs, bind_eq, run_bind, run_scope, run_read, Option.bind_some, run_ret]
  cases hf : g.find name with
  | none =>
      have hnone : g.registry.domains name = none := lookupContainer_of_find_none hf
      have haddresses : g.service.addresses rnd type name = ([], g.rng) := by
        rw [Service.addresses, show g.service.registry.domains name = none from hnone]
        rfl
      have hlooked : g.registry.lookedUp type name = g.registry := by
        rw [Registry.lookedUp, hnone, Option.map_none, ← hnone, Function.update_eq_self, ite_self]
      rw [haddresses, hlooked, hb]
      exact ⟨g, rfl, rfl⟩
  | some p =>
      obtain ⟨c, hc, hlook, -⟩ := hg.lookupContainer_of_find hf
      have hdomain : g.service.registry.domains name = some c := hlook
      cases hm : lookupMask type with
      | none =>
          have haddresses : g.service.addresses rnd type name = ([], g.rng) := by
            rw [Service.addresses, hdomain, hm]
            rfl
          have hlooked : g.registry.lookedUp type name = g.registry := by
            rw [Registry.lookedUp, hm]
            rfl
          rw [haddresses, hlooked, hb]
          exact ⟨g, rfl, rfl⟩
      | some mask =>
          have haddresses : g.service.addresses rnd type name = c.served rnd g.rng mask := by
            rw [Service.addresses, hdomain, hm]
            rfl
          have hlooked : g.registry.lookedUp type name = { g.registry with
              domains := Function.update g.registry.domains name
                ((g.registry.domains name).map GlbContainer.incNLookups) } := by
            rw [Registry.lookedUp, hm]
            rfl
          rw [haddresses, hlooked, ← service_update hg hf]
          refine ⟨_, ?_, rfl⟩
          simp only [run_bind, run_debug, Option.bind_some, hips, run_getIPs hc, run_ret]

/-- **A query, run alone**, is answered as the service answers it. -/
theorem query_service (hg : g.WellFormed) (rnd : Randomness) (type : QType) (qdomain : Str) (n : ℕ)
    (rr : DNSResourceRecord) (b : GLBBackend) :
    ∃ g', (query rnd type qdomain n rr b).run g
        = some (deliver n (g.service.owed rnd type qdomain (loadedSOA b (lower qdomain) g.globalSOA)), g') ∧
      g'.service = ⟨g.registry.lookedUp type (lower qdomain),
        (g.service.addresses rnd type (lower qdomain)).2⟩ := by
  obtain ⟨b', g₁, hlookup, hg₁, hready, hauthority⟩ := lookup_run hg rnd type qdomain b
  -- what `lookup` does in its last part, and what that part is given
  have hparts := hlookup
  simp only [lookup, bind_eq, run_bind, run_debug, Option.bind_some] at hparts
  obtain ⟨⟨b₁, s₁⟩, hsoa, hafter⟩ := Option.bind_eq_some_iff.mp hparts
  obtain ⟨⟨b₂, s₂⟩, hns, hlast⟩ := Option.bind_eq_some_iff.mp hafter
  obtain rfl : s₁ = g := state_of_readsOnly (readsOnly_lookupSOA _ _ _) hsoa
  obtain rfl : s₂ = s₁ := state_of_readsOnly (readsOnly_lookupNS _ _ _) hns
  obtain ⟨vs₁, ht₁, -⟩ := run_trace hsoa
  obtain ⟨vs₂, ht₂, -⟩ := run_trace hns
  obtain ⟨hips₁, hname₁⟩ := lookupSOA_keeps ht₁
  obtain ⟨hips₂, hname₂⟩ := lookupNS_keeps ht₂
  obtain ⟨g₂, hrun, hservice⟩ := run_lookupIPs hg rnd type (lower qdomain) (hips₂.trans hips₁)
  obtain ⟨hb', hg'⟩ := Prod.mk.inj (Option.some.inj (hlast.symm.trans hrun))
  have hpending : b'.pending g₁
      = s₂.service.owed rnd type qdomain (loadedSOA b (lower qdomain) s₂.globalSOA) := by
    rw [GLBBackend.pending, hauthority, Service.owed, GLBBackend.pendingIPs, hb', hname₂, hname₁]
    rfl
  -- the calls of `get`
  obtain ⟨⟨as, b₃⟩, g₃, hgets, -, -, -, -, has⟩ :=
    (gets_safe g₁ n rr hready).run Grows.refl Grows.trans hg₁ (Grows.refl g₁)
  have has : as = deliver n (b'.pending g₁) := has
  obtain rfl : g₃ = g₁ := state_of_readsOnly (readsOnly_gets n rr b') hgets
  refine ⟨g₃, ?_, by rw [hg']; exact hservice⟩
  simp only [query, bind_eq, run_bind, hlookup, Option.bind_some, hgets, run_ret, has, hpending]

end Query

/-! ### The refinement -/

section Refinement

variable {ord : MapOrder} {rnd : Randomness} {g g' : Globals}

theorem orders_names (ord : MapOrder) (hg : g.WellFormed) : Service.Orders (ord.names g) g.registry := by
  refine ⟨ord.nodup_names g, fun f => ?_⟩
  rw [ord.mem_names]
  exact (hg.lookupContainer_isSome f).symm ▸ Iff.rfl

/-- **One request** is served as the service serves it. -/
theorem serve_service (ord : MapOrder) (rnd : Randomness) (hg : g.WellFormed) (req : Request) :
    ∃ g', (serve ord rnd req).run g = some ((g.service.serve rnd (ord.names g) req).1, g') ∧ g'.WellFormed ∧
      g'.service = (g.service.serve rnd (ord.names g) req).2 := by
  suffices h : ∃ g', (serve ord rnd req).run g = some ((g.service.serve rnd (ord.names g) req).1, g') ∧
      g'.service = (g.service.serve rnd (ord.names g) req).2 by
    obtain ⟨g', hrun, hservice⟩ := h
    exact ⟨g', hrun, (serve_registry hg hrun).1, hservice⟩
  cases req with
  | command line =>
      obtain ⟨g', hrun, -, hregistry⟩ := dispatch_registry ord hg line
      have hrng : g'.rng = g.rng :=
        Accesses.run (G := fun s t : Globals => t.rng = s.rng) (fun f hf s => hf s) (fun _ => rfl)
          (fun h1 h2 => h2.trans h1) (keepsRng_dispatch ord line) hrun
      refine ⟨g', ?_, ?_⟩
      · simp only [serve, run_bind, hrun, Option.bind_some, run_ret]
        rfl
      · show Service.mk g'.registry g'.rng = _
        rw [hregistry, hrng]
        rfl
  | query type qdomain n rr b =>
      obtain ⟨g', hrun, hservice⟩ := query_service hg rnd type qdomain n rr b
      refine ⟨g', ?_, hservice⟩
      simp only [serve, run_bind, hrun, Option.bind_some, run_ret]
      rfl

theorem exists_served (ord : MapOrder) (rnd : Randomness) (hg : g.WellFormed) (reqs : List Request) :
    ∃ rs g', Served ord rnd g rs g' ∧ rs.map Prod.fst = reqs := by
  induction reqs generalizing g with
  | nil => exact ⟨[], g, Served.nil g, rfl⟩
  | cons req reqs ih =>
      obtain ⟨g₁, hrun, hg₁, -⟩ := serve_service ord rnd hg req
      obtain ⟨rs, g', hserved, hreqs⟩ := ih hg₁
      exact ⟨_, g', Served.cons hrun hserved, by rw [List.map_cons, hreqs]⟩

theorem Served.service (hg : g.WellFormed) {rs : List (Request × Reply)} (h : Served ord rnd g rs g') :
    g'.WellFormed ∧ Service.Runs rnd g.service rs g'.service := by
  induction h with
  | nil g => exact ⟨hg, Journal.nil _⟩
  | @cons g g₁ g₂ req reply rs hrun _ ih =>
      obtain ⟨g₁', hrun', hg₁, hservice⟩ := serve_service ord rnd hg req
      obtain ⟨hreply, rfl⟩ := Prod.mk.inj (Option.some.inj (hrun.symm.trans hrun'))
      obtain ⟨hg₂, hruns⟩ := ih hg₁
      exact ⟨hg₂, Journal.cons ⟨ord.names g, orders_names ord hg, Prod.ext hreply.symm hservice.symm⟩ hruns⟩

end Refinement

end GlbBackend
