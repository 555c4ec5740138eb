import GlbBackend.Registry

/-!
# Requests one at a time

A sequential run of the daemon: command lines and queries, each served to its end before the next one
(`Served`).  A query does one thing to the registry: if it asks for addresses, the container of its
lowercased name counts it (`Registry.lookedUp`).  So the registry after a run is a fold over the requests
(`Served.registry`), and facts about whole runs become facts about that fold.
-/

namespace GlbBackend

open Text Concurrent Concurrent.Proc Globals

/-! ### Code that only reads -/

/-- Every access leaves the state as it is. -/
abbrev ReadsOnly {α : Type} (p : Code α) : Prop := Accesses (fun f => f = id) p

section ReadsOnly

variable {α : Type}

/-- Run alone, such code ends in the state it started in. -/
theorem state_of_readsOnly {p : Code α} (hp : ReadsOnly p) {g g' : Globals} {a : α}
    (hrun : p.run g = some (a, g')) : g' = g :=
  Accesses.run (G := fun s t => t = s) (fun f hf s => by rw [hf]; rfl) (fun _ => rfl)
    (fun h1 h2 => h2.trans h1) hp hrun

theorem readsOnly_read_bind {q : Globals → Code α} (hq : ∀ g, ReadsOnly (q g)) :
    ReadsOnly (Proc.read.bind q) :=
  ⟨rfl, hq⟩

theorem readsOnly_debug_bind {q : Code α} (hq : ReadsOnly q) : ReadsOnly (debug.bind fun _ => q) := hq

theorem readsOnly_debugNS (ns : List Str) : ReadsOnly (debugNS ns) := by
  induction ns with
  | nil => trivial
  | cons n ns ih => exact readsOnly_debug_bind ih

theorem readsOnly_lookupSOA (type : QType) (name : Str) (b : GLBBackend) :
    ReadsOnly (lookupSOA type name b) := by
  rw [lookupSOA]
  split_ifs
  · refine Accesses.bind (p := getGlobalSOARecord) ⟨rfl, fun _ => trivial⟩ fun soa => ?_
    simp only
    split_ifs <;> trivial
  · trivial

theorem readsOnly_lookupNS (type : QType) (name : Str) (b : GLBBackend) :
    ReadsOnly (lookupNS type name b) := by
  rw [lookupNS]
  generalize (if type = QType.SOA then { b with sendSOA := true } else b) = b₁
  split_ifs
  · refine readsOnly_debug_bind (Accesses.bind (p := getNSRecords) ⟨rfl, fun _ => trivial⟩ fun _ =>
      readsOnly_read_bind fun _ => Accesses.bind (Accesses.expect _) fun recs => ?_)
    exact Accesses.bind (readsOnly_debugNS recs) fun _ => trivial
  · trivial

theorem readsOnly_getIP (rr : DNSResourceRecord) (b : GLBBackend) : ReadsOnly (getIP rr b) := by
  rw [getIP]
  cases b.ips <;> trivial

theorem readsOnly_get (rr : DNSResourceRecord) (b : GLBBackend) : ReadsOnly (get rr b) := by
  rw [get]
  split_ifs
  · trivial
  · refine Accesses.bind (Accesses.expect _) fun v => readsOnly_read_bind fun g =>
      Accesses.bind (Accesses.expect _) fun recs => ?_
    split_ifs
    · exact readsOnly_getIP rr _
    · exact Accesses.bind (Accesses.expect _) fun _ => trivial
  · exact readsOnly_getIP rr b

theorem readsOnly_gets (n : ℕ) (rr : DNSResourceRecord) (b : GLBBackend) : ReadsOnly (gets n rr b) := by
  induction n generalizing rr b with
  | zero => trivial
  | succ n ih => exact Accesses.bind (readsOnly_get rr b) fun r => Accesses.bind (ih _ _) fun _ => trivial

end ReadsOnly

/-! ### Queries -/

/-- The registry after a lookup: if addresses are asked for, the container of the name counts it. -/
def Registry.lookedUp (r : Registry) (type : QType) (name : Str) : Registry :=
  if (lookupMask type).isSome then
    { r with domains := Function.update r.domains name ((r.domains name).map GlbContainer.incNLookups) }
  else r

section Lookup

variable {g g' : Globals}

/-- A state that differs from another in the random engine at most. -/
def SameButRng (g g' : Globals) : Prop := ∃ rng, g' = { g with rng := rng }

theorem SameButRng.registry (h : SameButRng g g') : g'.registry = g.registry := by
  obtain ⟨rng, rfl⟩ := h
  rfl

/-- `getIPs` counts the lookup, and then at most the random engine moves. -/
theorem getIPs_state {rnd : Randomness} {p : Ptr} {dq out : List IPRecord} {mask : ℤ}
    (hrun : (getIPs rnd p dq mask).run g = some (out, g')) :
    SameButRng (g.update p (·.incNLookups)) g' := by
  simp only [getIPs, incNLookups, bind_eq, run_bind, run_lockGuard, run_modify, run_read,
    Option.bind_some] at hrun
  generalize g.update p (·.incNLookups) = g₁ at hrun ⊢
  cases hc : g₁.container p with
  | none => simp [hc, expect] at hrun
  | some c =>
      simp only [hc, expect_some, run_ret, Option.bind_some] at hrun
      split_ifs at hrun with h1 h2
      · simp only [run_sharedLock, run_scope, run_bind, run_read, Option.bind_some, hc, expect_some, run_ret,
          Option.some.injEq, Prod.mk.injEq] at hrun
        exact ⟨g₁.rng, hrun.2.symm⟩
      · simp only [run_sharedLock, run_scope, run_bind, run_read, Option.bind_some, hc, expect_some, run_ret,
          run_access] at hrun
        cases hdq : (getIPSRandomAlgo rnd.lib rnd.gen g₁.rng c.ips dq mask).1 with
        | none => simp [hdq, expect] at hrun
        | some dq' =>
            simp only [hdq, expect_some, run_ret, Option.some.injEq, Prod.mk.injEq] at hrun
            exact ⟨_, hrun.2.symm⟩
      · simp only [run_ret, Option.some.injEq, Prod.mk.injEq] at hrun
        exact ⟨g₁.rng, hrun.2.symm⟩

theorem lookupIPs_registry (hg : g.WellFormed) {rnd : Randomness} {type : QType} {name : Str}
    {b b' : GLBBackend} (hrun : (lookupIPs rnd type name b).run g = some (b', g')) :
    g'.registry = g.registry.lookedUp type name := by
  simp only [lookupIPs, bind_eq, run_bind, run_scope, run_read, Option.bind_some, run_ret] at hrun
  cases hf : g.find name with
  | none =>
      simp only [hf, run_ret, Option.some.injEq, Prod.mk.injEq] at hrun
      rw [← hrun.2, Registry.lookedUp]
      have hnone : g.registry.domains name = none := lookupContainer_of_find_none hf
      rw [hnone, Option.map_none, ← hnone, Function.update_eq_self, ite_self]
  | some p =>
      rw [hf] at hrun
      simp only at hrun
      cases hm : lookupMask type with
      | none =>
          simp only [hm, run_ret, Option.some.injEq, Prod.mk.injEq] at hrun
          rw [← hrun.2, Registry.lookedUp, hm]
          rfl
      | some mask =>
          simp only [hm, run_bind, run_debug, Option.bind_some] at hrun
          obtain ⟨⟨out, g₁⟩, hget, hret⟩ := Option.bind_eq_some_iff.mp hrun
          simp only [run_ret, Option.some.injEq, Prod.mk.injEq] at hret
          have hsame := (getIPs_state hget).registry
          rw [← hret.2, hsame, Registry.lookedUp, hm, Globals.registry, hg.lookupContainer_update hf]
          rfl

/-- **A lookup, run alone**, counts itself and changes nothing else of the registry. -/
theorem lookup_registry (hg : g.WellFormed) {rnd : Randomness} {type : QType} {qdomain : Str}
    {b b' : GLBBackend} (hrun : (lookup rnd type qdomain b).run g = some (b', g')) :
    g'.registry = g.registry.lookedUp type (lower qdomain) := by
  simp only [lookup, bind_eq, run_bind, run_debug, Option.bind_some] at hrun
  obtain ⟨⟨b₁, g₁⟩, hsoa, hrun⟩ := Option.bind_eq_some_iff.mp hrun
  obtain ⟨⟨b₂, g₂⟩, hns, hrun⟩ := Option.bind_eq_some_iff.mp hrun
  rw [state_of_readsOnly (readsOnly_lookupSOA _ _ _) hsoa] at hns
  rw [state_of_readsOnly (readsOnly_lookupNS _ _ _) hns] at hrun
  exact lookupIPs_registry hg hrun

theorem query_registry (hg : g.WellFormed) {rnd : Randomness} {type : QType} {qdomain : Str} {n : ℕ}
    {rr : DNSResourceRecord} {b : GLBBackend} {as : List (Option DNSResourceRecord)}
    (hrun : (query rnd type qdomain n rr b).run g = some (as, g')) :
    g'.registry = g.registry.lookedUp type (lower qdomain) := by
  simp only [query, bind_eq, run_bind] at hrun
  obtain ⟨⟨b₁, g₁⟩, hlookup, hrun⟩ := Option.bind_eq_some_iff.mp hrun
  obtain ⟨⟨r, g₂⟩, hgets, hrun⟩ := Option.bind_eq_some_iff.mp hrun
  simp only [run_ret, Option.some.injEq, Prod.mk.injEq] at hrun
  rw [← hrun.2, state_of_readsOnly (readsOnly_gets _ _ _) hgets]
  exact lookup_registry hg hlookup

end Lookup

/-! ### Runs of requests -/

/-- Does the request take the domain away? -/
def TakesAway (f : Str) : Request → Prop
  | .command line => domainCommand? line = some (.del f) ∨ domainCommand? line = some .clear
  | .query _ _ _ _ _ => False

/-- What a request does to the registry. -/
def Registry.serve (r : Registry) : Request → Registry
  | .command line => (command line).apply r
  | .query type qdomain _ _ _ => r.lookedUp type (lower qdomain)

/-- `Served ord rnd g rs g'`: from `g`, the requests are served one at a time, with these replies, and leave
`g'`. -/
inductive Served (ord : MapOrder) (rnd : Randomness) : Globals → List (Request × Reply) → Globals → Prop
  | nil (g : Globals) : Served ord rnd g [] g
  | cons {g g₁ g₂ : Globals} {req : Request} {reply : Reply} {rs : List (Request × Reply)}
      (hrun : (GlbBackend.serve ord rnd req).run g = some (reply, g₁)) (hrest : Served ord rnd g₁ rs g₂) :
      Served ord rnd g ((req, reply) :: rs) g₂

section Served

variable {ord : MapOrder} {rnd : Randomness} {g g' : Globals} {rs ss : List (Request × Reply)}

theorem Served.split (h : Served ord rnd g (rs ++ ss) g') :
    ∃ g₁, Served ord rnd g rs g₁ ∧ Served ord rnd g₁ ss g' := by
  induction rs generalizing g with
  | nil => exact ⟨g, Served.nil g, h⟩
  | cons r rs ih =>
      cases h with
      | cons hrun hrest =>
          obtain ⟨g₁, h1, h2⟩ := ih hrest
          exact ⟨g₁, Served.cons hrun h1, h2⟩

/-- **One request** does to the registry what `Registry.serve` says. -/
theorem serve_registry (hg : g.WellFormed) {req : Request} {reply : Reply}
    (hrun : (GlbBackend.serve ord rnd req).run g = some (reply, g')) :
    g'.WellFormed ∧ g'.registry = g.registry.serve req := by
  obtain ⟨reply', g₁, hrun', hg₁, -⟩ :=
    (serve_safe ord rnd req g).run Grows.refl Grows.trans hg (Grows.refl g)
  obtain ⟨-, rfl⟩ := Prod.mk.inj (Option.some.inj (hrun.symm.trans hrun'))
  refine ⟨hg₁, ?_⟩
  cases req with
  | command line =>
      obtain ⟨g₂, hline, -, hregistry⟩ := dispatch_registry ord hg line
      simp only [GlbBackend.serve, run_bind, hline, Option.bind_some, run_ret] at hrun
      rw [← (Prod.mk.inj (Option.some.inj hrun)).2]
      exact hregistry
  | query type qdomain n rr b =>
      simp only [GlbBackend.serve, run_bind] at hrun
      obtain ⟨⟨as, g₁⟩, hquery, hret⟩ := Option.bind_eq_some_iff.mp hrun
      simp only [run_ret, Option.some.injEq, Prod.mk.injEq] at hret
      rw [← hret.2]
      exact query_registry hg hquery

/-- **The registry after requests** is the fold of what each does. -/
theorem Served.registry (hg : g.WellFormed) (h : Served ord rnd g rs g') :
    g'.WellFormed ∧ g'.registry = (rs.map Prod.fst).foldl Registry.serve g.registry := by
  induction h with
  | nil g => exact ⟨hg, rfl⟩
  | cons hrun _ ih =>
      obtain ⟨hg₁, hregistry⟩ := serve_registry hg hrun
      obtain ⟨hg₂, hregistry'⟩ := ih hg₁
      rw [hregistry] at hregistry'
      exact ⟨hg₂, hregistry'⟩

/-- One thread of a running daemon serves the rest of its requests. -/
theorem Served.run {program : ℕ → List Request} {seed : ℕ} (h : Served ord rnd g rs g')
    {es : List (Event ℕ Request Scope Globals Reply)} {c : Config ℕ LockId Scope Globals Reply}
    (hrun : Run (daemon ord rnd program) (Config.start (init seed)) es c) (hshared : c.shared = g)
    (hidle : c.running 0 = none) (hleft : (program 0).drop (c.finished 0) = rs.map Prod.fst) :
    ∃ es' c', Run (daemon ord rnd program) (Config.start (init seed)) es' c' ∧ c'.shared = g' := by
  induction h generalizing es c with
  | nil g => exact ⟨es, c, hrun, hshared⟩
  | @cons g g₁ g₂ req reply rs hserve _ ih =>
      have hop : (program 0)[c.finished 0]? = some req := by
        rw [← Nat.add_zero (c.finished 0), ← List.getElem?_drop, hleft]
        rfl
      obtain ⟨es', c', hrun', hshared', hidle', hfinished⟩ :=
        hrun.serves hidle hop (by rw [hshared]; exact hserve)
      refine ih hrun' hshared' hidle' ?_
      rw [hfinished, ← List.tail_drop, hleft]
      rfl

/-- **Sequential runs are runs**: what requests one at a time reach, the daemon reaches. -/
theorem Served.reachable {seed : ℕ} (h : Served ord rnd (init seed) rs g) : g.Reachable ord rnd := by
  have hstart : Run (daemon ord rnd fun _ : ℕ => rs.map Prod.fst) (Config.start (init seed)) []
      (Config.start (init seed)) := Run.nil
  obtain ⟨es, c, hrun, hshared⟩ := h.run hstart rfl rfl rfl
  exact ⟨seed, _, es, c, hrun, hshared⟩

end Served

/-- A state with one domain. -/
theorem exists_reachable_domain :
    ∃ g : Globals, g.Reachable MapOrder.entries Randomness.counting ∧ g.find "a".toList = some 0 :=
  have hserved : Served MapOrder.entries Randomness.counting (init 0)
      [(.command "ADD_DOMAIN a NONE".toList,
        .lines ((DomainCommand.add "a".toList "NONE".toList).answer true))] _ :=
    Served.cons rfl (Served.nil _)
  ⟨_, hserved.reachable, rfl⟩

end GlbBackend
