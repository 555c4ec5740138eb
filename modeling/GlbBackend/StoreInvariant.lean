import GlbBackend.Requests

/-!
# What the store holds

The invariant of the shared state, spelt out for every state that is reachable by any threads, and what
`get` relies on: the switch over the type of a stored record has no default case, and needs none, because
no other type is ever stored.

An instance is in use (`InUse`) from its `lookup` on: calls of `get` follow, and other requests are served in
between.  `get_emits` says what one call delivers.
-/

namespace GlbBackend

open Text Concurrent Concurrent.Proc Globals

section InUse

variable {ord : MapOrder} {rnd : Randomness} {g g' : Globals} {b b' : GLBBackend}

/-- An instance that a `lookup` in a reachable state, and calls of `get` since, have left as it is. -/
inductive InUse (ord : MapOrder) (rnd : Randomness) : GLBBackend → Globals → Prop
  | lookup {g g' : Globals} {type : QType} {qdomain : Str} {b b' : GLBBackend} (hg : g.Reachable ord rnd)
      (hrun : (GlbBackend.lookup rnd type qdomain b).run g = some (b', g')) : InUse ord rnd b' g'
  | get {g g' : Globals} {ok : Bool} {rr rr' : DNSResourceRecord} {b b' : GLBBackend}
      (h : InUse ord rnd b g) (hrun : (GlbBackend.get rr b).run g = some ((ok, rr', b'), g')) :
      InUse ord rnd b' g'
  | serve {g g' : Globals} {req : Request} {reply : Reply} {b : GLBBackend} (h : InUse ord rnd b g)
      (hrun : (GlbBackend.serve ord rnd req).run g = some (reply, g')) : InUse ord rnd b g'

/-- What a safe process returned, run alone, is what it was safe for. -/
theorem SafeCode.of_run {α : Type} {Q : α → Globals → Prop} {p : Code α} (hp : SafeCode Q g p)
    (hg : g.WellFormed) {a : α} (hrun : p.run g = some (a, g')) :
    g'.WellFormed ∧ g.Grows g' ∧ ∃ h, h.Grows g' ∧ Q a h := by
  obtain ⟨a₁, g₁, hrun', hsafe⟩ := hp.run Grows.refl Grows.trans hg (Grows.refl g)
  obtain ⟨rfl, rfl⟩ := Prod.mk.inj (Option.some.inj (hrun.symm.trans hrun'))
  exact hsafe

/-- **Instances in use are ready.** -/
theorem InUse.ready (h : InUse ord rnd b g) : g.WellFormed ∧ b.Ready g := by
  induction h with
  | lookup hg hrun =>
      obtain ⟨hg', -, h, hG, hb⟩ := (lookup_safe _ rnd _ _ _).of_run hg.wellFormed hrun
      exact ⟨hg', hb.grows hG⟩
  | get _ hrun ih =>
      obtain ⟨hg, hb⟩ := ih
      obtain ⟨hg', -, h, hG, hb', -⟩ := (get_safe _ _ hb).of_run hg hrun
      exact ⟨hg', hb'.grows hG⟩
  | serve _ hrun ih =>
      obtain ⟨hg, hb⟩ := ih
      obtain ⟨hg', hG, -⟩ := (serve_safe ord rnd _ _).of_run hg hrun
      exact ⟨hg', hb.grows hG⟩

/-- The type the switch of `get` assigns; without a case it leaves the old one. -/
def assignedType (r : IPRecord) (old : QType) : QType :=
  if r.ipType = IPRecordType.IPv4 then QType.A
  else if r.ipType = IPRecordType.IPv6 then QType.AAAA
  else old

theorem getIP_emits {rr rr' : DNSResourceRecord} (hrun : (getIP rr b).run g = some ((true, rr', b'), g')) :
    ∃ r, b.ips = r :: b'.ips ∧ rr' = ⟨r.ipAddress, r.ttl, b.d_ourname, assignedType r rr.qtype, true, 1⟩ := by
  rw [getIP] at hrun
  cases hips : b.ips with
  | nil => simp [hips] at hrun
  | cons r ips =>
      simp only [hips, bind_eq, run_bind, run_debug, Option.bind_some, run_ret, Option.some.injEq,
        Prod.mk.injEq] at hrun
      obtain ⟨⟨-, rfl, rfl⟩, -⟩ := hrun
      refine ⟨r, rfl, ?_⟩
      rw [assignedType]
      split_ifs <;> rfl

/-- A call of `get` that delivers an authority record leaves the address records alone; any other delivers
the first of them. -/
theorem get_emits {rr rr' : DNSResourceRecord} (hrun : (get rr b).run g = some ((true, rr', b'), g')) :
    b'.ips = b.ips ∧ (rr'.qtype = QType.SOA ∨ rr'.qtype = QType.NS) ∨
      ∃ r, b.ips = r :: b'.ips ∧
        rr' = ⟨r.ipAddress, r.ttl, b.d_ourname, assignedType r rr.qtype, true, 1⟩ := by
  rw [get] at hrun
  split_ifs at hrun with hsoa hns
  · simp only [bind_eq, run_bind, run_debug, Option.bind_some, run_ret, Option.some.injEq,
      Prod.mk.injEq] at hrun
    obtain ⟨⟨-, rfl, rfl⟩, -⟩ := hrun
    exact Or.inl ⟨rfl, Or.inl rfl⟩
  · simp only [bind_eq, run_bind] at hrun
    obtain ⟨⟨v, g₁⟩, -, hrun⟩ := Option.bind_eq_some_iff.mp hrun
    simp only [run_read, Option.bind_some] at hrun
    obtain ⟨⟨recs, g₂⟩, -, hrun⟩ := Option.bind_eq_some_iff.mp hrun
    simp only at hrun
    split_ifs at hrun with hend
    · have haddress := getIP_emits hrun
      exact Or.inr haddress
    · simp only [run_bind] at hrun
      obtain ⟨⟨ns, g₃⟩, -, hrun⟩ := Option.bind_eq_some_iff.mp hrun
      simp only [run_debug, Option.bind_some, run_ret, Option.some.injEq, Prod.mk.injEq] at hrun
      obtain ⟨⟨-, rfl, rfl⟩, -⟩ := hrun
      exact Or.inl ⟨rfl, Or.inr rfl⟩
  · exact Or.inr (getIP_emits hrun)

/-- The switch has a case for a valid record. -/
theorem IPRecord.Valid.assignedType {r : IPRecord} (hr : r.Valid) (old : QType) :
    r.ipType = IPRecordType.IPv4 ∧ GlbBackend.assignedType r old = QType.A ∨
      r.ipType = IPRecordType.IPv6 ∧ GlbBackend.assignedType r old = QType.AAAA := by
  rcases hr.family with h | h
  · exact Or.inl ⟨h, if_pos h⟩
  · refine Or.inr ⟨h, ?_⟩
    rw [GlbBackend.assignedType, h]
    rfl

end InUse

/-- **The store is well-formed.**  In every reachable state: a key is a non-empty word, and its container is
its own, is named after it, has one of the four algorithms and a count that is not negative; every record
in any container is of one of the two families, lives for some time, and has an address of its own.  So every
record that `get` delivers is an authority record, or has the type that the switch assigned for its family
and a positive ttl. -/
theorem store_wellFormed (ord : MapOrder) (rnd : Randomness) :
    (∀ g : Globals, g.Reachable ord rnd →
      (∀ f p, g.find f = some p → f ≠ [] ∧ Word f ∧ (∀ f', g.find f' = some p → f' = f) ∧
        ∃ c, g.container p = some c ∧ c.cname = f) ∧
      ∀ p c, g.container p = some c →
        (c.glbType = GlbType.NONE ∨ c.glbType = GlbType.RANDOM ∨ c.glbType = GlbType.GEOIP ∨
          c.glbType = GlbType.WEIGHTED) ∧ 0 ≤ c.nLookups ∧
        ∀ r ∈ c.ips, (r.ipType = IPRecordType.IPv4 ∨ r.ipType = IPRecordType.IPv6) ∧ 0 < r.ttl ∧
          r.ipAddress ≠ [] ∧ Word r.ipAddress ∧ '-' ∉ r.ipAddress) ∧
    ∀ b g, InUse ord rnd b g → ∀ rr rr' b' g', (get rr b).run g = some ((true, rr', b'), g') →
      b'.ips = b.ips ∧ (rr'.qtype = QType.SOA ∨ rr'.qtype = QType.NS) ∨
        ∃ r, b.ips = r :: b'.ips ∧ rr'.content = r.ipAddress ∧ rr'.ttl = r.ttl ∧ 0 < rr'.ttl ∧
          (r.ipType = IPRecordType.IPv4 ∧ rr'.qtype = QType.A ∨
            r.ipType = IPRecordType.IPv6 ∧ rr'.qtype = QType.AAAA) := by
  refine ⟨fun g hg => ⟨fun f p hf => ?_, fun p c hc => ?_⟩, fun b g hb rr rr' b' g' hrun => ?_⟩
  · obtain ⟨c, hc, rfl⟩ := hg.wellFormed.mapped f p hf
    have hvalid := hg.wellFormed.valid p c hc
    exact ⟨hvalid.cname_ne, hvalid.cname_word, fun f' hf' => hg.wellFormed.find_injective hf' hf,
      c, hc, rfl⟩
  · have hvalid := hg.wellFormed.valid p c hc
    refine ⟨hvalid.algorithm, hvalid.lookups_nonneg, fun r hr => ?_⟩
    have hrecord := hvalid.records r hr
    exact ⟨hrecord.family, hrecord.ttl_pos, hrecord.address_ne, hrecord.address_word,
      hrecord.address_dash⟩
  · rcases get_emits hrun with h | ⟨r, hips, rfl⟩
    · exact Or.inl h
    · have hr : r.Valid := hb.ready.2.records r (by rw [hips]; exact List.mem_cons_self)
      exact Or.inr ⟨r, hips, rfl, rfl, hr.ttl_pos, hr.assignedType rr.qtype⟩

/-! #### A domain with one record -/

/-- A domain is added and filled. -/
def oneDomain : List (Request × Reply) :=
  [(.command "ADD_DOMAIN a NONE".toList, .lines ((DomainCommand.add "a".toList "NONE".toList).answer true)),
   (.command "SNAPSHOT a 4-60-1.1.1.1-x".toList,
     .lines ((DomainCommand.snapshot "a".toList ["4-60-1.1.1.1-x".toList]).answer true))]

theorem served_oneDomain :
    ∃ g : Globals, Served MapOrder.entries Randomness.counting (init 0) oneDomain g ∧
      g.find "a".toList = some 0 ∧ ∃ (b : GLBBackend) (g' : Globals),
        (lookup Randomness.counting QType.A "a".toList GLBBackend.new).run g = some (b, g') ∧
          ∃ (rr : DNSResourceRecord) (b' : GLBBackend),
            (get ⟨[], 0, [], 0, false, 0⟩ b).run g' = some ((true, rr, b'), g') ∧ b'.ips ≠ b.ips :=
  ⟨_, Served.cons rfl (Served.cons rfl (Served.nil _)), rfl, _, _, rfl, _, _, rfl, by decide⟩

theorem store_wellFormed_oneDomain :
    ∃ g : Globals, g.Reachable MapOrder.entries Randomness.counting ∧
      (∃ c : GlbContainer, g.container 0 = some c ∧ c.cname = "a".toList) ∧
      ∃ (b b' : GLBBackend) (g' : Globals) (rr : DNSResourceRecord),
        (get ⟨[], 0, [], 0, false, 0⟩ b).run g' = some ((true, rr, b'), g') ∧ 0 < rr.ttl := by
  obtain ⟨g, hserved, hfind, b, g', hlookup, rr, b', hrun, hips⟩ := served_oneDomain
  obtain ⟨hstates, hget⟩ := store_wellFormed MapOrder.entries Randomness.counting
  obtain ⟨-, -, -, hc⟩ := (hstates g hserved.reachable).1 "a".toList 0 hfind
  rcases hget b g' (InUse.lookup hserved.reachable hlookup) _ _ _ _ hrun with
    ⟨hsame, -⟩ | ⟨r, -, -, -, httl, -⟩
  · exact absurd hsame hips
  · exact ⟨g, hserved.reachable, hc, b, b', g', rr, hrun, httl⟩

end GlbBackend
