import GlbBackend.Concurrent.Sections
import GlbBackend.Queries
import GlbBackend.Rules

/-!
# What a query answers

The specification of the DNS side.  A lookup reads the SOA container, the NS list, the map and the
records of the container found, each at a moment of its own; an `Observation` is what it read, and
`Observation.answer` is the list of resource records it owes for that.

`query_trace` says that a query answers with its observation's records, whatever other threads did between
its reads: each datum is what one section of the query found (`Observes`).  The one datum that need not be
is the text of the SOA record, which is loaded under one condition and sent under another
(`loadedSOA`).
-/

namespace GlbBackend

open Text Concurrent Concurrent.Proc Globals

/-! ### The specification -/

/-- The query types for which the SOA container is read. -/
def AsksAuthority (type : QType) : Prop := type = QType.SOA ∨ type = QType.ANY ∨ type = QType.NS

instance (type : QType) : Decidable (AsksAuthority type) := by
  unfold AsksAuthority
  infer_instance

/-- The query types that NS records answer. -/
def AsksNS (type : QType) : Prop := type = QType.NS ∨ type = QType.ANY

instance (type : QType) : Decidable (AsksNS type) := by
  unfold AsksNS
  infer_instance

theorem AsksNS.authority {type : QType} (h : AsksNS type) : AsksAuthority type :=
  h.elim (fun h => Or.inr (Or.inr h)) fun h => Or.inr (Or.inl h)

/-- The query types that addresses answer. -/
def AsksAddresses (type : QType) : Prop :=
  type = QType.A ∨ type = QType.AAAA ∨ type = QType.ANY

instance (type : QType) : Decidable (AsksAddresses type) := by
  unfold AsksAddresses
  infer_instance

/-- Is the record of a family the query type asks for? -/
def Asked (type : QType) (r : IPRecord) : Bool :=
  decide (type = QType.A ∧ r.ipType = IPRecordType.IPv4 ∨
    type = QType.AAAA ∧ r.ipType = IPRecordType.IPv6 ∨ type = QType.ANY)

/-- What a lookup read: the SOA container, the NS list, and the stored records of the name, if it was
found. -/
structure Observation where
  soa : SOAContainer
  ns : List Str
  stored : Option (List IPRecord)

/-- The authority records owed for an SOA text, a base domain and an NS list. -/
def authorityAnswer (type : QType) (qdomain content base : Str) (ns : List Str) :
    List DNSResourceRecord :=
  (if type = QType.SOA then [soaRR content base] else []) ++
  (if AsksNS type ∧ matchesBaseFqdn (lower qdomain) base then ns.map (nsRR base) else [])

theorem mem_authorityAnswer {type : QType} {qdomain content base : Str} {ns : List Str}
    {rr : DNSResourceRecord} :
    rr ∈ authorityAnswer type qdomain content base ns ↔
      (type = QType.SOA ∧ rr = soaRR content base) ∨
        (AsksNS type ∧ matchesBaseFqdn (lower qdomain) base = true) ∧ ∃ n ∈ ns, nsRR base n = rr := by
  rw [authorityAnswer, List.mem_append]
  apply or_congr <;> split_ifs with h <;> simp [h]

/-- The address records owed for the stored records of a name. -/
def addressAnswer (type : QType) (qdomain : Str) (stored : Option (List IPRecord)) :
    List DNSResourceRecord :=
  if AsksAddresses type then ((stored.getD []).filter (Asked type)).map (addressRR qdomain) else []

/-- **The records owed** for what a lookup read, the text of the SOA record apart. -/
def Observation.answer (o : Observation) (type : QType) (qdomain content : Str) :
    List DNSResourceRecord :=
  authorityAnswer type qdomain content o.soa.baseFQDN o.ns ++ addressAnswer type qdomain o.stored

/-- Each datum of the observation is what one section among the visits found. -/
structure Observes (type : QType) (name : Str) (vs : List (Visit Scope Globals)) (o : Observation) :
    Prop where
  soa : AsksAuthority type → ∃ s, readsOf .getGlobalSOARecord vs = [s] ∧ s.globalSOA = o.soa
  ns : AsksNS type → matchesBaseFqdn name o.soa.baseFQDN = true →
    ∃ s, readsOf .getNSRecords vs = [s] ∧ s.nsList = o.ns
  stored : ∃ s, readsOf .lookup vs = [s] ∧ (s.find name = none → o.stored = none) ∧
    ∀ p, s.find name = some p → AsksAddresses type →
      ∃ s' c, readsOf .getIPs vs = [s'] ∧ s'.container p = some c ∧ o.stored = some c.ips

/-- The SOA text an instance holds after a lookup: the text read if the name is under the base read, and
else the one it held before. -/
def loadedSOA (b : GLBBackend) (name : Str) (soa : SOAContainer) : Str :=
  if matchesBaseFqdn name soa.baseFQDN then soa.soaRecord else b.soaRecord

/-! ### The mask and the families -/

theorem lookupMask_eq (type : QType) :
    lookupMask type = if type = QType.A then some 1 else if type = QType.AAAA then some 2
      else if type = QType.ANY then some 3 else none := rfl

theorem lookupMask_isSome_iff {type : QType} : (lookupMask type).isSome = true ↔ AsksAddresses type := by
  rw [lookupMask_eq, AsksAddresses]
  split_ifs with h1 h2 h3 <;> simp_all

/-- On stored records the mask test asks for the families of the query type. -/
theorem noneTest_eq_asked {type : QType} {mask : ℤ} (hm : lookupMask type = some mask) {r : IPRecord}
    (hr : r.Valid) : noneTest mask r = Asked type r := by
  rw [lookupMask_eq] at hm
  split_ifs at hm with h1 h2 h3
  · rw [← Option.some.inj hm, noneTest, Asked, h1]
    rcases hr.family with hf | hf <;> rw [hf] <;> decide
  · rw [← Option.some.inj hm, noneTest, Asked, h2]
    rcases hr.family with hf | hf <;> rw [hf] <;> decide
  · rw [← Option.some.inj hm, noneTest, Asked, h3]
    rcases hr.family with hf | hf <;> rw [hf] <;> decide

/-! ### The visits of a lookup, part by part -/

variable {vs : List (Visit Scope Globals)}

theorem debug_trace {u : Unit} (ht : Trace debug vs (ret u)) :
    ∃ s, vs = [⟨[], s, s⟩] := by
  obtain ⟨s, s', hrun, hvs⟩ := Trace.guarded ht (Balanced.ret ())
  obtain ⟨-, rfl⟩ := Prod.mk.inj (Option.some.inj hrun)
  exact ⟨s, hvs⟩

theorem getGlobalSOARecord_trace {soa : SOAContainer} (ht : Trace getGlobalSOARecord vs (ret soa)) :
    ∃ s, vs = [⟨[.getGlobalSOARecord], s, s⟩] ∧ s.globalSOA = soa := by
  obtain ⟨s, s', hrun, hvs⟩ :=
    Trace.guarded ht (Balanced.scope (Balanced.read.bind fun _ => Balanced.ret _) _)
  obtain ⟨h1, rfl⟩ := Prod.mk.inj (Option.some.inj hrun)
  exact ⟨s, hvs, h1⟩

theorem getNSRecords_trace {v : Ptr} (ht : Trace getNSRecords vs (ret v)) :
    ∃ s, vs = [⟨[.getNSRecords], s, s⟩] ∧ s.globalNsRecords = v := by
  obtain ⟨s, s', hrun, hvs⟩ :=
    Trace.guarded ht (Balanced.scope (Balanced.read.bind fun _ => Balanced.ret _) _)
  obtain ⟨h1, rfl⟩ := Prod.mk.inj (Option.some.inj hrun)
  exact ⟨s, hvs, h1⟩

theorem search_trace {name : Str} {glb : Option Ptr}
    (ht : Trace (scope .lookup (Proc.read.bind fun g => ret (g.find name)) : Code (Option Ptr)) vs
      (ret glb)) :
    ∃ s, vs = [⟨[.lookup], s, s⟩] ∧ s.find name = glb := by
  obtain ⟨s, s', hrun, hvs⟩ := Trace.scope ht (Balanced.read.bind fun _ => Balanced.ret _)
  obtain ⟨h1, rfl⟩ := Prod.mk.inj (Option.some.inj hrun)
  exact ⟨s, hvs, h1⟩

/-- What the first part of `lookup` reads and leaves. -/
theorem lookupSOA_trace {type : QType} {name : Str} {b b' : GLBBackend}
    (ht : Trace (lookupSOA type name b) vs (ret b')) :
    ∃ soa : SOAContainer,
      (AsksAuthority type → (∃ s, readsOf .getGlobalSOARecord vs = [s] ∧ s.globalSOA = soa) ∧
        b' = { b with baseDomain := soa.baseFQDN, soaRecord := loadedSOA b name soa }) ∧
      (¬ AsksAuthority type → b' = b) ∧ ∀ c, c ≠ .getGlobalSOARecord → readsOf c vs = [] := by
  rw [lookupSOA] at ht
  split_ifs at ht with htype
  · obtain ⟨vs₁, vs₂, soa, rfl, h1, h2⟩ :=
      Trace.bind ht (balanced_of_rules (keeps_getGlobalSOARecord trivial))
    obtain ⟨s, rfl, hs⟩ := getGlobalSOARecord_trace h1
    have hquiet : ∀ c, readsOf c vs₂ = [] := by
      intro c
      refine h2.readsOf_eq_nil ?_
      simp only
      split_ifs <;> trivial
    have hb' : b' = { b with baseDomain := soa.baseFQDN, soaRecord := loadedSOA b name soa } := by
      simp only at h2
      rw [loadedSOA]
      split_ifs at h2 ⊢ with hmatch
      · obtain ⟨vs₃, vs₄, u, rfl, -, h4⟩ := Trace.bind h2 (balanced_of_rules keeps_debug)
        obtain ⟨-, h5⟩ := Trace.of_ret h4
        injection h5
      · obtain ⟨-, h5⟩ := Trace.of_ret h2
        injection h5
    refine ⟨soa, fun _ => ⟨⟨s, ?_, hs⟩, hb'⟩, fun hn => absurd htype hn, fun c hc => ?_⟩
    · rw [readsOf_append, hquiet]
      rfl
    · rw [readsOf_append, hquiet, readsOf_cons, if_neg]
      · rfl
      · intro hlabels
        exact hc (List.singleton_inj.mp hlabels).symm
  · obtain ⟨rfl, h2⟩ := Trace.of_ret ht
    injection h2 with h2
    exact ⟨⟨[], []⟩, fun h => absurd h htype, fun _ => h2, fun _ _ => rfl⟩

/-- What the second part reads and leaves. -/
theorem lookupNS_trace {type : QType} {name : Str} {b b' : GLBBackend}
    (ht : Trace (lookupNS type name b) vs (ret b')) :
    ∃ v : Ptr,
      (AsksNS type → matchesBaseFqdn name b.baseDomain = true →
        (∃ s, readsOf .getNSRecords vs = [s] ∧ s.globalNsRecords = v) ∧
        b' = { b with nsRecords := some v, nsIterator := 0, sendNS := true }) ∧
      (¬ (AsksNS type ∧ matchesBaseFqdn name b.baseDomain = true) →
        b' = if type = QType.SOA then { b with sendSOA := true } else b) ∧
      ∀ c, c ≠ .getNSRecords → readsOf c vs = [] := by
  rw [lookupNS] at ht
  have hbase : (if type = QType.SOA then { b with sendSOA := true } else b).baseDomain
      = b.baseDomain := by
    split_ifs <;> rfl
  rw [hbase] at ht
  by_cases hns : AsksNS type ∧ matchesBaseFqdn name b.baseDomain = true
  · rw [if_pos (show (type = QType.NS ∨ type = QType.ANY) ∧ matchesBaseFqdn name b.baseDomain = true
      from hns)] at ht
    have hsoa : type ≠ QType.SOA := by
      rcases hns.1 with h | h <;> rw [h] <;> decide
    rw [if_neg hsoa] at ht
    obtain ⟨vs₁, vs₂, u, rfl, h1, h2⟩ := Trace.bind ht (balanced_of_rules keeps_debug)
    obtain ⟨vs₃, vs₄, v, rfl, h3, h4⟩ := Trace.bind h2 (balanced_of_rules (keeps_getNSRecords trivial))
    obtain ⟨s₁, rfl⟩ := debug_trace h1
    obtain ⟨s, rfl, hs⟩ := getNSRecords_trace h3
    have hquiet : ∀ c, readsOf c vs₄ = [] := by
      intro c
      refine h4.readsOf_eq_nil fun g => (Enters.expect _).bind fun recs => ?_
      exact (enters_of_rules (keeps_debugNS recs)).bind fun _ => trivial
    have hb' : b' = { b with nsRecords := some v, nsIterator := 0, sendNS := true } := by
      obtain ⟨vs₅, vs₆, g, rfl, -, h6⟩ := Trace.bind h4 Balanced.read
      obtain ⟨vs₇, vs₈, recs, rfl, -, h8⟩ := Trace.bind h6 (Balanced.expect _)
      obtain ⟨vs₉, vs₁₀, u', rfl, -, h10⟩ := Trace.bind h8 (balanced_of_rules (keeps_debugNS recs))
      obtain ⟨-, h11⟩ := Trace.of_ret h10
      injection h11
    refine ⟨v, fun _ _ => ⟨⟨s, ?_, hs⟩, hb'⟩, fun hn => absurd hns hn, fun c hc => ?_⟩
    · rw [readsOf_append, readsOf_append, hquiet]
      rfl
    · rw [readsOf_append, readsOf_append, hquiet, readsOf_cons, if_neg (by simp), readsOf_cons, if_neg]
      · rfl
      · intro hlabels
        exact hc (List.singleton_inj.mp hlabels).symm
  · rw [if_neg (show ¬ ((type = QType.NS ∨ type = QType.ANY) ∧ matchesBaseFqdn name b.baseDomain = true)
      from hns)] at ht
    obtain ⟨rfl, h2⟩ := Trace.of_ret ht
    injection h2 with h2
    exact ⟨0, fun h1 h3 => absurd ⟨h1, h3⟩ hns, fun _ => h2, fun _ _ => rfl⟩

/-- Neither part touches the records or the name that was asked for. -/
theorem lookupSOA_keeps {type : QType} {name : Str} {b b' : GLBBackend}
    (ht : Trace (lookupSOA type name b) vs (ret b')) : b'.ips = b.ips ∧ b'.d_ourname = b.d_ourname := by
  obtain ⟨soa, hyes, hno, -⟩ := lookupSOA_trace ht
  by_cases hauth : AsksAuthority type
  · rw [(hyes hauth).2]
    exact ⟨rfl, rfl⟩
  · rw [hno hauth]
    exact ⟨rfl, rfl⟩

theorem lookupNS_keeps {type : QType} {name : Str} {b b' : GLBBackend}
    (ht : Trace (lookupNS type name b) vs (ret b')) : b'.ips = b.ips ∧ b'.d_ourname = b.d_ourname := by
  obtain ⟨v, hns, hnons, -⟩ := lookupNS_trace ht
  by_cases hcond : AsksNS type ∧ matchesBaseFqdn name b.baseDomain = true
  · rw [(hns hcond.1 hcond.2).2]
    exact ⟨rfl, rfl⟩
  · rw [hnons hcond]
    split_ifs <;> exact ⟨rfl, rfl⟩

/-- The copy of a container's records under the `NONE` algorithm. -/
theorem getIPs_trace {rnd : Randomness} {p : Ptr} {dq out : List IPRecord} {mask : ℤ}
    (ht : Trace (getIPs rnd p dq mask) vs (ret out))
    (hnone : ∀ v ∈ vs, ∀ c, v.pre.container p = some c → c.glbType = GlbType.NONE) :
    ∃ s c, readsOf .getIPs vs = [s] ∧ s.container p = some c ∧
      out = dq ++ c.ips.filter (noneTest mask) ∧ ∀ c', c' ≠ .getIPs → readsOf c' vs = [] := by
  obtain ⟨vs₁, vs₂, u, rfl, h1, h2⟩ := Trace.bind ht (balanced_of_rules (keeps_incNLookups p))
  obtain ⟨s₁, vs₃, rfl, h3⟩ := Trace.read_bind h2
  have hinc : ∀ c, readsOf c vs₁ = [] := fun c => h1.readsOf_eq_nil fun _ => trivial
  obtain ⟨vs₄, vs₅, c₁, rfl, h4, h5⟩ := Trace.bind h3 (Balanced.expect _)
  obtain ⟨rfl, hc₁⟩ := Trace.of_expect h4
  have htype : c₁.glbType = GlbType.NONE := hnone ⟨[], s₁, s₁⟩ (by simp) c₁ hc₁
  simp only [htype, if_true] at h5
  obtain ⟨s, s', hrun, rfl⟩ := Trace.guarded h5
    (Balanced.scope (Balanced.read.bind fun g => (Balanced.expect _).bind fun c => Balanced.ret _) _)
  rw [run_scope] at hrun
  cases hc : s.container p with
  | none =>
      rw [bind_eq, run_bind, run_read, Option.bind_some, hc] at hrun
      exact absurd hrun (by simp [expect])
  | some c =>
      rw [bind_eq, run_bind, run_read, Option.bind_some, hc] at hrun
      obtain ⟨hout, rfl⟩ := Prod.mk.inj (Option.some.inj hrun)
      have hlabels : (scope Scope.getIPs (Proc.read.bind fun g => (expect (g.container p)).bind
          fun c => ret (getIPSNoneAlgo c.ips dq mask)) : Code (List IPRecord)).labels s
          = [.getIPs] := by
        show Scope.getIPs :: Proc.labels (Proc.bind (Proc.bind (expect (s.container p)) _) _) s = _
        rw [hc]
        rfl
      refine ⟨s, c, ?_, hc, ?_, fun c' hc' => ?_⟩
      · simp only [readsOf_append, hinc, readsOf_cons, bind_eq, hlabels]
        rfl
      · rw [← hout, getIPSNoneAlgo_eq]
      · simp only [readsOf_append, hinc, readsOf_cons, bind_eq, hlabels]
        rw [if_neg (by simp), if_neg fun h => hc' (List.singleton_inj.mp h).symm]
        rfl

/-- A container that an earlier state has with the `NONE` algorithm still has it, and what is copied are the
records of the type asked for. -/
theorem getIPs_asked {rnd : Randomness} {type : QType} {p : Ptr} {dq out : List IPRecord} {mask : ℤ}
    (ht : Trace (getIPs rnd p dq mask) vs (ret out)) (hmask : lookupMask type = some mask)
    (hwf : ∀ v ∈ vs, v.pre.WellFormed) {s₀ : Globals} (hgrows : ∀ v ∈ vs, s₀.Grows v.pre)
    {c₀ : GlbContainer} (hc₀ : s₀.container p = some c₀) (htype : c₀.glbType = GlbType.NONE) :
    ∃ s c, readsOf .getIPs vs = [s] ∧ s.container p = some c ∧
      out = dq ++ c.ips.filter (Asked type) ∧ ∀ c', c' ≠ .getIPs → readsOf c' vs = [] := by
  have hnone : ∀ v ∈ vs, ∀ c, v.pre.container p = some c → c.glbType = GlbType.NONE := by
    intro v hv c hc
    obtain ⟨c', hc', htype', -⟩ := (hgrows v hv).containers p c₀ hc₀
    rw [hc] at hc'
    rw [Option.some.inj hc', htype', htype]
  obtain ⟨s, c, hreads, hc, hout, hquiet⟩ := getIPs_trace ht hnone
  have hvalid : ∀ r ∈ c.ips, r.Valid := by
    obtain ⟨v, hv, hpre⟩ := exists_of_readsOf_eq hreads
    exact ((hpre ▸ hwf v hv).valid p c hc).records
  have hfilter : c.ips.filter (noneTest mask) = c.ips.filter (Asked type) :=
    List.filter_congr fun r hr => noneTest_eq_asked hmask (hvalid r hr)
  exact ⟨s, c, hreads, hc, by rw [hout, hfilter], hquiet⟩

/-- The last part of `lookup` only sets the records, and enters only its own two scopes. -/
theorem lookupIPs_keeps {rnd : Randomness} {type : QType} {name : Str} {b b' : GLBBackend}
    (ht : Trace (lookupIPs rnd type name b) vs (ret b')) :
    (∃ ips, b' = { b with ips := ips }) ∧ ∀ c, c ≠ .lookup → c ≠ .getIPs → readsOf c vs = [] := by
  constructor
  · obtain ⟨vs₁, vs₂, found, rfl, h1, h2⟩ := Trace.bind ht
      (Balanced.scope (Balanced.read.bind fun _ => Balanced.ret _) _)
    cases found with
    | none =>
        obtain ⟨-, h3⟩ := Trace.of_ret h2
        injection h3 with h3
        exact ⟨b.ips, h3⟩
    | some p =>
        simp only at h2
        cases hmask : lookupMask type with
        | none =>
            rw [hmask] at h2
            obtain ⟨-, h3⟩ := Trace.of_ret h2
            injection h3 with h3
            exact ⟨b.ips, h3⟩
        | some mask =>
            rw [hmask] at h2
            obtain ⟨vs₃, vs₄, u, rfl, -, h4⟩ := Trace.bind h2 (balanced_of_rules keeps_debug)
            obtain ⟨vs₅, vs₆, ips, rfl, -, h6⟩ :=
              Trace.bind h4 (balanced_of_rules (keeps_getIPs trivial rnd p b.ips mask))
            obtain ⟨-, h7⟩ := Trace.of_ret h6
            injection h7 with h7
            exact ⟨ips, h7⟩
  · intro c hc hc'
    exact ht.readsOf_eq_nil (enters_of_rules (keeps_lookupIPs hc.symm hc'.symm _ _ _ _))

/-- What the last part of `lookup` reads and leaves. -/
theorem lookupIPs_trace {rnd : Randomness} {type : QType} {name : Str} {b b' : GLBBackend}
    (ht : Trace (lookupIPs rnd type name b) vs (ret b'))
    (hwf : ∀ v ∈ vs, v.pre.WellFormed) (hG : (visited vs).Pairwise Grows)
    (hnone : AsksAddresses type → ∀ s ∈ readsOf .lookup vs, ∀ p c, s.find name = some p →
      s.container p = some c → c.glbType = GlbType.NONE) :
    ∃ stored : Option (List IPRecord),
      (∃ s, readsOf .lookup vs = [s] ∧ (s.find name = none → stored = none) ∧
        ∀ p, s.find name = some p → AsksAddresses type →
          ∃ s' c, readsOf .getIPs vs = [s'] ∧ s'.container p = some c ∧ stored = some c.ips) ∧
      b' = { b with ips := b.ips ++
        if AsksAddresses type then (stored.getD []).filter (Asked type) else [] } := by
  obtain ⟨vs₁, vs₂, found, rfl, h1, h2⟩ := Trace.bind ht
    (Balanced.scope (Balanced.read.bind fun _ => Balanced.ret _) _)
  obtain ⟨s, rfl, hfound⟩ := search_trace h1
  have hsearch : readsOf .lookup [(⟨[.lookup], s, s⟩ : Visit Scope Globals)] = [s] := rfl
  have hother : readsOf .getIPs [(⟨[.lookup], s, s⟩ : Visit Scope Globals)] = [] := rfl
  cases found with
  | none =>
      obtain ⟨rfl, h3⟩ := Trace.of_ret h2
      injection h3 with h3
      refine ⟨none, ⟨s, hsearch, fun _ => rfl, fun p hp => ?_⟩, ?_⟩
      · rw [hfound] at hp
        exact absurd hp (by simp)
      · rw [h3]
        simp
  | some p =>
      simp only at h2
      cases hmask : lookupMask type with
      | none =>
          rw [hmask] at h2
          have hno : ¬ AsksAddresses type := by
            rw [← lookupMask_isSome_iff, hmask]
            exact Bool.false_ne_true
          obtain ⟨rfl, h3⟩ := Trace.of_ret h2
          injection h3 with h3
          refine ⟨none, ⟨s, hsearch, fun _ => rfl, fun _ _ h => absurd h hno⟩, ?_⟩
          rw [h3, if_neg hno, List.append_nil]
      | some mask =>
          rw [hmask] at h2
          have hyes : AsksAddresses type := by
            rw [← lookupMask_isSome_iff, hmask]
            rfl
          obtain ⟨vs₃, vs₄, u, rfl, h3, h4⟩ := Trace.bind h2 (balanced_of_rules keeps_debug)
          obtain ⟨s₁, rfl⟩ := debug_trace h3
          obtain ⟨vs₅, vs₆, ips, rfl, h5, h6⟩ :=
            Trace.bind h4 (balanced_of_rules (keeps_getIPs trivial rnd p b.ips mask))
          obtain ⟨rfl, h7⟩ := Trace.of_ret h6
          injection h7 with h7
          rw [List.append_nil] at *
          -- the container found keeps its algorithm
          obtain ⟨c, hc⟩ := live_of_find (hwf ⟨[.lookup], s, s⟩ (by simp)) hfound
          have hsreads : s ∈ readsOf .lookup
              ([⟨[.lookup], s, s⟩] ++ ([⟨[], s₁, s₁⟩] ++ vs₅) : List (Visit Scope Globals)) := by
            rw [readsOf_append, hsearch]
            exact List.mem_append_left _ (List.mem_singleton_self s)
          have htype : c.glbType = GlbType.NONE := hnone hyes s hsreads p c hfound hc
          have hfirst : ∀ v ∈ vs₅, s.Grows v.pre := by
            intro v hv
            apply (List.pairwise_cons.mp hG).1
            have : v.pre ∈ visited vs₅ := List.mem_flatMap.mpr ⟨v, hv, by simp⟩
            exact List.mem_cons_of_mem _ (List.mem_cons_of_mem _ (List.mem_cons_of_mem _ this))
          obtain ⟨s₂, c₂, hreads, hc₂, hips, hquiet⟩ :=
            getIPs_asked h5 hmask (fun v hv => hwf v (by simp [hv])) hfirst hc htype
          refine ⟨some c₂.ips, ⟨s, ?_, fun hn => ?_, fun q hq _ => ⟨s₂, c₂, ?_, ?_, rfl⟩⟩, ?_⟩
          · rw [readsOf_append, readsOf_append, hsearch, hquiet .lookup (by decide)]
            rfl
          · rw [hn] at hfound
            exact absurd hfound (by simp)
          · rw [readsOf_append, readsOf_append, hother, hreads]
            rfl
          · rw [hq] at hfound
            rw [Option.some.inj hfound]
            exact hc₂
          · rw [h7, hips, if_pos hyes]
            rfl

/-- What the first two parts leave, as records to deliver: the SOA record if the type is SOA, and the NS
records if the type asks for them and the name is under the base. -/
theorem pending_authority {type : QType} {qdomain : Str} {b b₁ b₂ : GLBBackend} {soa : SOAContainer}
    {ns : List Str} {v : Ptr} {u : Globals}
    (hb : b.sendSOA = false ∧ b.sendNS = false)
    (hyes : AsksAuthority type → b₁ = { b with
      baseDomain := soa.baseFQDN, soaRecord := loadedSOA b (lower qdomain) soa })
    (hno : ¬ AsksAuthority type → b₁ = b)
    (hns : AsksNS type → matchesBaseFqdn (lower qdomain) b₁.baseDomain = true →
      (u.vector v).getD [] = ns ∧
        b₂ = { b₁ with nsRecords := some v, nsIterator := 0, sendNS := true })
    (hnone : ¬ (AsksNS type ∧ matchesBaseFqdn (lower qdomain) b₁.baseDomain = true) →
      b₂ = if type = QType.SOA then { b₁ with sendSOA := true } else b₁) :
    b₂.pendingSOA ++ b₂.pendingNS u
      = authorityAnswer type qdomain (loadedSOA b (lower qdomain) soa) soa.baseFQDN ns := by
  rw [authorityAnswer]
  by_cases hauth : AsksAuthority type
  · have hb₁ := hyes hauth
    have hbase : b₁.baseDomain = soa.baseFQDN := by rw [hb₁]
    by_cases hmatch : AsksNS type ∧ matchesBaseFqdn (lower qdomain) soa.baseFQDN = true
    · obtain ⟨hvec, hb₂⟩ := hns hmatch.1 (by rw [hbase]; exact hmatch.2)
      have hsoa : type ≠ QType.SOA := by
        rcases hmatch.1 with h | h <;> rw [h] <;> decide
      rw [if_neg hsoa, if_pos hmatch, hb₂, hb₁, GLBBackend.pendingSOA, GLBBackend.pendingNS]
      simp only [hb.1, if_true, Option.bind_some, hvec, List.drop_zero]
      rfl
    · have hb₂ := hnone (by rw [hbase]; exact hmatch)
      rw [if_neg hmatch, hb₂, hb₁]
      split_ifs with hsoa
      · rw [GLBBackend.pendingNS, GLBBackend.pendingSOA]
        simp [hb.2]
      · rw [GLBBackend.pendingNS, GLBBackend.pendingSOA]
        simp [hb.1, hb.2]
  · have hsoa : type ≠ QType.SOA := fun h => hauth (Or.inl h)
    have hmatch : ∀ base : Str,
        ¬ (AsksNS type ∧ matchesBaseFqdn (lower qdomain) base = true) :=
      fun base h => hauth h.1.authority
    have hb₂ := hnone (hmatch _)
    rw [if_neg hsoa, if_neg (hmatch _), hb₂, if_neg hsoa, hno hauth, GLBBackend.pendingSOA,
      GLBBackend.pendingNS]
    simp [hb.1, hb.2]

/-- A lookup, cut at its parts. -/
theorem lookup_parts {rnd : Randomness} {type : QType} {qdomain : Str} {b b' : GLBBackend}
    (ht : Trace (lookup rnd type qdomain b) vs (ret b')) :
    ∃ s₀ vs₁ vs₂ vs₃ b₁ b₂, vs = ⟨[], s₀, s₀⟩ :: (vs₁ ++ (vs₂ ++ vs₃)) ∧
      Trace (lookupSOA type (lower qdomain) { b with
        ips := [], d_ourname := qdomain, sendSOA := false, sendNS := false, baseDomain := [] })
        vs₁ (ret b₁) ∧
      Trace (lookupNS type (lower qdomain) b₁) vs₂ (ret b₂) ∧
      Trace (lookupIPs rnd type (lower qdomain) b₂) vs₃ (ret b') := by
  obtain ⟨vs₀, vs', w, rfl, h0, h1⟩ := Trace.bind ht (balanced_of_rules keeps_debug)
  obtain ⟨vs₁, vs'', b₁, rfl, h2, h3⟩ := Trace.bind h1 (balanced_of_rules (keeps_lookupSOA trivial _ _ _))
  obtain ⟨vs₂, vs₃, b₂, rfl, h4, h5⟩ := Trace.bind h3 (balanced_of_rules (keeps_lookupNS trivial _ _ _))
  obtain ⟨s₀, rfl⟩ := debug_trace h0
  exact ⟨s₀, vs₁, vs₂, vs₃, b₁, b₂, rfl, h2, h4, h5⟩

/-- The visits of a lookup to one scope, part by part. -/
theorem readsOf_parts (c : Scope) (s₀ : Globals) (vs₁ vs₂ vs₃ : List (Visit Scope Globals)) :
    readsOf c (⟨[], s₀, s₀⟩ :: (vs₁ ++ (vs₂ ++ vs₃)))
      = readsOf c vs₁ ++ (readsOf c vs₂ ++ readsOf c vs₃) := by
  rw [readsOf_cons, if_neg (by simp), readsOf_append, readsOf_append]
  rfl

/-- A lookup leaves the name it was asked for. -/
theorem lookup_ourname {rnd : Randomness} {type : QType} {qdomain : Str} {b b' : GLBBackend}
    (ht : Trace (lookup rnd type qdomain b) vs (ret b')) : b'.d_ourname = qdomain := by
  obtain ⟨s₀, vs₁, vs₂, vs₃, b₁, b₂, -, h1, h2, h3⟩ := lookup_parts ht
  obtain ⟨⟨ips, rfl⟩, -⟩ := lookupIPs_keeps h3
  exact (lookupNS_keeps h2).2.trans (lookupSOA_keeps h1).2

/-- **The authority records** a lookup leaves to deliver, and where their contents were read. -/
theorem lookup_authority {rnd : Randomness} {type : QType} {qdomain : Str} {b b' : GLBBackend}
    (ht : Trace (lookup rnd type qdomain b) vs (ret b')) (hwf : ∀ v ∈ vs, v.pre.WellFormed) :
    ∃ soa ns,
      (AsksAuthority type → ∃ s, readsOf .getGlobalSOARecord vs = [s] ∧ s.globalSOA = soa) ∧
      (AsksNS type → matchesBaseFqdn (lower qdomain) soa.baseFQDN = true →
        ∃ s, readsOf .getNSRecords vs = [s] ∧ s.nsList = ns) ∧
      ∀ u : Globals, (∀ s ∈ visited vs, s.Grows u) →
        b'.pendingSOA ++ b'.pendingNS u
          = authorityAnswer type qdomain (loadedSOA b (lower qdomain) soa) soa.baseFQDN ns := by
  obtain ⟨s₀, vs₁, vs₂, vs₃, b₁, b₂, rfl, h1, h2, h3⟩ := lookup_parts ht
  obtain ⟨soa, hyes, hno, hquiet₁⟩ := lookupSOA_trace h1
  obtain ⟨v, hns, hnons, hquiet₂⟩ := lookupNS_trace h2
  obtain ⟨⟨ips, hb'⟩, hquiet₃⟩ := lookupIPs_keeps h3
  -- the NS list is read through a pointer, and what it points to does not change
  obtain ⟨ns, hns'⟩ : ∃ ns : List Str, AsksNS type →
      matchesBaseFqdn (lower qdomain) b₁.baseDomain = true →
      (∃ s, readsOf .getNSRecords vs₂ = [s] ∧ s.nsList = ns) ∧
      (∀ u : Globals, (∀ s ∈ visited vs₂, s.Grows u) → (u.vector v).getD [] = ns) ∧
      b₂ = { b₁ with nsRecords := some v, nsIterator := 0, sendNS := true } := by
    by_cases hcond : AsksNS type ∧ matchesBaseFqdn (lower qdomain) b₁.baseDomain = true
    · obtain ⟨⟨s, hread, hptr⟩, hb₂⟩ := hns hcond.1 hcond.2
      obtain ⟨w, hw, rfl⟩ := exists_of_readsOf_eq hread
      obtain ⟨recs, hrecs⟩ := (hwf w (by simp [hw])).published
      have hlist : w.pre.nsList = recs := by rw [nsList, hrecs]; rfl
      refine ⟨recs, fun _ _ => ⟨⟨w.pre, hread, hlist⟩, fun u hu => ?_, hb₂⟩⟩
      have hgrow : w.pre.Grows u := hu _ (List.mem_flatMap.mpr ⟨w, hw, by simp⟩)
      rw [← hptr, hgrow.vectors _ recs hrecs]
      rfl
    · exact ⟨[], fun h6 h7 => absurd ⟨h6, h7⟩ hcond⟩
  refine ⟨soa, ns, fun hauth => ?_, fun hasks hmatch => ?_, fun u hu => ?_⟩
  · obtain ⟨⟨s₁, hread, heq⟩, -⟩ := hyes hauth
    refine ⟨s₁, ?_, heq⟩
    rw [readsOf_parts, hread, hquiet₂ _ (by decide), hquiet₃ _ (by decide) (by decide)]
    rfl
  · have hbase : b₁.baseDomain = soa.baseFQDN := by rw [(hyes hasks.authority).2]
    obtain ⟨⟨s₂, hread, heq⟩, -⟩ := hns' hasks (by rw [hbase]; exact hmatch)
    refine ⟨s₂, ?_, heq⟩
    rw [readsOf_parts, hread, hquiet₁ _ (by decide), hquiet₃ _ (by decide) (by decide)]
    rfl
  · have hmem : ∀ s ∈ visited vs₂, s.Grows u := by
      intro s hs
      apply hu s
      obtain ⟨w, hw, hs⟩ := List.mem_flatMap.mp hs
      exact List.mem_flatMap.mpr ⟨w, by simp [hw], hs⟩
    have hkeep : b'.pendingSOA ++ b'.pendingNS u = b₂.pendingSOA ++ b₂.pendingNS u := by
      rw [hb']
      rfl
    rw [hkeep, pending_authority (u := u) (v := v) ⟨rfl, rfl⟩ (fun h => (hyes h).2) hno
      (fun h6 h7 => ⟨(hns' h6 h7).2.1 u hmem, (hns' h6 h7).2.2⟩) hnons]
    rfl

/-- **The addresses** a lookup leaves to deliver, and where they were read. -/
theorem lookup_addresses {rnd : Randomness} {type : QType} {qdomain : Str} {b b' : GLBBackend}
    (ht : Trace (lookup rnd type qdomain b) vs (ret b'))
    (hwf : ∀ v ∈ vs, v.pre.WellFormed) (hG : (visited vs).Pairwise Grows)
    (hnone : AsksAddresses type → ∀ s ∈ readsOf .lookup vs, ∀ p c, s.find (lower qdomain) = some p →
      s.container p = some c → c.glbType = GlbType.NONE) :
    ∃ stored : Option (List IPRecord),
      (∃ s, readsOf .lookup vs = [s] ∧ (s.find (lower qdomain) = none → stored = none) ∧
        ∀ p, s.find (lower qdomain) = some p → AsksAddresses type →
          ∃ s' c, readsOf .getIPs vs = [s'] ∧ s'.container p = some c ∧ stored = some c.ips) ∧
      b'.pendingIPs = addressAnswer type qdomain stored := by
  obtain ⟨s₀, vs₁, vs₂, vs₃, b₁, b₂, rfl, h1, h2, h3⟩ := lookup_parts ht
  obtain ⟨soa, hyes, hno, hquiet₁⟩ := lookupSOA_trace h1
  obtain ⟨v, hns, hnons, hquiet₂⟩ := lookupNS_trace h2
  have hsub : (visited vs₃).Sublist (visited (⟨[], s₀, s₀⟩ :: (vs₁ ++ (vs₂ ++ vs₃)))) := by
    simp only [visited, List.flatMap_cons, List.flatMap_append]
    exact ((List.sublist_append_right _ _).trans (List.sublist_append_right _ _)).trans
      (List.sublist_append_right _ _)
  obtain ⟨stored, ⟨s, hsearch, hunmapped, hmapped⟩, hb'⟩ := lookupIPs_trace h3
    (fun w hw => hwf w (by simp [hw])) (hG.sublist hsub) fun hasks s hs => hnone hasks s (by
      rw [readsOf_parts]
      exact List.mem_append_right _ (List.mem_append_right _ hs))
  refine ⟨stored, ⟨s, ?_, hunmapped, fun p hp hasks => ?_⟩, ?_⟩
  · rw [readsOf_parts, hsearch, hquiet₁ _ (by decide), hquiet₂ _ (by decide)]
    rfl
  · obtain ⟨s₄, c, hread, hc, heq⟩ := hmapped p hp hasks
    refine ⟨s₄, c, ?_, hc, heq⟩
    rw [readsOf_parts, hread, hquiet₁ _ (by decide), hquiet₂ _ (by decide)]
    rfl
  · obtain ⟨hips₁, hname₁⟩ := lookupSOA_keeps h1
    obtain ⟨hips₂, hname₂⟩ := lookupNS_keeps h2
    rw [hb', GLBBackend.pendingIPs, addressAnswer]
    simp only [hips₂, hips₁, hname₂, hname₁, List.nil_append]
    split_ifs <;> rfl

/-- **What a lookup leaves to deliver** are the records owed for what it read. -/
theorem lookup_trace {rnd : Randomness} {type : QType} {qdomain : Str} {b b' : GLBBackend}
    (ht : Trace (lookup rnd type qdomain b) vs (ret b'))
    (hwf : ∀ v ∈ vs, v.pre.WellFormed) (hG : (visited vs).Pairwise Grows)
    (hnone : AsksAddresses type → ∀ s ∈ readsOf .lookup vs, ∀ p c, s.find (lower qdomain) = some p →
      s.container p = some c → c.glbType = GlbType.NONE) :
    ∃ o : Observation, Observes type (lower qdomain) vs o ∧
      ∀ u : Globals, (∀ s ∈ visited vs, s.Grows u) →
        b'.pending u = o.answer type qdomain (loadedSOA b (lower qdomain) o.soa) := by
  obtain ⟨soa, ns, hsoa, hns, hauthority⟩ := lookup_authority ht hwf
  obtain ⟨stored, hstored, haddresses⟩ := lookup_addresses ht hwf hG hnone
  refine ⟨⟨soa, ns, stored⟩, ⟨hsoa, hns, hstored⟩, fun u hu => ?_⟩
  rw [GLBBackend.pending, hauthority u hu, haddresses]
  rfl

/-- **A query answers with the records owed for what it read**, each once and in order, and then with
nothing, whatever other threads did between its reads and between the calls of `get`. -/
theorem query_trace {rnd : Randomness} {type : QType} {qdomain : Str} {n : ℕ} {rr : DNSResourceRecord}
    {b : GLBBackend} {as : List (Option DNSResourceRecord)} {h : Globals}
    (ht : Trace (query rnd type qdomain n rr b) vs (ret as))
    (hwf : ∀ v ∈ vs, v.pre.WellFormed) (hG : (h :: visited vs).Pairwise Grows)
    (hnone : AsksAddresses type → ∀ s ∈ readsOf .lookup vs, ∀ p c, s.find (lower qdomain) = some p →
      s.container p = some c → c.glbType = GlbType.NONE) :
    ∃ o : Observation, Observes type (lower qdomain) vs o ∧
      as = deliver n (o.answer type qdomain (loadedSOA b (lower qdomain) o.soa)) := by
  obtain ⟨vs₁, vs₂, b', rfl, h1, h2⟩ :=
    Trace.bind ht (balanced_of_rules (keeps_lookup (fun _ _ => trivial) rnd type qdomain b))
  have hquiet : ∀ c, readsOf c vs₂ = [] := fun c =>
    h2.readsOf_eq_nil ((enters_of_rules (keeps_gets n rr b')).bind fun _ => trivial)
  have hreads : ∀ c, readsOf c (vs₁ ++ vs₂) = readsOf c vs₁ := fun c => by
    rw [readsOf_append, hquiet, List.append_nil]
  have hvisited : visited (vs₁ ++ vs₂) = visited vs₁ ++ visited vs₂ := List.flatMap_append
  rw [hvisited] at hG
  obtain ⟨hG₀, hG₁₂⟩ := List.pairwise_cons.mp hG
  obtain ⟨hG₁, hG₂, hG₁₂⟩ := List.pairwise_append.mp hG₁₂
  have hhead : (h :: visited vs₁).Pairwise Grows :=
    List.pairwise_cons.mpr ⟨fun s hs => hG₀ s (List.mem_append_left _ hs), hG₁⟩
  -- the lookup
  obtain ⟨o, hobs, hpending⟩ := lookup_trace h1 (fun v hv => hwf v (List.mem_append_left _ hv)) hG₁
    fun hasks s hs => hnone hasks s (by rw [hreads]; exact hs)
  obtain ⟨h₁, hready, hup⟩ := Trace.safe Grows.refl Grows.trans h1
    (lookup_safe h rnd type qdomain b) (fun v hv => hwf v (List.mem_append_left _ hv)) hhead
  have hready : b'.Ready h₁ := hready
  obtain ⟨u, hu⟩ := exists_above Grows.refl Grows.trans hhead
  have hanswer : b'.pending h₁ = o.answer type qdomain (loadedSOA b (lower qdomain) o.soa) := by
    rw [← hready.pending_grows (hup u hu)]
    exact hpending u fun s hs => hu s (List.mem_cons_of_mem h hs)
  -- the calls of `get`
  have hdrain : SafeCode (fun out _ => out = deliver n (b'.pending h₁)) h₁
      ((gets n rr b').bind fun r => ret r.1) :=
    Safe.bind (gets_safe h₁ n rr hready) fun _ _ hr => hr
  have hafter : (h₁ :: visited vs₂).Pairwise Grows := by
    refine List.pairwise_cons.mpr ⟨fun s hs => hup s fun t ht => ?_, hG₂⟩
    rcases List.mem_cons.mp ht with rfl | ht
    · exact hG₀ s (List.mem_append_right _ hs)
    · exact hG₁₂ t ht s hs
  obtain ⟨h₂, hdone, -⟩ := Trace.safe Grows.refl Grows.trans h2 hdrain
    (fun v hv => hwf v (List.mem_append_right _ hv)) hafter
  have hdone : as = deliver n (b'.pending h₁) := hdone
  refine ⟨o, ⟨fun hauth => ?_, fun hasks hmatch => ?_, ?_⟩, by rw [hdone, hanswer]⟩
  · rw [hreads]
    exact hobs.soa hauth
  · rw [hreads]
    exact hobs.ns hasks hmatch
  · rw [hreads, hreads]
    exact hobs.stored

/-! ### A query alone -/

/-- What a lookup of the name observes in a state nobody changes. -/
def Globals.observe (g : Globals) (name : Str) : Observation :=
  ⟨g.globalSOA, g.nsList, (g.lookupContainer name).map (·.ips)⟩

theorem sameZone_of_readsOf {c : Scope} {s g : Globals} (hzone : ∀ v ∈ vs, g.SameZone v.pre)
    (hs : readsOf c vs = [s]) : g.SameZone s := by
  obtain ⟨v, hv, rfl⟩ := exists_of_readsOf_eq hs
  exact hzone v hv

/-- Authority data read in states of one zone are the data of that zone, as far as the answer goes. -/
theorem authorityAnswer_zone {type : QType} {qdomain : Str} {soa : SOAContainer} {ns : List Str}
    {g : Globals}
    (hsoa : AsksAuthority type → ∃ s, readsOf .getGlobalSOARecord vs = [s] ∧ s.globalSOA = soa)
    (hns : AsksNS type → matchesBaseFqdn (lower qdomain) soa.baseFQDN = true →
      ∃ s, readsOf .getNSRecords vs = [s] ∧ s.nsList = ns)
    (hzone : ∀ v ∈ vs, g.SameZone v.pre) (b : GLBBackend) :
    authorityAnswer type qdomain (loadedSOA b (lower qdomain) soa) soa.baseFQDN ns
      = authorityAnswer type qdomain (loadedSOA b (lower qdomain) g.globalSOA) g.globalSOA.baseFQDN
          g.nsList := by
  by_cases hauth : AsksAuthority type
  · obtain ⟨s, hs, hread⟩ := hsoa hauth
    have heq : soa = g.globalSOA := by rw [← hread, (sameZone_of_readsOf hzone hs).soa]
    rw [authorityAnswer, authorityAnswer, heq]
    congr 1
    by_cases hcond : AsksNS type ∧ matchesBaseFqdn (lower qdomain) g.globalSOA.baseFQDN = true
    · obtain ⟨s', hs', hlist⟩ := hns hcond.1 (by rw [heq]; exact hcond.2)
      rw [if_pos hcond, if_pos hcond, ← hlist, (sameZone_of_readsOf hzone hs').ns]
    · rw [if_neg hcond, if_neg hcond]
  · have hsoa : type ≠ QType.SOA := fun h => hauth (Or.inl h)
    have hns : ∀ base : Str, ¬ (AsksNS type ∧ matchesBaseFqdn (lower qdomain) base = true) :=
      fun base h => hauth h.1.authority
    rw [authorityAnswer, authorityAnswer, if_neg hsoa, if_neg hsoa, if_neg (hns _), if_neg (hns _)]

/-- So are the addresses. -/
theorem addressAnswer_zone {type : QType} {qdomain : Str} {stored : Option (List IPRecord)}
    {g : Globals}
    (hstored : ∃ s, readsOf .lookup vs = [s] ∧ (s.find (lower qdomain) = none → stored = none) ∧
      ∀ p, s.find (lower qdomain) = some p → AsksAddresses type →
        ∃ s' c, readsOf .getIPs vs = [s'] ∧ s'.container p = some c ∧ stored = some c.ips)
    (hzone : ∀ v ∈ vs, g.SameZone v.pre) :
    addressAnswer type qdomain stored
      = addressAnswer type qdomain ((g.lookupContainer (lower qdomain)).map (·.ips)) := by
  rw [addressAnswer, addressAnswer]
  split_ifs with hasks
  · obtain ⟨s, hs, hunmapped, hmapped⟩ := hstored
    have hfind := (sameZone_of_readsOf hzone hs).find (lower qdomain)
    rw [lookupContainer]
    cases hf : g.find (lower qdomain) with
    | none =>
        rw [hunmapped (by rw [hfind, hf])]
        rfl
    | some p =>
        obtain ⟨s', c, hs', hc, hips⟩ := hmapped p (by rw [hfind, hf]) hasks
        have hcont := (sameZone_of_readsOf hzone hs').containers p
        rw [hc] at hcont
        rw [hips, Option.bind_some]
        cases hc' : g.container p with
        | none => rw [hc'] at hcont; exact absurd hcont (by simp)
        | some c' =>
            rw [hc'] at hcont
            have heq : c.ips = c'.ips := (Prod.mk.inj (Option.some.inj hcont)).2
            rw [heq]
            rfl
  · rfl

/-- Visits to states of one zone observe that zone, as far as the answer goes. -/
theorem Observes.answer_eq {type : QType} {qdomain : Str} {o : Observation} {g : Globals}
    (ho : Observes type (lower qdomain) vs o) (hzone : ∀ v ∈ vs, g.SameZone v.pre) (b : GLBBackend) :
    o.answer type qdomain (loadedSOA b (lower qdomain) o.soa)
      = (g.observe (lower qdomain)).answer type qdomain (loadedSOA b (lower qdomain) g.globalSOA) := by
  rw [Observation.answer, Observation.answer, authorityAnswer_zone ho.soa ho.ns hzone b,
    addressAnswer_zone ho.stored hzone]
  rfl

/-- **A query alone** answers with the records owed for the state it runs in. -/
theorem query_run {g : Globals} (hg : g.WellFormed) (rnd : Randomness) (type : QType) (qdomain : Str)
    (n : ℕ) (rr : DNSResourceRecord) (b : GLBBackend)
    (hnone : AsksAddresses type →
      ∀ c, g.lookupContainer (lower qdomain) = some c → c.glbType = GlbType.NONE) :
    ∃ g', (query rnd type qdomain n rr b).run g
      = some (deliver n ((g.observe (lower qdomain)).answer type qdomain
          (loadedSOA b (lower qdomain) g.globalSOA)), g') := by
  have hsafe := query_safe g rnd type qdomain n rr b
  obtain ⟨as, g', hrun, -, -, -⟩ := hsafe.run Grows.refl Grows.trans hg (Grows.refl g)
  obtain ⟨vs, ht, hc⟩ := run_trace hrun
  obtain ⟨hwf, hG, -⟩ := Safe.chained Grows.refl Grows.trans ht hsafe hg (Grows.refl g) hc
  obtain ⟨hzone, -⟩ := Accesses.chained (P := KeepsZone) (fun f hf => hf) SameZone.refl SameZone.trans ht
    (keepsZone_of_rules (fun _ => Scope.OfLookup.quiet) (keeps_query (fun _ => id) rnd type qdomain n rr b))
    hc
  obtain ⟨o, ho, has⟩ := query_trace ht hwf hG fun hasks s hs p c hf hp => by
    obtain ⟨v, hv, rfl⟩ := mem_of_mem_readsOf hs
    have hsame := (hzone v hv).1
    have hcont := hsame.containers p
    rw [hp] at hcont
    cases hgp : g.container p with
    | none => rw [hgp] at hcont; exact absurd hcont (by simp)
    | some c' =>
        rw [hgp] at hcont
        have htype : c.glbType = c'.glbType := (Prod.mk.inj (Option.some.inj hcont)).1
        rw [htype]
        apply hnone hasks
        rw [lookupContainer, ← hsame.find, hf]
        exact hgp
  refine ⟨g', ?_⟩
  rw [hrun, has, ho.answer_eq (fun v hv => (hzone v hv).1) b]

end GlbBackend
