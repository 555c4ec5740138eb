import GlbBackend.AnswerStream
import GlbBackend.Requests

/-!
# The owner names of the records that `get` delivers

`get` takes the owner of a record from three places: an SOA record is owned by the base domain that the
lookup read, an address record by the name that was asked for, and an NS record by the name `ns1` below the
base domain (`glbbackend.cc:156`), whatever server the record names.  So the records of every answer have the
owner they should unless NS records are sent, and then only if `ns1` below the base domain was asked for
(`owners_iff`).
-/

namespace GlbBackend

open Text Concurrent Concurrent.Proc Globals

/-- The owner a record should have: an address record the name that was asked for, an authority record that
name or the base domain. -/
def OwnedRightly (base qdomain : Str) (rr : DNSResourceRecord) : Prop :=
  (rr.qtype = QType.A ∨ rr.qtype = QType.AAAA → rr.qname = qdomain) ∧
    (rr.qtype = QType.SOA ∨ rr.qtype = QType.NS → rr.qname = base ∨ rr.qname = qdomain)

/-- After the query in state `g`, the records that the instance sends have the property, however many calls
of `get` are made and whatever other threads do between them. -/
def AllSent (rnd : Randomness) (g : Globals) (type : QType) (qdomain : Str) (b : GLBBackend)
    (P : DNSResourceRecord → Prop) : Prop :=
  ∀ b' g₁, (lookup rnd type qdomain b).run g = some (b', g₁) → ∀ as, Drains g₁ b' as →
    ∀ rr, some rr ∈ as → P rr

theorem ownedRightly_soaRR (content base qdomain : Str) : OwnedRightly base qdomain (soaRR content base) :=
  ⟨fun h => absurd (show QType.SOA = QType.A ∨ QType.SOA = QType.AAAA from h) (by decide),
    fun _ => Or.inl rfl⟩

theorem ownedRightly_addressRR (base qdomain : Str) (r : IPRecord) :
    OwnedRightly base qdomain (addressRR qdomain r) :=
  ⟨fun _ => rfl, fun _ => Or.inr rfl⟩

/-- An NS record is not owned by the base domain, which is shorter. -/
theorem ownedRightly_nsRR {base qdomain content : Str} :
    OwnedRightly base qdomain (nsRR base content) ↔ qdomain = "ns1.".toList ++ base := by
  constructor
  · rintro ⟨-, hns⟩
    rcases hns (Or.inr rfl) with h | h
    · have hlen := congrArg List.length (show "ns1.".toList ++ base = base from h)
      rw [List.length_append] at hlen
      exact absurd hlen (by simp)
    · exact (show "ns1.".toList ++ base = qdomain from h).symm
  · intro h
    refine ⟨fun hq => absurd (show QType.NS = QType.A ∨ QType.NS = QType.AAAA from hq) (by decide),
      fun _ => Or.inr h.symm⟩

section Sent

variable {g : Globals} {rnd : Randomness} {type : QType} {qdomain : Str} {b : GLBBackend}
  {P : DNSResourceRecord → Prop}

/-- What a query sends is what it owes: the authority records for the state, and addresses under the name
that was asked for. -/
theorem allSent_iff (hg : g.WellFormed) :
    AllSent rnd g type qdomain b P ↔
      (∀ rr ∈ authorityAnswer type qdomain (loadedSOA b (lower qdomain) g.globalSOA) g.globalSOA.baseFQDN
        g.nsList, P rr) ∧
      ∀ b' g₁, (lookup rnd type qdomain b).run g = some (b', g₁) → ∀ r ∈ b'.ips, P (addressRR qdomain r) := by
  obtain ⟨b', g₁, hrun, hg₁, hready, hauthority⟩ := lookup_run hg rnd type qdomain b
  obtain ⟨vs, ht, -⟩ := run_trace hrun
  have hpending : b'.pending g₁ = authorityAnswer type qdomain (loadedSOA b (lower qdomain) g.globalSOA)
      g.globalSOA.baseFQDN g.nsList ++ b'.ips.map (addressRR qdomain) := by
    rw [GLBBackend.pending, hauthority, GLBBackend.pendingIPs, lookup_ourname ht]
  have hone : ∀ {b'' g₂}, (lookup rnd type qdomain b).run g = some (b'', g₂) → b'' = b' ∧ g₂ = g₁ :=
    fun hrun' => Prod.mk.inj (Option.some.inj (hrun'.symm.trans hrun))
  constructor
  · intro hsent
    have hall : ∀ rr ∈ b'.pending g₁, P rr := fun rr hrr =>
      hsent b' g₁ hrun _ (drains_deliver hg₁ hready _) rr (mem_deliver_length hrr)
    rw [hpending] at hall
    refine ⟨fun rr hrr => hall rr (List.mem_append_left _ hrr), fun b'' g₂ hrun' r hr => ?_⟩
    obtain ⟨rfl, -⟩ := hone hrun'
    exact hall _ (List.mem_append_right _ (List.mem_map_of_mem hr))
  · rintro ⟨hauth, haddr⟩ b'' g₂ hrun' as has rr hrr
    obtain ⟨rfl, rfl⟩ := hone hrun'
    obtain ⟨n, rfl⟩ := has.eq hready
    have hmem := mem_of_mem_deliver hrr
    rw [hpending] at hmem
    rcases List.mem_append.mp hmem with h | h
    · exact hauth rr h
    · obtain ⟨r, hr, rfl⟩ := List.mem_map.mp h
      exact haddr _ _ hrun r hr

end Sent

/-- **Exactly when the owners are right.**  In every reachable state, for every instance and every query, all
other records than NS records are sent under the right owner.  NS records are if and only if there are none
to send, or the name that was asked for is `ns1` below the base domain. -/
theorem owners_iff (ord : MapOrder) (rnd : Randomness) {g : Globals} (hg : g.Reachable ord rnd)
    (type : QType) (qdomain : Str) (b : GLBBackend) :
    AllSent rnd g type qdomain b
        (fun rr => rr.qtype ≠ QType.NS → OwnedRightly g.globalSOA.baseFQDN qdomain rr) ∧
      (AllSent rnd g type qdomain b (OwnedRightly g.globalSOA.baseFQDN qdomain) ↔
        (AsksNS type → matchesBaseFqdn (lower qdomain) g.globalSOA.baseFQDN = true →
          g.nsList = [] ∨ qdomain = "ns1.".toList ++ g.globalSOA.baseFQDN)) := by
  rw [allSent_iff hg.wellFormed, allSent_iff hg.wellFormed]
  constructor
  · refine ⟨fun rr hrr hns => ?_, fun _ _ _ r _ _ => ownedRightly_addressRR _ _ r⟩
    rcases mem_authorityAnswer.mp hrr with ⟨-, rfl⟩ | ⟨-, n, -, rfl⟩
    · exact ownedRightly_soaRR _ _ _
    · exact absurd rfl hns
  · rw [and_iff_left fun _ _ _ r _ => ownedRightly_addressRR _ _ r]
    constructor
    · intro hall hasks hmatch
      refine or_iff_not_imp_left.mpr fun hne => ?_
      obtain ⟨n, hn⟩ := List.exists_mem_of_ne_nil _ hne
      exact ownedRightly_nsRR.mp
        (hall (nsRR g.globalSOA.baseFQDN n) (mem_authorityAnswer.mpr (Or.inr ⟨⟨hasks, hmatch⟩, n, hn, rfl⟩)))
    · intro hcond rr hrr
      rcases mem_authorityAnswer.mp hrr with ⟨-, rfl⟩ | ⟨⟨hasks, hmatch⟩, n, hn, rfl⟩
      · exact ownedRightly_soaRR _ _ _
      · rcases hcond hasks hmatch with hnil | hname
        · rw [hnil] at hn
          exact absurd hn List.not_mem_nil
        · exact ownedRightly_nsRR.mpr hname

/-! #### A base domain with a name server -/

/-- The base domain `b` with the name server `n`. -/
def nsZone : Globals := soaZone.setNS ["n".toList]

theorem reachable_nsZone (ord : MapOrder) (rnd : Randomness) : nsZone.Reachable ord rnd :=
  have hserved : Served ord rnd (init 0)
      [(.command "SET_SOA b x".toList, _), (.command "SET_NS n".toList, _)] nsZone :=
    Served.cons rfl (Served.cons rfl (Served.nil _))
  hserved.reachable

theorem owners_iff_nsZone :
    ∃ g : Globals, g.Reachable MapOrder.entries Randomness.counting ∧
      AllSent Randomness.counting g QType.NS "ns1.b".toList .new
        (OwnedRightly g.globalSOA.baseFQDN "ns1.b".toList) := by
  have hg := reachable_nsZone MapOrder.entries Randomness.counting
  have hiff := (owners_iff MapOrder.entries Randomness.counting hg QType.NS "ns1.b".toList .new).2
  exact ⟨nsZone, hg, hiff.mpr fun _ _ => Or.inr rfl⟩

/-- **An NS record under a wrong owner**: asked for the name servers of `b`, `get` names those of `ns1.b`. -/
theorem nsRecord_owned_wrongly :
    ¬ ∀ (ord : MapOrder) (rnd : Randomness) (g : Globals), g.Reachable ord rnd →
      ∀ (type : QType) (qdomain : Str) (b : GLBBackend),
        AllSent rnd g type qdomain b (OwnedRightly g.globalSOA.baseFQDN qdomain) := by
  intro h
  have hsent := h MapOrder.entries Randomness.counting nsZone (reachable_nsZone _ _) QType.NS "b".toList .new
  have howned := ((allSent_iff (reachable_nsZone MapOrder.entries Randomness.counting).wellFormed).mp hsent).1
    (nsRR "b".toList "n".toList) (mem_authorityAnswer.mpr (Or.inr ⟨by decide, "n".toList, by decide, rfl⟩))
  exact absurd (ownedRightly_nsRR.mp howned) (by decide)

end GlbBackend
