import GlbBackend.WellFormed
import GlbBackend.RandomAlgo

/-!
# `lookup` and `get` are safe, and `get` delivers what is pending

The safety of the DNS side.  `lookup` leaves an instance whose iterator and records `get` can use
(`GLBBackend.Ready`), whatever other threads do meanwhile.

What such an instance still has to deliver is a list of records, `GLBBackend.pending`: the SOA record, the
NS records from the iterator on, the addresses.  `get_safe` is the step: one call delivers the head of the
list and leaves the tail, or returns false on the empty list.  `gets_safe` is the run: `n` calls deliver
the first `n` records and then nothing (`deliver`).
-/

namespace GlbBackend

open Text Concurrent Concurrent.Proc Globals

/-! ### What an instance still has to deliver -/

/-- The SOA record `get` builds. -/
def soaRR (content base : Str) : DNSResourceRecord :=
  { content := content, ttl := 60, qname := base, qtype := QType.SOA, auth := true, domain_id := 1 }

/-- The NS record `get` builds for one entry. -/
def nsRR (base content : Str) : DNSResourceRecord :=
  { content := content, ttl := 60, qname := "ns1.".toList ++ base, qtype := QType.NS, auth := true,
    domain_id := 1 }

/-- The record `get` builds for one stored address. -/
def addressRR (qdomain : Str) (r : IPRecord) : DNSResourceRecord :=
  { content := r.ipAddress, ttl := r.ttl, qname := qdomain,
    qtype := if r.ipType = IPRecordType.IPv4 then QType.A else QType.AAAA, auth := true,
    domain_id := 1 }

namespace GLBBackend

/-- The SOA part of what is pending. -/
def pendingSOA (b : GLBBackend) : List DNSResourceRecord :=
  if b.sendSOA then [soaRR b.soaRecord b.baseDomain] else []

/-- The NS part: the entries from the iterator on. -/
def pendingNS (b : GLBBackend) (g : Globals) : List DNSResourceRecord :=
  if b.sendNS then
    (((b.nsRecords.bind g.vector).getD []).drop b.nsIterator).map (nsRR b.baseDomain)
  else []

/-- The address part. -/
def pendingIPs (b : GLBBackend) : List DNSResourceRecord := b.ips.map (addressRR b.d_ourname)

/-- **What `get` still has to deliver.** -/
def pending (b : GLBBackend) (g : Globals) : List DNSResourceRecord :=
  b.pendingSOA ++ b.pendingNS g ++ b.pendingIPs

/-- An instance that `get` can work on: while it is to send NS records it has a published vector and a
position in it, and the records it holds are valid. -/
structure Ready (b : GLBBackend) (g : Globals) : Prop where
  iterator : b.sendNS = true →
    ∃ v recs, b.nsRecords = some v ∧ g.vector v = some recs ∧ b.nsIterator ≤ recs.length
  records : ∀ r ∈ b.ips, r.Valid

theorem Ready.grows {b : GLBBackend} {g g' : Globals} (hb : b.Ready g) (hG : g.Grows g') :
    b.Ready g' := by
  refine ⟨fun hs => ?_, hb.records⟩
  obtain ⟨v, recs, h1, h2, h3⟩ := hb.iterator hs
  exact ⟨v, recs, h1, hG.vectors v recs h2, h3⟩

/-- Nothing another thread does changes what is pending: a published vector keeps its contents. -/
theorem Ready.pending_grows {b : GLBBackend} {g g' : Globals} (hb : b.Ready g) (hG : g.Grows g') :
    b.pending g' = b.pending g := by
  have hns : b.pendingNS g' = b.pendingNS g := by
    rw [pendingNS, pendingNS]
    split_ifs with hs
    · obtain ⟨v, recs, h1, h2, -⟩ := hb.iterator hs
      rw [h1, Option.bind_some, Option.bind_some, h2, hG.vectors v recs h2]
    · rfl
  rw [pending, pending, hns]

end GLBBackend

/-- What `n` calls deliver of a list: its first records, then nothing. -/
def deliver {α : Type} : ℕ → List α → List (Option α)
  | 0, _ => []
  | n + 1, [] => none :: deliver n []
  | n + 1, a :: l => some a :: deliver n l

theorem deliver_eq {α : Type} (n : ℕ) (l : List α) :
    deliver n l = (l.take n).map some ++ List.replicate (n - l.length) none := by
  induction n generalizing l with
  | zero => simp [deliver]
  | succ n ih =>
      cases l with
      | nil =>
          rw [deliver, ih]
          simp [List.replicate_succ]
      | cons a l =>
          rw [deliver, ih]
          simp

theorem mem_of_mem_deliver {α : Type} {n : ℕ} {l : List α} {a : α} (h : some a ∈ deliver n l) :
    a ∈ l := by
  rw [deliver_eq] at h
  rcases List.mem_append.mp h with h | h
  · obtain ⟨b, hb, heq⟩ := List.mem_map.mp h
    rw [← Option.some.inj heq]
    exact List.mem_of_mem_take hb
  · exact absurd (List.eq_of_mem_replicate h) (by simp)

/-- Enough calls deliver everything. -/
theorem mem_deliver_length {α : Type} {l : List α} {a : α} (h : a ∈ l) :
    some a ∈ deliver l.length l := by
  rw [deliver_eq, List.take_length]
  exact List.mem_append_left _ (List.mem_map_of_mem h)

/-! ### `lookup` is safe -/

variable (h : Globals)

theorem valid_getIPSNoneAlgo {ips dq : List IPRecord} (hips : ∀ r ∈ ips, r.Valid)
    (hdq : ∀ r ∈ dq, r.Valid) (ipType : ℤ) : ∀ r ∈ getIPSNoneAlgo ips dq ipType, r.Valid := by
  intro r hr
  rw [getIPSNoneAlgo_eq] at hr
  rcases List.mem_append.mp hr with hr | hr
  · exact hdq r hr
  · exact hips r (List.mem_of_mem_filter hr)

theorem incNLookups_safe (glb : Ptr) :
    SafeCode (fun _ h' => h.Grows h') h (incNLookups glb) :=
  have hu : ∀ c : GlbContainer, c.incNLookups.glbType = c.glbType ∧ c.incNLookups.cname = c.cname :=
    fun _ => ⟨rfl, rfl⟩
  safe_lockGuard (safe_update (fun _ hc => hc.incNLookups) hu fun g hG => hG.trans (grows_update g glb hu)) _

/-- The records `getIPs` delivers are the ones it was given and stored ones. -/
theorem getIPs_safe (rnd : Randomness) {glb : Ptr} (hl : Live glb h) {dq : List IPRecord}
    (hdq : ∀ r ∈ dq, r.Valid) (ipType : ℤ) :
    SafeCode (fun out h' => h.Grows h' ∧ ∀ r ∈ out, r.Valid) h (getIPs rnd glb dq ipType) := by
  refine Safe.bind (incNLookups_safe h glb) fun _ h₁ hG₁ => ?_
  refine safe_read_bind fun g₁ _ hG₂ => ?_
  have hG := hG₁.trans hG₂
  obtain ⟨c₁, hc₁⟩ := hl.grows hG
  simp only [hc₁, expect_some, bind_eq, ret_bind]
  split_ifs
  · refine safe_sharedLock (Safe.scope (safe_read_bind fun g₂ hg₂ hG₃ => ?_) _) _
    obtain ⟨c₂, hc₂⟩ := Live.grows ⟨c₁, hc₁⟩ hG₃
    simp only [hc₂, expect_some, ret_bind]
    exact ⟨hG.trans hG₃, valid_getIPSNoneAlgo (hg₂.valid glb c₂ hc₂).records hdq ipType⟩
  · refine safe_sharedLock (Safe.scope (safe_read_bind fun g₂ hg₂ hG₃ => ?_) _) _
    obtain ⟨c₂, hc₂⟩ := Live.grows ⟨c₁, hc₁⟩ hG₃
    simp only [hc₂, expect_some, ret_bind]
    intro g₃ hg₃ hG₄
    have hG₅ : g₃.Grows { g₃ with rng := (getIPSRandomAlgo rnd.lib rnd.gen g₃.rng c₂.ips dq ipType).2 } :=
      Grows.of_heaps (fun _ => rfl) fun _ => rfl
    obtain ⟨served, hserved, hperm⟩ :=
      getIPSRandomAlgo_eq rnd.lib rnd.gen g₃.rng c₂.ips dq ipType
    refine ⟨⟨hg₃.mapped, hg₃.valid, hg₃.published⟩, hG₅, ?_⟩
    simp only [hserved, ret_bind, expect_some]
    refine ⟨((hG.trans hG₃).trans hG₄).trans hG₅, fun r hr => ?_⟩
    rcases List.mem_append.mp hr with hr | hr
    · exact hdq r hr
    · exact (hg₂.valid glb c₂ hc₂).records r (List.mem_of_mem_filter (hperm.subset hr))
  · exact ⟨hG, hdq⟩

theorem debugNS_safe (ns : List Str) {Q : Unit → Globals → Prop} (hQ : Q () h) :
    SafeCode Q h (debugNS ns) := by
  induction ns with
  | nil => exact hQ
  | cons n ns ih =>
      exact Safe.bind (Q := fun _ h' => h' = h) (safe_debug rfl) fun _ h₁ heq => heq ▸ ih

/-- The first part of `lookup` leaves the NS flag and the records alone. -/
theorem lookupSOA_safe (type : QType) (name : Str) (b : GLBBackend) :
    SafeCode (fun b' _ => b'.sendNS = b.sendNS ∧ b'.ips = b.ips) h (lookupSOA type name b) := by
  rw [lookupSOA]
  split_ifs
  · refine Safe.bind (Q := fun _ _ => True) ?_ fun soa h₁ _ => ?_
    · refine safe_sharedLock (Safe.scope (safe_read_bind fun g _ _ => ?_) _) _
      trivial
    · simp only
      split_ifs
      · exact Safe.bind (Q := fun _ _ => True) (safe_debug trivial) fun _ _ _ => ⟨rfl, rfl⟩
      · exact ⟨rfl, rfl⟩
  · exact ⟨rfl, rfl⟩

/-- The second part puts the iterator at the start of a published vector before it sets the flag. -/
theorem lookupNS_safe (type : QType) (name : Str) {b : GLBBackend} (hns : b.sendNS = false)
    (hips : ∀ r ∈ b.ips, r.Valid) :
    SafeCode (fun b' h' => b'.Ready h') h (lookupNS type name b) := by
  have hsoa : ∀ b', b' = (if type = QType.SOA then { b with sendSOA := true } else b) →
      b'.sendNS = false ∧ b'.ips = b.ips := by
    rintro b' rfl
    split_ifs <;> exact ⟨hns, rfl⟩
  rw [lookupNS]
  generalize hb₁ : (if type = QType.SOA then { b with sendSOA := true } else b) = b₁
  obtain ⟨hns₁, hips₁⟩ := hsoa b₁ hb₁.symm
  rw [← hips₁] at hips
  split_ifs
  · refine Safe.bind (Q := fun _ _ => True) (safe_debug trivial) fun _ h₂ _ => ?_
    refine Safe.bind (Q := fun v h' => ∃ recs, h'.vector v = some recs) ?_ ?_
    · refine safe_sharedLock (Safe.scope (safe_read_bind fun g hg _ => ?_) _) _
      exact hg.published
    rintro v h₃ ⟨recs, hv⟩
    refine safe_read_bind fun g _ hG => ?_
    simp only [hG.vectors v recs hv, expect_some, bind_eq, ret_bind]
    refine Safe.bind (Q := fun _ h' => h' = g) (debugNS_safe g recs rfl) ?_
    rintro _ _ rfl
    exact ⟨fun _ => ⟨v, recs, rfl, hG.vectors v recs hv, Nat.zero_le _⟩, hips⟩
  · exact ⟨fun hs => absurd (hns₁.symm.trans hs) Bool.false_ne_true, hips⟩

theorem lookupIPs_safe (rnd : Randomness) (type : QType) (name : Str) {b : GLBBackend}
    (hb : b.Ready h) : SafeCode (fun b' h' => b'.Ready h') h (lookupIPs rnd type name b) := by
  refine Safe.bind (Q := fun glb h' => h.Grows h' ∧ ∀ p, glb = some p → Live p h') ?_ ?_
  · refine Safe.scope (safe_read_bind fun g hg hG => ?_) _
    exact ⟨hG, fun p hp => live_of_find hg hp⟩
  rintro glb h₁ ⟨hG, hlive⟩
  cases glb with
  | none => exact hb.grows hG
  | some p =>
      simp only
      split
      · exact hb.grows hG
      · refine Safe.bind (Q := fun _ h' => h' = h₁) (safe_debug rfl) ?_
        rintro _ _ rfl
        refine Safe.bind (getIPs_safe _ rnd (hlive p rfl) hb.records _) ?_
        rintro ips h₂ ⟨hG₂, hips⟩
        exact ⟨(hb.grows (hG.trans hG₂)).iterator, hips⟩

/-- **`lookup` is safe**, whatever the instance held before. -/
theorem lookup_safe (rnd : Randomness) (type : QType) (qdomain : Str) (b : GLBBackend) :
    SafeCode (fun b' h' => b'.Ready h') h (lookup rnd type qdomain b) := by
  refine Safe.bind (Q := fun _ _ => True) (safe_debug trivial) fun _ h₀ _ => ?_
  refine Safe.bind (lookupSOA_safe h₀ _ _ _) ?_
  rintro b₁ h₁ ⟨hns, hips⟩
  have hnone : ∀ r ∈ b₁.ips, r.Valid := by
    rw [hips]
    exact fun r hr => absurd hr List.not_mem_nil
  exact Safe.bind (lookupNS_safe h₁ _ _ hns hnone) fun b₂ h₂ hb₂ => lookupIPs_safe h₂ rnd _ _ hb₂

/-! ### `get` delivers what is pending -/

/-- One call on an instance with `p` pending: the head is delivered and the tail is left, or, if nothing
is pending, false is returned and nothing is left. -/
def DeliversHead (p : List DNSResourceRecord) (r : Bool × DNSResourceRecord × GLBBackend)
    (h' : Globals) : Prop :=
  r.2.2.Ready h' ∧
    ((p = [] ∧ r.1 = false ∧ r.2.2.pending h' = []) ∨
      (r.1 = true ∧ p = r.2.1 :: r.2.2.pending h'))

/-- The last part of `get`, on an instance without authority records left. -/
theorem getIP_safe (rr : DNSResourceRecord) {b : GLBBackend} (hb : b.Ready h)
    (hsoa : b.sendSOA = false) (hns : b.sendNS = false) :
    SafeCode (DeliversHead b.pendingIPs) h (getIP rr b) := by
  have hpending : ∀ ips, ({ b with ips := ips } : GLBBackend).pending h
      = ips.map (addressRR b.d_ourname) := by
    intro ips
    rw [GLBBackend.pending, GLBBackend.pendingSOA, GLBBackend.pendingNS, hsoa, hns]
    rfl
  rw [getIP, GLBBackend.pendingIPs]
  cases hips : b.ips with
  | nil =>
      refine ⟨hb, Or.inl ⟨rfl, rfl, ?_⟩⟩
      rw [show b = { b with ips := [] } by rw [← hips]]
      exact hpending []
  | cons r ips =>
      have hr : r.Valid := hb.records r (by rw [hips]; exact List.mem_cons_self)
      refine Safe.bind (Q := fun _ h' => h' = h) (safe_debug rfl) ?_
      rintro _ _ rfl
      refine ⟨⟨hb.iterator, fun r' hr' => hb.records r' ?_⟩, Or.inr ⟨rfl, ?_⟩⟩
      · rw [hips]
        exact List.mem_cons_of_mem r hr'
      · rw [hpending, List.map_cons]
        congr 1
        rcases hr.family with hf | hf
        · simp [addressRR, hf]
        · simp [addressRR, hf, IPRecordType.IPv4, IPRecordType.IPv6]

/-- **One call of `get`** delivers the head of what is pending. -/
theorem get_safe (rr : DNSResourceRecord) {b : GLBBackend} (hb : b.Ready h) :
    SafeCode (DeliversHead (b.pending h)) h (get rr b) := by
  rw [get]
  split_ifs with hsoa hns
  · refine Safe.bind (Q := fun _ h' => h' = h) (safe_debug rfl) ?_
    rintro _ _ rfl
    refine ⟨⟨hb.iterator, hb.records⟩, Or.inr ⟨rfl, ?_⟩⟩
    rw [GLBBackend.pending, GLBBackend.pendingSOA, if_pos hsoa]
    rfl
  · obtain ⟨v, recs, hv, hrecs, hle⟩ := hb.iterator hns
    have hpending : b.pending h
        = (recs.drop b.nsIterator).map (nsRR b.baseDomain) ++ b.pendingIPs := by
      rw [GLBBackend.pending, GLBBackend.pendingSOA, if_neg hsoa, GLBBackend.pendingNS, if_pos hns, hv,
        Option.bind_some, hrecs]
      rfl
    simp only [hv, expect_some, bind_eq, ret_bind]
    refine safe_read_bind fun g _ hG => ?_
    simp only [hG.vectors v recs hrecs, expect_some, ret_bind]
    split_ifs with hend
    · have hleft : b.pending h = b.pendingIPs := by
        rw [hpending, hend, List.drop_length]
        rfl
      rw [hleft]
      exact getIP_safe g rr (b := { b with sendNS := false, nsRecords := some v })
        ⟨fun hs => absurd hs Bool.false_ne_true, hb.records⟩ (Bool.eq_false_iff.mpr hsoa) rfl
    · have hlt : b.nsIterator < recs.length := lt_of_le_of_ne hle hend
      simp only [List.getElem?_eq_getElem hlt, expect_some, ret_bind]
      refine Safe.bind (Q := fun _ h' => h' = g) (safe_debug rfl) ?_
      rintro _ _ rfl
      refine ⟨⟨fun _ => ⟨v, recs, rfl, hG.vectors v recs hrecs, hlt⟩, hb.records⟩, Or.inr ⟨rfl, ?_⟩⟩
      rw [hpending, List.drop_eq_getElem_cons hlt, GLBBackend.pending, GLBBackend.pendingSOA,
        if_neg hsoa, GLBBackend.pendingNS, if_pos hns, Option.bind_some, hG.vectors v recs hrecs]
      rfl
  · have hpending : b.pending h = b.pendingIPs := by
      rw [GLBBackend.pending, GLBBackend.pendingSOA, if_neg hsoa, GLBBackend.pendingNS, if_neg hns]
      rfl
    rw [hpending]
    exact getIP_safe h rr hb (Bool.eq_false_iff.mpr hsoa) (Bool.eq_false_iff.mpr hns)

/-- **`n` calls of `get`** deliver the first `n` pending records, in order, and then nothing. -/
theorem gets_safe (n : ℕ) (rr : DNSResourceRecord) {b : GLBBackend} (hb : b.Ready h) :
    SafeCode (fun r _ => r.1 = deliver n (b.pending h)) h (gets n rr b) := by
  induction n generalizing h rr b with
  | zero => exact rfl
  | succ n ih =>
      refine Safe.bind (get_safe h rr hb) ?_
      rintro ⟨ok, rr', b'⟩ h₁ ⟨hb', hhead⟩
      refine Safe.bind (ih h₁ rr' hb') ?_
      rintro ⟨rest, b''⟩ h₂ hrest
      have hrest' : rest = deliver n (b'.pending h₁) := hrest
      rcases hhead with ⟨hnil, hok, hleft⟩ | ⟨hok, hcons⟩
      · have hok' : ok = false := hok
        have hleft' : b'.pending h₁ = [] := hleft
        show (if ok then some rr' else none) :: rest = deliver (n + 1) (b.pending h)
        rw [hnil, hok', hrest', hleft']
        rfl
      · have hok' : ok = true := hok
        show (if ok then some rr' else none) :: rest = deliver (n + 1) (b.pending h)
        rw [hcons, hok', hrest']
        rfl

/-- **A query is safe**, whatever the instance held before. -/
theorem query_safe (rnd : Randomness) (type : QType) (qdomain : Str) (n : ℕ)
    (rr : DNSResourceRecord) (b : GLBBackend) :
    SafeCode (fun _ _ => True) h (query rnd type qdomain n rr b) :=
  Safe.bind (lookup_safe h rnd type qdomain b) fun _ h₁ hb =>
    Safe.bind (gets_safe h₁ n rr hb) fun _ _ _ => trivial

end GlbBackend
