import GlbBackend.Daemon

/-!
# The answer stream

Three properties of `lookup` and `get`.

* `answer_stream` — among any other threads, `get` delivers exactly the records owed for what the lookup
  read, when an SOA query lies under the base domain.
* `answers_independent_iff` — whether an answer depends on what the instance answered before.
* `authority_confined_iff` — whether authority is claimed for names outside the base domain.

The last two fail in the same place.  `lookup` sets `sendSOA` for every SOA query but loads `soaRecord` only
if the name is under the base domain, and does not reset it; for a name outside, `get` sends what the
instance held before.  That is the only way to fail.
-/

namespace GlbBackend

open Text Concurrent Concurrent.Proc Globals

/-! ### Exact and isolated answers -/

/-- **The answer stream is exact and isolated.**  In every run of the daemon, a query whose name is found
unmapped or mapped to a `NONE` container, and lies under the base domain that the lookup read if its type is
SOA, delivers the records owed for what its own reads found: first the SOA record, then the NS records in
list order, then the addresses of the asked families in stored order, each exactly once, and then nothing. -/
theorem answer_stream {T : Type} [DecidableEq T] (ord : MapOrder) (rnd : Randomness)
    (program : T → List Request) (seed : ℕ)
    {es : List (Event T Request Scope Globals Reply)} {c : Config T LockId Scope Globals Reply}
    (hrun : Run (daemon ord rnd program) (Config.start (init seed)) es c)
    {t : T} {k : ℕ} {type : QType} {qdomain : Str} {n : ℕ} {rr : DNSResourceRecord} {b : GLBBackend}
    (hreq : (program t)[k]? = some (.query type qdomain n rr b))
    {as : List (Option DNSResourceRecord)} (hresp : Event.respond t k (.answers as) ∈ es)
    (hnone : ∀ s ∈ readsOf .lookup (own t k es), ∀ p c, s.find (lower qdomain) = some p →
      s.container p = some c → c.glbType = GlbType.NONE)
    (hbase : type = QType.SOA → ∀ s ∈ readsOf .getGlobalSOARecord (own t k es),
      matchesBaseFqdn (lower qdomain) s.globalSOA.baseFQDN = true) :
    ∃ o : Observation, Observes type (lower qdomain) (own t k es) o ∧
      as = deliver n (o.answer type qdomain o.soa.soaRecord) := by
  obtain ⟨hwf, hG⟩ := own_visits hrun (wellFormed_init seed) t k
  have ht := own_trace_query hrun hreq hresp
  obtain ⟨h, hhead⟩ := exists_below Grows.refl (init seed) hG
  obtain ⟨o, ho, has⟩ := query_trace ht hwf hhead fun _ => hnone
  refine ⟨o, ho, ?_⟩
  rw [has]
  -- the text sent is the text read: for an SOA query by `hbase`, and no other query sends it
  by_cases hsoa : type = QType.SOA
  · obtain ⟨s, hs, hsoaRead⟩ := ho.soa (Or.inl hsoa)
    have hmatch := hbase hsoa s (by rw [hs]; exact List.mem_singleton_self s)
    rw [hsoaRead] at hmatch
    rw [loadedSOA, if_pos hmatch]
  · rw [Observation.answer, Observation.answer, authorityAnswer, authorityAnswer, if_neg hsoa,
      if_neg hsoa]

/-- A connection fills a zone and later replaces its NS list; another thread asks for everything below it. -/
def zoneProgram (t : ℕ) : List Request :=
  if t = 0 then
    [.command "SET_SOA b.org text".toList, .command "SET_NS n1 n2".toList,
     .command "ADD_DOMAIN a.b.org NONE".toList,
     .command "SNAPSHOT a.b.org 4-60-1.2.3.4-x 6-30-::1-x".toList, .command "SET_NS n3".toList]
  else if t = 1 then
    [.query QType.ANY "A.b.org".toList 5 ⟨[], 0, [], 0, false, 0⟩ GLBBackend.new]
  else []

/-- The replacement falls between the moment the lookup has read the NS list and the calls of `get`. -/
def zoneRun : List (Event ℕ Request Scope Globals Reply) × Config ℕ LockId Scope Globals Reply :=
  schedule (daemon MapOrder.entries Randomness.counting zoneProgram)
    (List.replicate 13 0 ++ List.replicate 6 1 ++ List.replicate 3 0 ++ List.replicate 18 1) []
    (Config.start (init 0))

theorem answer_stream_ns_replaced :
    ∃ o : Observation, Observes QType.ANY (lower "A.b.org".toList) (own 1 0 zoneRun.1) o ∧
      [some (nsRR "b.org".toList "n1".toList), some (nsRR "b.org".toList "n2".toList),
        some (addressRR "A.b.org".toList ⟨IPRecordType.IPv4, "1.2.3.4".toList, 60⟩),
        some (addressRR "A.b.org".toList ⟨IPRecordType.IPv6, "::1".toList, 30⟩), none]
        = deliver 5 (o.answer QType.ANY "A.b.org".toList o.soa.soaRecord) := by
  refine answer_stream MapOrder.entries Randomness.counting zoneProgram 0
    (schedule_run _ Run.nil) (t := 1) (k := 0) rfl (mem_of_replyOf (by decide +kernel)) ?_
    fun h => absurd h (by decide)
  intro s hs p c _ hc
  have hall : (readsOf .lookup (own 1 0 zoneRun.1)).all
      (fun s => s.containers.all fun c => decide (c.glbType = GlbType.NONE)) = true := by
    decide +kernel
  have hmem : c ∈ s.containers := List.mem_of_getElem? hc
  exact of_decide_eq_true (List.all_eq_true.mp (List.all_eq_true.mp hall s hs) c hmem)

/-! ### Instances and what they answered before -/

/-- An instance as PowerDNS holds it: constructed, then taken through any calls of `lookup` and `get`, each
in some reachable state. -/
inductive GLBBackend.Reached (ord : MapOrder) (rnd : Randomness) : GLBBackend → Prop
  | new : Reached ord rnd .new
  | lookup {b b' : GLBBackend} {g g' : Globals} (type : QType) (qdomain : Str)
      (hb : Reached ord rnd b) (hg : g.Reachable ord rnd)
      (hrun : (lookup rnd type qdomain b).run g = some (b', g')) : Reached ord rnd b'
  | get {b b' : GLBBackend} {g g' : Globals} {ok : Bool} (rr rr' : DNSResourceRecord)
      (hb : Reached ord rnd b) (hg : g.Reachable ord rnd)
      (hrun : (get rr b).run g = some ((ok, rr', b'), g')) : Reached ord rnd b'

/-- The state after `SET_SOA b x` and nothing else. -/
def soaZone : Globals := (init 0).setSOA "x".toList "b".toList

theorem reachable_soaZone (ord : MapOrder) (rnd : Randomness) : soaZone.Reachable ord rnd :=
  ⟨0, fun _ => [.command "SET_SOA b x".toList], _, _,
    schedule_run (List.replicate 3 0) (Run.nil : Run (daemon ord rnd _) _ _ _), rfl⟩

/-- An instance that was asked for the SOA record of `b` in that state still holds its text. -/
theorem reached_loaded (ord : MapOrder) (rnd : Randomness) :
    ∃ b : GLBBackend, b.Reached ord rnd ∧ b.soaRecord = "x".toList := by
  obtain ⟨b, g, hrun, htext⟩ : ∃ b g, (lookup rnd QType.SOA "b".toList GLBBackend.new).run soaZone
      = some (b, g) ∧ b.soaRecord = "x".toList := ⟨_, _, rfl, rfl⟩
  exact ⟨b, .lookup _ _ .new (reachable_soaZone ord rnd) hrun, htext⟩

/-- What a client sees of a record. -/
def DNSResourceRecord.seen (rr : DNSResourceRecord) : Str × ℤ × Str × QType :=
  (rr.content, rr.ttl, rr.qname, rr.qtype)

/-- In state `g` the two instances give the query the same records, over any number of calls. -/
def AnswersAlike (rnd : Randomness) (g : Globals) (type : QType) (qdomain : Str)
    (b₁ b₂ : GLBBackend) : Prop :=
  ∀ (n : ℕ) (rr₁ rr₂ : DNSResourceRecord), ∃ as₁ as₂ g₁ g₂,
    (query rnd type qdomain n rr₁ b₁).run g = some (as₁, g₁) ∧
    (query rnd type qdomain n rr₂ b₂).run g = some (as₂, g₂) ∧
    as₁.map (Option.map DNSResourceRecord.seen) = as₂.map (Option.map DNSResourceRecord.seen)

section Instances

variable (ord : MapOrder) (rnd : Randomness) {g : Globals} (hg : g.WellFormed) {type : QType}
  {qdomain : Str}
  (hnone : ∀ c, g.lookupContainer (lower qdomain) = some c → c.glbType = GlbType.NONE)
include hg hnone

theorem answersAlike_of_confined
    (h : type = QType.SOA → matchesBaseFqdn (lower qdomain) g.globalSOA.baseFQDN = true)
    (b₁ b₂ : GLBBackend) : AnswersAlike rnd g type qdomain b₁ b₂ := by
  intro n rr₁ rr₂
  obtain ⟨g₁, h1⟩ := query_run hg rnd type qdomain n rr₁ b₁ fun _ => hnone
  obtain ⟨g₂, h2⟩ := query_run hg rnd type qdomain n rr₂ b₂ fun _ => hnone
  refine ⟨_, _, g₁, g₂, h1, h2, ?_⟩
  -- the only part that mentions the instance is the SOA text
  have hauthority : ∀ b : GLBBackend, authorityAnswer type qdomain
      (loadedSOA b (lower qdomain) g.globalSOA) g.globalSOA.baseFQDN g.nsList
      = authorityAnswer type qdomain g.globalSOA.soaRecord g.globalSOA.baseFQDN g.nsList := by
    intro b
    by_cases hsoa : type = QType.SOA
    · rw [loadedSOA, if_pos (h hsoa)]
    · rw [authorityAnswer, authorityAnswer, if_neg hsoa, if_neg hsoa]
  show (deliver n (authorityAnswer type qdomain (loadedSOA b₁ (lower qdomain) g.globalSOA)
      g.globalSOA.baseFQDN g.nsList ++ _)).map _
    = (deliver n (authorityAnswer type qdomain (loadedSOA b₂ (lower qdomain) g.globalSOA)
      g.globalSOA.baseFQDN g.nsList ++ _)).map _
  rw [hauthority b₁, hauthority b₂]

/-- For an SOA query outside the base domain a fresh instance and one that holds a text differ. -/
theorem not_answersAlike_of_outside (hsoa : type = QType.SOA)
    (hout : ¬ matchesBaseFqdn (lower qdomain) g.globalSOA.baseFQDN = true) {b : GLBBackend}
    (hb : b.soaRecord ≠ []) : ¬ AnswersAlike rnd g type qdomain GLBBackend.new b := by
  intro halike
  obtain ⟨as₁, as₂, g₁, g₂, h1, h2, heq⟩ := halike 1 ⟨[], 0, [], 0, false, 0⟩ ⟨[], 0, [], 0, false, 0⟩
  have hrun : ∀ b' as' g', (query rnd type qdomain 1 ⟨[], 0, [], 0, false, 0⟩ b').run g = some (as', g') →
      as' = [some (soaRR b'.soaRecord g.globalSOA.baseFQDN)] := by
    intro b' as' g' hq
    obtain ⟨g'', hq'⟩ := query_run hg rnd type qdomain 1 ⟨[], 0, [], 0, false, 0⟩ b' fun _ => hnone
    rw [hq] at hq'
    rw [(Prod.mk.inj (Option.some.inj hq')).1, Observation.answer, authorityAnswer, if_pos hsoa, loadedSOA,
      if_neg hout]
    rfl
  rw [hrun _ _ _ h1, hrun _ _ _ h2] at heq
  simp only [List.map_cons, Option.map_some, DNSResourceRecord.seen, soaRR, List.map_nil, List.cons.injEq,
    Option.some.injEq, Prod.mk.injEq, and_true] at heq
  exact hb heq.symm

end Instances

/-- **Exactly when an answer does not depend on what the instance answered before**: when an SOA query is
for a name under the base domain. -/
theorem answers_independent_iff (ord : MapOrder) (rnd : Randomness) {g : Globals} (hg : g.WellFormed)
    (hnone : ∀ f c, g.lookupContainer f = some c → c.glbType = GlbType.NONE) (type : QType)
    (qdomain : Str) :
    (∀ b₁ b₂ : GLBBackend, b₁.Reached ord rnd → b₂.Reached ord rnd →
        AnswersAlike rnd g type qdomain b₁ b₂) ↔
      (type = QType.SOA → matchesBaseFqdn (lower qdomain) g.globalSOA.baseFQDN = true) := by
  constructor
  · intro halike hsoa
    by_contra hout
    obtain ⟨b, hb, htext⟩ := reached_loaded ord rnd
    refine not_answersAlike_of_outside rnd hg (hnone _) hsoa hout ?_ (halike _ b .new hb)
    rw [htext]
    decide
  · exact fun h b₁ b₂ _ _ => answersAlike_of_confined rnd hg (hnone _) h b₁ b₂

theorem answers_independent_iff_soaZone :
    (∀ b₁ b₂ : GLBBackend, b₁.Reached MapOrder.entries Randomness.counting →
        b₂.Reached MapOrder.entries Randomness.counting →
        AnswersAlike Randomness.counting soaZone QType.SOA "www.b".toList b₁ b₂) ↔
      (QType.SOA = QType.SOA →
        matchesBaseFqdn (lower "www.b".toList) soaZone.globalSOA.baseFQDN = true) :=
  answers_independent_iff MapOrder.entries Randomness.counting
    (reachable_soaZone MapOrder.entries Randomness.counting).wellFormed
    (fun f c h => absurd h (by simp [soaZone, lookupContainer])) QType.SOA "www.b".toList

/-- **Two instances answer differently**: asked for the SOA record of `c` while `b` is the base domain, a
fresh one sends an empty text and one that was asked for `b` before sends the text of `b`. -/
theorem answers_differ_outside :
    ¬ ∀ b₁ b₂ : GLBBackend, b₁.Reached MapOrder.entries Randomness.counting →
        b₂.Reached MapOrder.entries Randomness.counting →
        AnswersAlike Randomness.counting soaZone QType.SOA "c".toList b₁ b₂ := by
  intro halike
  obtain ⟨b, hb, htext⟩ := reached_loaded MapOrder.entries Randomness.counting
  refine not_answersAlike_of_outside Randomness.counting
    (reachable_soaZone MapOrder.entries Randomness.counting).wellFormed
    (fun c h => absurd h (by simp [soaZone, lookupContainer])) rfl (by decide) ?_ (halike _ b .new hb)
  rw [htext]
  decide

/-! ### Authority -/

/-- Calls of `get` on the instance, from state `g` on, may deliver `as`, whatever happens to the globals
between them. -/
def Drains (g : Globals) (b : GLBBackend) (as : List (Option DNSResourceRecord)) : Prop :=
  ∃ (n : ℕ) (rr : DNSResourceRecord) (b' : GLBBackend) (vs : List (Visit Scope Globals)),
    Trace (gets n rr b) vs (ret (as, b')) ∧ (∀ v ∈ vs, v.pre.WellFormed) ∧
      (g :: visited vs).Pairwise Grows

/-- What they deliver is what is pending. -/
theorem Drains.eq {g : Globals} {b : GLBBackend} {as : List (Option DNSResourceRecord)}
    (h : Drains g b as) (hb : b.Ready g) : ∃ n, as = deliver n (b.pending g) := by
  obtain ⟨n, rr, b', vs, ht, hwf, hG⟩ := h
  obtain ⟨h', hdone, -⟩ := Trace.safe Grows.refl Grows.trans ht (gets_safe g n rr hb) hwf hG
  exact ⟨n, hdone⟩

theorem drains_deliver {g : Globals} (hg : g.WellFormed) {b : GLBBackend} (hb : b.Ready g) (n : ℕ) :
    Drains g b (deliver n (b.pending g)) := by
  have hsafe := gets_safe g n ⟨[], 0, [], 0, false, 0⟩ hb
  obtain ⟨⟨as, b'⟩, g', hrun, -, -, h', -, has⟩ := hsafe.run Grows.refl Grows.trans hg (Grows.refl g)
  obtain ⟨vs, ht, hc⟩ := run_trace hrun
  obtain ⟨hwf, hG, -⟩ := Safe.chained Grows.refl Grows.trans ht hsafe hg (Grows.refl g) hc
  have has : as = deliver n (b.pending g) := has
  rw [← has]
  exact ⟨n, _, b', vs, ht, hwf, hG⟩

/-- A lookup alone leaves a ready instance with the authority records owed for the state. -/
theorem lookup_run {g : Globals} (hg : g.WellFormed) (rnd : Randomness) (type : QType) (qdomain : Str)
    (b : GLBBackend) :
    ∃ b' g₁, (lookup rnd type qdomain b).run g = some (b', g₁) ∧ g₁.WellFormed ∧ b'.Ready g₁ ∧
      b'.pendingSOA ++ b'.pendingNS g₁
        = authorityAnswer type qdomain (loadedSOA b (lower qdomain) g.globalSOA) g.globalSOA.baseFQDN
            g.nsList := by
  have hsafe := lookup_safe g rnd type qdomain b
  obtain ⟨b', g₁, hrun, hg₁, -, h', hG, hready⟩ := hsafe.run Grows.refl Grows.trans hg (Grows.refl g)
  obtain ⟨vs, ht, hc⟩ := run_trace hrun
  obtain ⟨hwf, -, hlast⟩ := Safe.chained Grows.refl Grows.trans ht hsafe hg (Grows.refl g) hc
  obtain ⟨hzone, -⟩ := Accesses.chained (P := KeepsZone) (fun f hf => hf) SameZone.refl SameZone.trans ht
    (keepsZone_of_rules (fun _ => Scope.OfLookup.quiet) (keeps_lookup (fun _ => id) rnd type qdomain b))
    hc
  obtain ⟨soa, ns, hsoa, hns, hauthority⟩ := lookup_authority ht hwf
  refine ⟨b', g₁, hrun, hg₁, GLBBackend.Ready.grows hready hG, ?_⟩
  rw [hauthority g₁ fun s hs => hlast s (List.mem_cons_of_mem g hs)]
  exact authorityAnswer_zone hsoa hns (fun v hv => (hzone v hv).1) b

/-- Authority is claimed for a record only under the base domain, and with the text stored with it. -/
def Confined (soa : SOAContainer) (name : Str) (rr : DNSResourceRecord) : Prop :=
  rr.qtype = QType.SOA ∨ rr.qtype = QType.NS →
    matchesBaseFqdn name soa.baseFQDN = true ∧ (rr.qtype = QType.SOA → rr.content = soa.soaRecord)

theorem confined_of_mem_pending {type : QType} {qdomain : Str} {b b' : GLBBackend} {g g₁ : Globals}
    (hpending : b'.pendingSOA ++ b'.pendingNS g₁
      = authorityAnswer type qdomain (loadedSOA b (lower qdomain) g.globalSOA) g.globalSOA.baseFQDN
          g.nsList)
    (h : type = QType.SOA → matchesBaseFqdn (lower qdomain) g.globalSOA.baseFQDN = true)
    {rr : DNSResourceRecord} (hrr : rr ∈ b'.pending g₁) : Confined g.globalSOA (lower qdomain) rr := by
  intro hqtype
  rw [GLBBackend.pending, hpending] at hrr
  rcases List.mem_append.mp hrr with hrr | hrr
  · rcases mem_authorityAnswer.mp hrr with ⟨hsoa, rfl⟩ | ⟨⟨-, hmatch⟩, n, -, rfl⟩
    · have hmatch := h hsoa
      refine ⟨hmatch, fun _ => ?_⟩
      show loadedSOA b (lower qdomain) g.globalSOA = _
      rw [loadedSOA, if_pos hmatch]
    · exact ⟨hmatch, fun hsoa => absurd (show QType.NS = QType.SOA from hsoa) (by decide)⟩
  · -- an address record is of neither type
    obtain ⟨r, -, rfl⟩ := List.mem_map.mp hrr
    have hfamily : (addressRR b'.d_ourname r).qtype = QType.A ∨
        (addressRR b'.d_ourname r).qtype = QType.AAAA := by
      rw [addressRR]
      split_ifs
      · exact Or.inl rfl
      · exact Or.inr rfl
    rcases hfamily with hf | hf <;> rw [hf] at hqtype <;> exact absurd hqtype (by decide)

/-- Outside the base domain a fresh instance sends an SOA record all the same. -/
theorem not_confined_of_outside {g : Globals} (hg : g.WellFormed) (rnd : Randomness) {type : QType}
    {qdomain : Str} (hsoa : type = QType.SOA)
    (hout : ¬ matchesBaseFqdn (lower qdomain) g.globalSOA.baseFQDN = true) (b : GLBBackend) :
    ∃ b' g₁ as rr, (lookup rnd type qdomain b).run g = some (b', g₁) ∧ Drains g₁ b' as ∧ some rr ∈ as ∧
      ¬ Confined g.globalSOA (lower qdomain) rr := by
  obtain ⟨b', g₁, hrun, hg₁, hready, hpending⟩ := lookup_run hg rnd type qdomain b
  refine ⟨b', g₁, _, soaRR (loadedSOA b (lower qdomain) g.globalSOA) g.globalSOA.baseFQDN, hrun,
    drains_deliver hg₁ hready (b'.pending g₁).length, mem_deliver_length ?_,
    fun hconf => hout (hconf (Or.inl rfl)).1⟩
  rw [GLBBackend.pending, hpending, authorityAnswer, if_pos hsoa]
  simp

/-- **Exactly when authority is confined**: when an SOA query is for a name under the base domain. -/
theorem authority_confined_iff (ord : MapOrder) (rnd : Randomness) {g : Globals} (hg : g.WellFormed)
    (type : QType) (qdomain : Str) :
    (∀ b : GLBBackend, b.Reached ord rnd → ∀ b' g₁,
        (lookup rnd type qdomain b).run g = some (b', g₁) → ∀ as, Drains g₁ b' as →
        ∀ rr, some rr ∈ as → Confined g.globalSOA (lower qdomain) rr) ↔
      (type = QType.SOA → matchesBaseFqdn (lower qdomain) g.globalSOA.baseFQDN = true) := by
  constructor
  · intro hconf hsoa
    by_contra hout
    obtain ⟨b', g₁, as, rr, hrun, has, hrr, hnot⟩ :=
      not_confined_of_outside hg rnd hsoa hout GLBBackend.new
    exact hnot (hconf _ .new b' g₁ hrun as has rr hrr)
  · intro h b _ b' g₁ hrun as has rr hrr
    obtain ⟨b'', g₁', hrun', -, hready, hpending⟩ := lookup_run hg rnd type qdomain b
    obtain ⟨rfl, rfl⟩ := Prod.mk.inj (Option.some.inj (hrun.symm.trans hrun'))
    obtain ⟨n, rfl⟩ := has.eq hready
    exact confined_of_mem_pending hpending h (mem_of_mem_deliver hrr)

theorem authority_confined_iff_soaZone :
    (∀ b : GLBBackend, b.Reached MapOrder.entries Randomness.counting → ∀ b' g₁,
        (lookup Randomness.counting QType.NS "c".toList b).run soaZone = some (b', g₁) →
        ∀ as, Drains g₁ b' as → ∀ rr, some rr ∈ as → Confined soaZone.globalSOA (lower "c".toList) rr) ↔
      (QType.NS = QType.SOA → matchesBaseFqdn (lower "c".toList) soaZone.globalSOA.baseFQDN = true) :=
  authority_confined_iff MapOrder.entries Randomness.counting
    (reachable_soaZone MapOrder.entries Randomness.counting).wellFormed QType.NS "c".toList

/-- **Authority over a foreign name**: while `b` is the base domain, an SOA query for `c` is answered with
an SOA record. -/
theorem authority_not_confined :
    ¬ ∀ b : GLBBackend, b.Reached MapOrder.entries Randomness.counting → ∀ b' g₁,
        (lookup Randomness.counting QType.SOA "c".toList b).run soaZone = some (b', g₁) →
        ∀ as, Drains g₁ b' as → ∀ rr, some rr ∈ as →
          Confined soaZone.globalSOA (lower "c".toList) rr := by
  intro hconf
  have hout : ¬ matchesBaseFqdn (lower "c".toList) soaZone.globalSOA.baseFQDN = true := by decide
  obtain ⟨b', g₁, as, rr, hrun, has, hrr, hnot⟩ := not_confined_of_outside
    (reachable_soaZone MapOrder.entries Randomness.counting).wellFormed Randomness.counting
    (rfl : QType.SOA = QType.SOA) hout GLBBackend.new
  exact hnot (hconf _ .new b' g₁ hrun as has rr hrr)

end GlbBackend
