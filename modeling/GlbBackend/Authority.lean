import GlbBackend.LetterCase

/-!
# Authority records are served as they were sent

What a `SET_SOA` or a `SET_NS` line says goes a long way before it is served: `splitStr` cuts the line into
tokens, `setSOA` joins the fields of the record again from an offset and `setNS` collects the arguments,
both publish what they have, and a lookup below the base domain lets `get` emit it.  `authority_served`
goes the whole way, from the tokens on the lines to the records emitted.
-/

namespace GlbBackend

open Text Concurrent Concurrent.Proc Globals

/-! ### Lines as they are sent -/

/-- The line, its line breaks apart, is these tokens with any runs of spaces between them. -/
structure Spelled (line : Str) (tokens : List Str) : Prop where
  spaced : Separated (fun c => " ".toList.contains c) tokens ((line.filter (· ≠ '\n')).filter (· ≠ '\r'))
  ne_nil : ∀ t ∈ tokens, t ≠ []
  space_free : ∀ t ∈ tokens, ' ' ∉ t

/-- The tokens are found again. -/
theorem Spelled.splitStr {line : Str} {tokens : List Str} (h : Spelled line tokens) :
    GlbBackend.splitStr line " ".toList = tokens := by
  refine h.spaced.split (fun t ht c hc => ?_) fun t ht => h.ne_nil t (List.mem_of_mem_tail ht)
  rw [← Bool.not_eq_true, List.contains_iff_mem]
  intro hspace
  rw [show c = ' ' by simpa using hspace] at hc
  exact h.space_free t ht hc

/-- Every line with tokens and without empty ones is. -/
theorem Spelled.of_splitStr {line : Str} {tokens : List Str}
    (h : GlbBackend.splitStr line " ".toList = tokens) (hne : ∀ t ∈ tokens, t ≠ []) :
    Spelled line tokens := by
  subst h
  refine ⟨separated_split _ _, hne, fun t ht hspace => ?_⟩
  exact (word_of_mem_splitStr ht ' ' hspace).1 rfl

/-- Among the requests the line is the last of its kind. -/
def LastSent (kind : Str → Bool) (rs : List (Request × Reply)) (line : Str) : Prop :=
  ∃ before after out, rs = before ++ (.command line, out) :: after ∧
    ∀ r ∈ after, ∀ line', r.1 = .command line' → kind line' = false

/-- What only lines of the kind change is as the last of them left it. -/
theorem LastSent.read {kind : Str → Bool} {rs : List (Request × Reply)} {line : Str}
    (h : LastSent kind rs line) {β : Type} (read : Zone → β)
    (hkind : ∀ line', kind line' = false → ∀ z : Zone, read (z.run line') = read z) (z : Zone) :
    ∃ z' : Zone, read ((rs.map Prod.fst).foldl Zone.serve z) = read (z'.run line) := by
  obtain ⟨before, after, out, rfl, hafter⟩ := h
  refine ⟨(before.map Prod.fst).foldl Zone.serve z, ?_⟩
  have hnot : ∀ line', Request.command line' ∈ after.map Prod.fst → kind line' = false := by
    intro line' hline
    obtain ⟨r, hr, heq⟩ := List.mem_map.mp hline
    exact hafter r hr line' heq
  rw [List.map_append, List.foldl_append, List.map_cons, List.foldl_cons,
    foldl_serve_unchanged read fun line' hline => hkind line' (hnot line' hline)]
  rfl

/-! ### What is published -/

section Published

variable {ord : MapOrder} {rnd : Randomness} {g₀ g : Globals} {rs : List (Request × Reply)} {line b : Str}
  {s n : List Str}

/-- The container is that of the last `SET_SOA`: the fields are joined from the third token on. -/
theorem globalSOA_of_sent (hg : g₀.WellFormed) (hrun : Served ord rnd g₀ rs g)
    (hlast : LastSent isSetSOA rs line) (hline : Spelled line ("SET_SOA".toList :: b :: s)) (hs : s ≠ []) :
    g.globalSOA = ⟨joinStr s " ".toList, b⟩ := by
  have hkind : isSetSOA line = true := by
    obtain ⟨field, fields, rfl⟩ := List.exists_cons_of_ne_nil hs
    rw [isSetSOA, hline.splitStr, cmdMatch]
    simp
  obtain ⟨z, hread⟩ := hlast.read Zone.soa
    (fun line' hnot z => by rw [Zone.run_soa, hnot, if_neg Bool.false_ne_true]) g₀.zone
  show g.zone.soa = _
  rw [(hrun.zone hg).2, hread, Zone.run_soa, if_pos hkind, hline.splitStr]
  rfl

/-- The NS list is that of the last `SET_NS`: its arguments, in order. -/
theorem nsList_of_sent (hg : g₀.WellFormed) (hrun : Served ord rnd g₀ rs g)
    (hlast : LastSent isSetNS rs line) (hline : Spelled line ("SET_NS".toList :: n)) (hn : n ≠ []) :
    g.nsList = n := by
  have hkind : isSetNS line = true := by
    obtain ⟨arg, args, rfl⟩ := List.exists_cons_of_ne_nil hn
    rw [isSetNS, hline.splitStr, cmdMatch]
    simp
  obtain ⟨z, hread⟩ := hlast.read Zone.ns
    (fun line' hnot z => by rw [Zone.run_ns, hnot, if_neg Bool.false_ne_true]) g₀.zone
  show g.zone.ns = _
  rw [(hrun.zone hg).2, hread, Zone.run_ns, if_pos hkind, hline.splitStr]
  rfl

end Published

/-! ### What is served -/

/-- An SOA query below the base domain delivers the one record, whatever the instance held before. -/
theorem soa_query_run {g : Globals} (hg : g.WellFormed) (rnd : Randomness) {q : Str}
    (hmatch : matchesBaseFqdn (lower q) g.globalSOA.baseFQDN = true) (m : ℕ) (rr : DNSResourceRecord)
    (bk : GLBBackend) :
    ∃ g', (query rnd QType.SOA q m rr bk).run g
      = some (deliver m [soaRR g.globalSOA.soaRecord g.globalSOA.baseFQDN], g') := by
  obtain ⟨g', hrun⟩ := query_run hg rnd QType.SOA q m rr bk fun h => absurd h (by decide)
  refine ⟨g', ?_⟩
  have haddresses : ¬ AsksAddresses QType.SOA := by decide
  have hns : ¬ AsksNS QType.SOA := by decide
  rw [hrun, Observation.answer, authorityAnswer, addressAnswer, if_neg haddresses, if_pos rfl,
    if_neg fun h => hns h.1, loadedSOA, if_pos hmatch, List.append_nil, List.append_nil]
  rfl

/-- **`SET_SOA` and `SET_NS` are served as sent.**  After a run from a reachable state in which the last
`SET_SOA` line says `b s₁ … sₙ` and the last `SET_NS` line `n₁ … nₖ`, a query of type SOA for a name that
is, in lower case, `b` or below `b` (so `b` has no upper-case letter) gets exactly one record, with content
`s₁ … sₙ` and owner `b`; one of type NS gets exactly the NS records `n₁ … nₖ`, in order. -/
theorem authority_served (ord : MapOrder) (rnd : Randomness) {g₀ g : Globals} (hg₀ : g₀.Reachable ord rnd)
    {rs : List (Request × Reply)} (hrun : Served ord rnd g₀ rs g) {soaLine nsLine b : Str} {s n : List Str}
    (hs : s ≠ []) (hn : n ≠ []) (hsoa : Spelled soaLine ("SET_SOA".toList :: b :: s))
    (hns : Spelled nsLine ("SET_NS".toList :: n)) (hlastSOA : LastSent isSetSOA rs soaLine)
    (hlastNS : LastSent isSetNS rs nsLine) {q : Str} (hq : lower q = b ∨ ('.' :: b) <:+ lower q)
    (bk : GLBBackend) (m : ℕ) (rr : DNSResourceRecord) :
    (∃ g', (query rnd QType.SOA q m rr bk).run g
      = some (deliver m [soaRR (List.intercalate " ".toList s) b], g')) ∧
    ∃ g', (query rnd QType.NS q m rr bk).run g = some (deliver m (n.map (nsRR b)), g') := by
  have hg := (hrun.zone hg₀.wellFormed).1
  have hcontainer := globalSOA_of_sent hg₀.wellFormed hrun hlastSOA hsoa hs
  have hlist := nsList_of_sent hg₀.wellFormed hrun hlastNS hns hn
  have hbase : g.globalSOA.baseFQDN = b := by rw [hcontainer]
  have hmatch : matchesBaseFqdn (lower q) b = true := matchesBaseFqdn_iff.mpr hq.symm
  constructor
  · obtain ⟨g', hquery⟩ := soa_query_run hg rnd (by rw [hbase]; exact hmatch) m rr bk
    rw [hcontainer] at hquery
    exact ⟨g', hquery⟩
  · obtain ⟨g', hquery⟩ := ns_query_run hg rnd hbase q m rr bk
    rw [if_pos hmatch, hlist] at hquery
    exact ⟨g', hquery⟩

/-! #### A base domain with two name servers -/

/-- The base domain is set, then its name servers, and a domain below it is added. -/
def twoServers (out₁ out₂ out₃ : Reply) : List (Request × Reply) :=
  [(.command "SET_SOA  b ns1.b  42".toList, out₁), (.command "SET_NS n1   n2".toList, out₂),
    (.command "ADD_DOMAIN a.b NONE".toList, out₃)]

theorem served_twoServers : ∃ out₁ out₂ out₃ g,
    Served MapOrder.entries Randomness.counting (init 0) (twoServers out₁ out₂ out₃) g :=
  ⟨_, _, _, _, Served.cons rfl (Served.cons rfl (Served.cons rfl (Served.nil _)))⟩

theorem authority_served_twoServers :
    ∃ rs g, Served MapOrder.entries Randomness.counting (init 0) rs g ∧
      (∃ g', (query Randomness.counting QType.SOA "A.b".toList 2 ⟨[], 0, [], 0, false, 0⟩ .new).run g
        = some (deliver 2 [soaRR "ns1.b 42".toList "b".toList], g')) ∧
      ∃ g', (query Randomness.counting QType.NS "A.b".toList 2 ⟨[], 0, [], 0, false, 0⟩ .new).run g
        = some (deliver 2 [nsRR "b".toList "n1".toList, nsRR "b".toList "n2".toList], g') := by
  obtain ⟨out₁, out₂, out₃, g, hrun⟩ := served_twoServers
  have hsoa : Spelled "SET_SOA  b ns1.b  42".toList
      ["SET_SOA".toList, "b".toList, "ns1.b".toList, "42".toList] := Spelled.of_splitStr rfl (by decide)
  have hns : Spelled "SET_NS n1   n2".toList ["SET_NS".toList, "n1".toList, "n2".toList] :=
    Spelled.of_splitStr rfl (by decide)
  have hother : ∀ {kind : Str → Bool} {line : Str} {out : Reply}, kind line = false →
      ∀ line', (Request.command line, out).1 = .command line' → kind line' = false := by
    intro kind line out hline line' heq
    injection heq with heq
    rw [← heq, hline]
  have hnsLine : isSetSOA "SET_NS n1   n2".toList = false := rfl
  have haddLine : isSetSOA "ADD_DOMAIN a.b NONE".toList = false := rfl
  have haddLine' : isSetNS "ADD_DOMAIN a.b NONE".toList = false := rfl
  have hlastSOA : LastSent isSetSOA (twoServers out₁ out₂ out₃) "SET_SOA  b ns1.b  42".toList :=
    ⟨[], _, out₁, rfl,
      List.forall_mem_cons.mpr ⟨hother hnsLine, List.forall_mem_singleton.mpr (hother haddLine)⟩⟩
  have hlastNS : LastSent isSetNS (twoServers out₁ out₂ out₃) "SET_NS n1   n2".toList :=
    ⟨[_], _, out₂, rfl, List.forall_mem_singleton.mpr (hother haddLine')⟩
  exact ⟨_, g, hrun, authority_served MapOrder.entries Randomness.counting (reachable_init _ _ 0) hrun
    (List.cons_ne_nil _ _) (List.cons_ne_nil _ _) hsoa hns hlastSOA hlastNS (Or.inr (by decide)) .new 2 _⟩

end GlbBackend
