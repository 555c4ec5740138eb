import GlbBackend.SnapshotReport

/-!
# The format of `SNAPSHOT` entries

An `Entry` is what a controller means: a family, a ttl, an address and an attribute, written with dashes in
between (`Entry.encode`).  Decoding undoes encoding, for one entry and for a whole line
(`snapshot_round_trip`).

The converse direction is looser.  `decodeIP` reads its two numbers with `atoi` and looks at the first four
fields, so it accepts more than the format; `decodeIP_accepts` says exactly what.
-/

namespace GlbBackend

open Text Concurrent Concurrent.Proc Globals

/-! ### Entries -/

inductive Family
  | v4
  | v6

namespace Family

/-- The first field of an entry. -/
def digit : Family → Str
  | v4 => "4".toList
  | v6 => "6".toList

/-- The type of its record. -/
def ipType : Family → ℤ
  | v4 => IPRecordType.IPv4
  | v6 => IPRecordType.IPv6

end Family

/-- A text that can stand in a field: a non-empty word without a dash. -/
structure IsField (s : Str) : Prop where
  ne_nil : s ≠ []
  word : Word s
  dash : '-' ∉ s

/-- What a controller sends about one address. -/
structure Entry where
  family : Family
  ttl : ℤ
  addr : Str
  attr : Str
  ttl_pos : 1 ≤ ttl
  ttl_le : ttl ≤ 2 ^ 31 - 1
  addr_field : IsField addr
  attr_field : IsField attr

namespace Entry

variable (e : Entry)

/-- The fields as they are written. -/
def fields : List Str := [e.family.digit, decimal e.ttl, e.addr, e.attr]

/-- The token. -/
def encode : Str :=
  e.family.digit ++ "-".toList ++ decimal e.ttl ++ "-".toList ++ e.addr ++ "-".toList ++ e.attr

/-- The record it stands for. -/
def record : IPRecord := ⟨e.family.ipType, e.addr, e.ttl⟩

theorem isField_digits {s : Str} (hne : s ≠ []) (hs : ∀ c ∈ s, c.isDigit = true) : IsField s := by
  have hother : ∀ c : Char, c.isDigit = false → c ∉ s := by
    intro c hc hmem
    rw [hs c hmem] at hc
    exact absurd hc.symm Bool.false_ne_true
  refine ⟨hne, fun c hc => ⟨?_, ?_, ?_⟩, hother '-' (by decide)⟩
  · rintro rfl
    exact hother _ (by decide) hc
  · rintro rfl
    exact hother _ (by decide) hc
  · rintro rfl
    exact hother _ (by decide) hc

theorem decimal_ttl : decimal e.ttl = Nat.toDigits 10 e.ttl.natAbs := if_neg (by have := e.ttl_pos; omega)

/-- Every field is one. -/
theorem isField_of_mem {f : Str} (hf : f ∈ e.fields) : IsField f := by
  simp only [fields, List.mem_cons, List.not_mem_nil, or_false] at hf
  rcases hf with rfl | rfl | rfl | rfl
  · cases e.family
    · show IsField ['4']
      exact isField_digits (by simp) (by simp)
    · show IsField ['6']
      exact isField_digits (by simp) (by simp)
  · rw [e.decimal_ttl]
    exact isField_digits Nat.toDigits_ne_nil fun c hc => isDigit_of_mem_toDigits hc
  · exact e.addr_field
  · exact e.attr_field

theorem separated_encode : Separated (fun c => "-".toList.contains c) e.fields e.encode := by
  have hdash : ∀ c ∈ "-".toList, ("-".toList.contains c) = true := fun c hc => List.contains_iff_mem.mpr hc
  have hne : "-".toList ≠ [] := by decide
  have haddr := (Separated.last e.attr).cons (t := e.addr) hne hdash
  have httl := haddr.cons (t := decimal e.ttl) hne hdash
  have hfamily := httl.cons (t := e.family.digit) hne hdash
  rw [encode]
  simp only [List.append_assoc]
  exact hfamily

/-- The token is cut into the fields. -/
theorem splitStr_encode : splitStr e.encode "-".toList = e.fields := by
  refine splitStr_separated e.separated_encode (fun f hf c hc => ?_) (by decide)
    fun f hf => (e.isField_of_mem (List.mem_of_mem_tail hf)).ne_nil
  have hfield := e.isField_of_mem hf
  refine ⟨fun hmem => hfield.dash ?_, (hfield.word c hc).2.2, (hfield.word c hc).2.1⟩
  rwa [show c = '-' by simpa using hmem] at hc

theorem word_encode : Word e.encode := by
  intro c hc
  rcases e.separated_encode.mem hc with ⟨f, hf, hc⟩ | hc
  · exact (e.isField_of_mem hf).word c hc
  · rw [show c = '-' by simpa using hc]
    decide

theorem encode_ne_nil : e.encode ≠ [] := by
  rw [encode]
  cases e.family <;> simp [Family.digit]

/-- **Decoding undoes encoding.** -/
theorem decode_encode : decodeEntry e.encode = some e.record := by
  have hpos := e.ttl_pos
  have hle := e.ttl_le
  have httl : atoi (decimal e.ttl) = e.ttl := atoi_decimal (by omega) (by omega)
  rw [decodeEntry, splitStr_encode, fields]
  simp only [httl]
  rw [if_neg (by omega), record]
  cases e.family <;> rfl

end Entry

/-! ### Lines -/

/-- The line that a controller sends. -/
def snapshotLine (fqdn : Str) (entries : List Entry) : Str :=
  "SNAPSHOT".toList ++ (fqdn :: entries.map Entry.encode).flatMap fun t => ' ' :: t

/-- **The line is cut into its tokens.** -/
theorem splitStr_snapshotLine {fqdn : Str} (hne : fqdn ≠ []) (hword : Word fqdn) (entries : List Entry) :
    splitStr (snapshotLine fqdn entries) " ".toList
      = "SNAPSHOT".toList :: fqdn :: entries.map Entry.encode := by
  have hspace : (" ".toList.contains ' ') = true := by decide
  refine splitStr_separated (separated_flatMap hspace _ _) (fun t ht => ?_) (by decide) fun t ht => ?_
  · have hw : Word t := by
      rcases List.mem_cons.mp ht with rfl | ht
      · simp [Word]
      rcases List.mem_cons.mp ht with rfl | ht
      · exact hword
      · obtain ⟨e, -, rfl⟩ := List.mem_map.mp ht
        exact e.word_encode
    exact fun c hc => ⟨by simpa using (hw c hc).1, (hw c hc).2.2, (hw c hc).2.1⟩
  · rcases List.mem_cons.mp ht with rfl | ht
    · exact hne
    · obtain ⟨e, -, rfl⟩ := List.mem_map.mp ht
      exact e.encode_ne_nil

theorem accepted_encode (e : Entry) : accepted e.encode = some e.record := by
  rw [accepted_eq, e.decode_encode]

theorem filterMap_encode (entries : List Entry) :
    (entries.map Entry.encode).filterMap accepted = entries.map Entry.record := by
  rw [List.filterMap_map, ← List.filterMap_eq_map]
  exact List.filterMap_congr fun e _ => accepted_encode e

/-- **Decoding undoes encoding for `SNAPSHOT` lines.**  In every reachable state, for every mapped name and
every list of entries, the line is dispatched to the handler and answered `PASSED`, and the records it stores,
behind those the domain has, are those of the entries, in order. -/
theorem snapshot_round_trip (ord : MapOrder) (rnd : Randomness) {g : Globals} (hg : g.Reachable ord rnd)
    {fqdn : Str} {p : Ptr} (hf : g.find fqdn = some p) (entries : List Entry) :
    dispatch ord (snapshotLine fqdn entries) = snapshotDomain (snapshotLine fqdn entries) ∧
    ∃ (jb : ServerJsonBuilder) (g' : Globals) (c : GlbContainer),
      (snapshotDomain (snapshotLine fqdn entries)).run g = some ([jb.toJson], g') ∧
      jb.status = "PASSED".toList ∧ jb.hasStatus = true ∧ g.container p = some c ∧
      g'.container p = some { c with ips := c.ips ++ entries.map Entry.record } ∧
      (c.ips = [] → (g'.container p).map GlbContainer.ips = some (entries.map Entry.record)) := by
  obtain ⟨c, hc, rfl⟩ := hg.wellFormed.mapped fqdn p hf
  have hvalid := hg.wellFormed.valid p c hc
  have htok := splitStr_snapshotLine hvalid.cname_ne hvalid.cname_word entries
  have hreport := reportsEntries c.cname (entries.map Entry.encode)
  have hstored : (g.update p (·.setIPs ((entries.map Entry.encode).filterMap accepted))).container p
      = some { c with ips := c.ips ++ entries.map Entry.record } := by
    rw [container_update, if_pos rfl, hc, Option.map_some, GlbContainer.setIPs_eq, filterMap_encode]
  have hpassed : ∀ t ∈ entries.map Entry.encode, (accepted t).isSome = true := by
    intro t ht
    obtain ⟨e, -, rfl⟩ := List.mem_map.mp ht
    rw [accepted_encode]
    rfl
  refine ⟨dispatch_snapshot ord htok, _, _, c, run_snapshot_mapped htok hf, ?_, hreport.hasStatus, hc,
    hstored, fun hips => ?_⟩
  · rw [hreport.status, if_pos hpassed]
  · rw [hstored, Option.map_some, hips, List.nil_append]

/-- The entries that the test client sends for one address of each family. -/
def testEntries : List Entry :=
  [⟨.v4, 30, "10.0.0.1".toList, "1".toList, by decide, by decide, ⟨by decide, by simp [Word], by decide⟩,
      ⟨by decide, by simp [Word], by decide⟩⟩,
    ⟨.v6, 30, "fd00::1".toList, "1".toList, by decide, by decide, ⟨by decide, by simp [Word], by decide⟩,
      ⟨by decide, by simp [Word], by decide⟩⟩]

example : snapshotLine "a".toList testEntries = "SNAPSHOT a 4-30-10.0.0.1-1 6-30-fd00::1-1".toList := by
  decide

theorem snapshot_round_trip_testEntries :
    ∃ (g g' : Globals) (jb : ServerJsonBuilder),
      (snapshotDomain (snapshotLine "a".toList testEntries)).run g = some ([jb.toJson], g') ∧
        jb.status = "PASSED".toList := by
  obtain ⟨g, hg, hfind⟩ := exists_reachable_domain
  obtain ⟨-, jb, g', -, hrun, hpassed, -⟩ :=
    snapshot_round_trip MapOrder.entries Randomness.counting hg hfind testEntries
  exact ⟨g, g', jb, hrun, hpassed⟩

/-! ### What the decoder accepts -/

/-- A plain numeral in the range of an `int`. -/
def IsNumeral (s : Str) : Prop := s ≠ [] ∧ (∀ c ∈ s, c.isDigit = true) ∧ digitsValue s < 2 ^ 31

theorem IsNumeral.atoi {s : Str} (hs : IsNumeral s) : Text.atoi s = digitsValue s :=
  atoi_digits hs.1 hs.2.1 hs.2.2

/-- The fields after the fourth do not matter. -/
theorem decodeIP_congr {s s' ipt ttl addr attr : Str} {rest rest' : List Str}
    (hs : splitStr s "-".toList = ipt :: ttl :: addr :: attr :: rest)
    (hs' : splitStr s' "-".toList = ipt :: ttl :: addr :: attr :: rest') (v : IpVars) :
    decodeIP s v = decodeIP s' v := by
  have hlen : ∀ fs : List Str, ¬ (ipt :: ttl :: addr :: attr :: fs).length < 4 := fun fs => by
    simp only [List.length_cons]
    omega
  rw [decodeIP, decodeIP, hs, hs']
  simp only [if_neg (hlen _), List.getElem?_cons_zero, List.getElem?_cons_succ]

/-- The fields of an accepted token, and what was made of them. -/
theorem fields_of_decodeIP {s : Str} {v v' : IpVars} (h : decodeIP s v = some (true, v')) :
    ∃ ipt ttl rest, splitStr s "-".toList = ipt :: ttl :: v'.ipAddr :: v'.ipAttr :: rest ∧
      (atoi ipt = 4 ∧ v'.ipType = IPRecordType.IPv4 ∨ atoi ipt = 6 ∧ v'.ipType = IPRecordType.IPv6) ∧
      atoi ttl = v'.ipTTL ∧ 0 < v'.ipTTL := by
  have hfalse : ∀ w : IpVars, ¬ (some (false, w) : Option (Bool × IpVars)) = some (true, v') := fun w h =>
    Bool.false_ne_true (congrArg Prod.fst (Option.some.inj h))
  rw [decodeIP] at h
  generalize splitStr s "-".toList = fs at h ⊢
  rcases fs with _ | ⟨ipt, _ | ⟨ttl, _ | ⟨addr, _ | ⟨attr, rest⟩⟩⟩⟩
  · exact absurd h (hfalse _)
  · exact absurd h (hfalse _)
  · exact absurd h (hfalse _)
  · exact absurd h (hfalse _)
  · have hlen : ¬ (ipt :: ttl :: addr :: attr :: rest).length < 4 := by
      simp only [List.length_cons]
      omega
    simp only [if_neg hlen, List.getElem?_cons_zero, List.getElem?_cons_succ, Option.bind_eq_bind,
      Option.bind_some] at h
    split_ifs at h with httl h4 h6
    · exact absurd h (hfalse _)
    · obtain ⟨-, rfl⟩ := Prod.mk.inj (Option.some.inj h)
      exact ⟨ipt, ttl, rest, rfl, Or.inl ⟨h4, rfl⟩, rfl, not_le.mp httl⟩
    · obtain ⟨-, rfl⟩ := Prod.mk.inj (Option.some.inj h)
      exact ⟨ipt, ttl, rest, rfl, Or.inr ⟨h6, rfl⟩, rfl, not_le.mp httl⟩
    · exact absurd h (hfalse _)

/-- **What `decodeIP` accepts.**  There are four fields at least, and those after the fourth do not matter;
`atoi` reads the first as 4 or as 6, which says the family, and the second as the ttl, which lies between 1
and 2^31 - 1; the third and the fourth are the address and the attribute.  Of plain numerals `atoi` reads what
they denote. -/
theorem decodeIP_accepts {s : Str} {v v' : IpVars} (h : decodeIP s v = some (true, v')) :
    ∃ ipt ttl rest, splitStr s "-".toList = ipt :: ttl :: v'.ipAddr :: v'.ipAttr :: rest ∧
      (atoi ipt = 4 ∧ v'.ipType = IPRecordType.IPv4 ∨ atoi ipt = 6 ∧ v'.ipType = IPRecordType.IPv6) ∧
      atoi ttl = v'.ipTTL ∧ 1 ≤ v'.ipTTL ∧ v'.ipTTL ≤ 2 ^ 31 - 1 ∧
      (IsNumeral ipt → digitsValue ipt = 4 ∧ v'.ipType = IPRecordType.IPv4 ∨
        digitsValue ipt = 6 ∧ v'.ipType = IPRecordType.IPv6) ∧
      (IsNumeral ttl → (digitsValue ttl : ℤ) = v'.ipTTL) ∧
      ∀ s' rest', splitStr s' "-".toList = ipt :: ttl :: v'.ipAddr :: v'.ipAttr :: rest' →
        decodeIP s' v = some (true, v') := by
  obtain ⟨ipt, ttl, rest, hsplit, hfamily, httl, hpos⟩ := fields_of_decodeIP h
  have hbound := (atoi_bounds ttl).2
  refine ⟨ipt, ttl, rest, hsplit, hfamily, httl, by omega, by omega, fun hnum => ?_, fun hnum => ?_,
    fun s' rest' hs' => ?_⟩
  · have hvalue := hnum.atoi
    rcases hfamily with ⟨h4, htype⟩ | ⟨h6, htype⟩
    · exact Or.inl ⟨by omega, htype⟩
    · exact Or.inr ⟨by omega, htype⟩
  · rw [← hnum.atoi, httl]
  · rw [decodeIP_congr hs' hsplit, h]

/-- A token that is no entry: junk behind the family, a ttl beyond the range, a fifth field. -/
def looseToken : Str := "4x-4294967297-a-b-c".toList

theorem decodeIP_accepts_looseToken :
    ∃ v', decodeIP looseToken IpVars.init = some (true, v') ∧ 1 ≤ v'.ipTTL ∧ v'.ipTTL ≤ 2 ^ 31 - 1 := by
  have h : decodeIP looseToken IpVars.init
      = some (true, ⟨[], IPRecordType.IPv4, 1, "a".toList, "b".toList⟩) := rfl
  obtain ⟨_, _, _, -, -, -, hpos, hle, -⟩ := decodeIP_accepts h
  exact ⟨_, h, hpos, hle⟩

/-- **`decodeIP` accepts tokens outside the format.** -/
theorem decodeIP_loose :
    ¬ ∀ (s : Str) (v v' : IpVars), decodeIP s v = some (true, v') →
      ∃ ipt ttl, splitStr s "-".toList = [ipt, ttl, v'.ipAddr, v'.ipAttr] ∧
        (ipt = "4".toList ∧ v'.ipType = IPRecordType.IPv4 ∨ ipt = "6".toList ∧ v'.ipType = IPRecordType.IPv6) ∧
        (∀ c ∈ ttl, c.isDigit = true) ∧ (digitsValue ttl : ℤ) = v'.ipTTL ∧ 1 ≤ v'.ipTTL ∧
        v'.ipTTL ≤ 2 ^ 31 - 1 := by
  intro h
  obtain ⟨ipt, ttl, hsplit, -⟩ := h looseToken IpVars.init
    ⟨[], IPRecordType.IPv4, 1, "a".toList, "b".toList⟩ rfl
  have hfields : splitStr looseToken "-".toList
      = ["4x".toList, "4294967297".toList, "a".toList, "b".toList, "c".toList] := rfl
  rw [hfields] at hsplit
  exact absurd (congrArg List.length hsplit) (by simp)

end GlbBackend
