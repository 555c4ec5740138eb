import GlbBackend.CommandServer

/-!
# Tokens and snapshot entries

What the tokeniser guarantees about the strings the handlers store (`mem_splitStr`,
`splitStr_inner_ne_nil`), and what the entry tokens of a `SNAPSHOT` line mean: `decodeEntry` is the record
a token stands for, if any, and `entryError` the complaint about it otherwise.  The decoder of the source
fills six variables that its caller reuses from token to token; `decodeIPs_eq` says that nothing of one
token ever reaches another.
-/

namespace GlbBackend

open Text

/-! ### Tokens -/

/-- The characters of a token occur in the text, and are no line breaks and no delimiters. -/
theorem mem_splitStr {strIn delim t : Str} (ht : t ∈ splitStr strIn delim) {c : Char} (hc : c ∈ t) :
    c ∈ strIn ∧ c ≠ '\n' ∧ c ≠ '\r' ∧ c ∉ delim := by
  obtain ⟨h1, h2⟩ := mem_of_mem_split ht hc
  rw [List.mem_filter, List.mem_filter] at h1
  simp only [ne_eq, decide_not, Bool.not_eq_eq_eq_not, Bool.not_true, decide_eq_false_iff_not] at h1
  refine ⟨h1.1.1, h1.1.2, h1.2, fun hd => ?_⟩
  rw [List.contains_iff_mem.mpr hd] at h2
  exact absurd h2 (by decide)

/-- A token with neighbours on both sides is not empty. -/
theorem splitStr_inner_ne_nil {strIn delim a t : Str} {ts : List Str}
    (h : splitStr strIn delim = a :: t :: ts) (hts : ts ≠ []) : t ≠ [] := by
  apply split_inner_ne_nil _ _ t
  have hs : split (fun c => delim.contains c) ((strIn.filter (· ≠ '\n')).filter (· ≠ '\r'))
      = a :: t :: ts := h
  rw [hs, List.tail_cons, List.dropLast_cons_of_ne_nil hts]
  exact List.mem_cons_self

theorem splitStr_second_inner_ne_nil {strIn delim a b t : Str} {ts : List Str}
    (h : splitStr strIn delim = a :: b :: t :: ts) (hts : ts ≠ []) : t ≠ [] := by
  apply split_inner_ne_nil _ _ t
  have hs : split (fun c => delim.contains c) ((strIn.filter (· ≠ '\n')).filter (· ≠ '\r'))
      = a :: b :: t :: ts := h
  rw [hs, List.tail_cons, List.dropLast_cons_of_ne_nil (List.cons_ne_nil t ts),
    List.dropLast_cons_of_ne_nil hts]
  exact List.mem_cons_of_mem b List.mem_cons_self

theorem splitStr_ne_nil (strIn delim : Str) : splitStr strIn delim ≠ [] :=
  split_ne_nil _ _

/-- A text made of tokens without delimiters and line breaks is cut into these tokens. -/
theorem splitStr_separated {ts : List Str} {s delim : Str}
    (h : Separated (fun c => delim.contains c) ts s)
    (hts : ∀ t ∈ ts, ∀ c ∈ t, c ∉ delim ∧ c ≠ '\n' ∧ c ≠ '\r') (hdelim : '\n' ∉ delim ∧ '\r' ∉ delim)
    (hinner : ∀ t ∈ ts.tail, t ≠ []) : splitStr s delim = ts := by
  have hclean : ∀ c ∈ s, c ≠ '\n' ∧ c ≠ '\r' := by
    intro c hc
    rcases h.mem hc with ⟨t, ht, hc⟩ | hc
    · exact (hts t ht c hc).2
    · have hmem : c ∈ delim := List.contains_iff_mem.mp hc
      exact ⟨fun heq => hdelim.1 (heq ▸ hmem), fun heq => hdelim.2 (heq ▸ hmem)⟩
  have hfilter : (s.filter (· ≠ '\n')).filter (· ≠ '\r') = s := by
    rw [List.filter_filter, List.filter_eq_self]
    intro c hc
    simp [hclean c hc]
  have hfree : ∀ t ∈ ts, ∀ c ∈ t, delim.contains c = false := fun t ht c hc =>
    Bool.eq_false_iff.mpr fun hmem => (hts t ht c hc).1 (List.contains_iff_mem.mp hmem)
  show Text.split (fun c => delim.contains c) ((s.filter (· ≠ '\n')).filter (· ≠ '\r')) = ts
  rw [hfilter]
  exact h.split hfree hinner

/-- No space and no line break. -/
def Word (s : Str) : Prop := ∀ c ∈ s, c ≠ ' ' ∧ c ≠ '\r' ∧ c ≠ '\n'

theorem Word.newline_not_mem {s : Str} (h : Word s) : '\n' ∉ s := fun hn => (h _ hn).2.2 rfl

/-- The tokens of a command line are words. -/
theorem word_of_mem_splitStr {line t : Str} (ht : t ∈ splitStr line " ".toList) : Word t := by
  intro c hc
  obtain ⟨-, h1, h2, h3⟩ := mem_splitStr ht hc
  exact ⟨fun h => h3 (by rw [h]; decide), h2, h1⟩

/-! ### The meaning of an entry token -/

/-- The record a token of a `SNAPSHOT` line stands for. -/
def decodeEntry (token : Str) : Option IPRecord :=
  match splitStr token "-".toList with
  | ipt :: ttl :: addr :: _ :: _ =>
      if atoi ttl ≤ 0 then none
      else if atoi ipt = 4 then some ⟨IPRecordType.IPv4, addr, atoi ttl⟩
      else if atoi ipt = 6 then some ⟨IPRecordType.IPv6, addr, atoi ttl⟩
      else none
  | _ => none

/-- What is wrong with a token that stands for none. -/
def entryError (token : Str) : Str :=
  match splitStr token "-".toList with
  | _ :: ttl :: _ :: _ :: _ =>
      if atoi ttl ≤ 0 then "-ttl_less_than_0".toList else "-Unknown_ipType".toList
  | _ => "-epected4Vals".toList

/-- **`decodeIP` reports the meaning of its token** and, on success, leaves it in the variables; it never
reads past the fields. -/
theorem decodeIP_spec (token : Str) (v : IpVars) :
    ∃ v', decodeIP token v = some ((decodeEntry token).isSome, v') ∧
      (∀ r, decodeEntry token = some r → r = ⟨v'.ipType, v'.ipAddr, v'.ipTTL⟩) ∧
      (decodeEntry token = none → v'.errorMsg = entryError token) := by
  rw [decodeIP, decodeEntry, entryError]
  rcases splitStr token "-".toList with _ | ⟨ipt, _ | ⟨ttl, _ | ⟨addr, _ | ⟨attr, rest⟩⟩⟩⟩
  · exact ⟨_, rfl, by simp, fun _ => rfl⟩
  · exact ⟨_, rfl, by simp, fun _ => rfl⟩
  · exact ⟨_, rfl, by simp, fun _ => rfl⟩
  · exact ⟨_, rfl, by simp, fun _ => rfl⟩
  · have hlen : ¬ (ipt :: ttl :: addr :: attr :: rest).length < 4 := by
      simp only [List.length_cons]
      omega
    simp only [if_neg hlen, List.getElem?_cons_zero, List.getElem?_cons_succ, Option.bind_eq_bind,
      Option.bind_some]
    split_ifs
    · exact ⟨_, rfl, by simp, fun _ => rfl⟩
    · exact ⟨_, rfl, fun r hr => (Option.some.inj hr).symm, by simp⟩
    · exact ⟨_, rfl, fun r hr => (Option.some.inj hr).symm, by simp⟩
    · exact ⟨_, rfl, by simp, fun _ => rfl⟩

/-- The reply's element for one token. -/
def reportEntry (jb : ServerJsonBuilder) (token : Str) : ServerJsonBuilder :=
  jb.addIp token (if (decodeEntry token).isSome then [] else entryError token)

/-- The element of the reply's `ips` that reports a token. -/
def entryReport (token : Str) : IpJson :=
  let error := if (decodeEntry token).isSome then [] else entryError token
  if error = [] then ⟨false, [], token⟩ else ⟨true, error, token⟩

/-- Every token is reported, in order. -/
theorem foldl_reportEntry (tokens : List Str) (jb : ServerJsonBuilder) :
    tokens.foldl reportEntry jb
      = { jb with ips := jb.ips ++ tokens.map entryReport, hasIps := jb.hasIps || !tokens.isEmpty } := by
  induction tokens generalizing jb with
  | nil => simp
  | cons t ts ih =>
      rw [List.foldl_cons, ih]
      simp [reportEntry, ServerJsonBuilder.addIp, entryReport]

/-- **The loop of `snapshotDomain`** keeps the records of the tokens that stand for one, in order, and
reports every token, whatever the variables hold when it starts. -/
theorem decodeIPs_eq (tokens : List Str) (v : IpVars) (ips : List IPRecord) (jb : ServerJsonBuilder)
    (ok : Bool) :
    decodeIPs tokens v ips jb ok
      = some (ips ++ tokens.filterMap decodeEntry, tokens.foldl reportEntry jb,
          ok && tokens.all fun t => (decodeEntry t).isSome) := by
  induction tokens generalizing v ips jb ok with
  | nil => simp [decodeIPs]
  | cons t ts ih =>
      obtain ⟨v', hv, hsome, hnone⟩ := decodeIP_spec t v
      rw [decodeIPs, hv, Option.bind_some]
      cases hd : decodeEntry t with
      | none =>
          simp only [Option.isSome_none, Bool.false_eq_true, if_false]
          rw [ih, hnone hd]
          simp [reportEntry, hd]
      | some r =>
          simp only [Option.isSome_some, if_true]
          rw [ih, ← hsome r hd]
          simp [reportEntry, hd]

/-- A stored record: an IPv4 or IPv6 address with a positive ttl, the address a non-empty word without
the field separator. -/
structure IPRecord.Valid (r : IPRecord) : Prop where
  family : r.ipType = IPRecordType.IPv4 ∨ r.ipType = IPRecordType.IPv6
  ttl_pos : 0 < r.ttl
  address_ne : r.ipAddress ≠ []
  address_word : Word r.ipAddress
  address_dash : '-' ∉ r.ipAddress

/-- A word stands for a valid record or for none. -/
theorem decodeEntry_valid {token : Str} (ht : Word token) {r : IPRecord}
    (hr : decodeEntry token = some r) : r.Valid := by
  rw [decodeEntry] at hr
  split at hr
  case h_2 => simp at hr
  case h_1 ipt ttl addr attr rest hsplit =>
    have haddr : addr ∈ splitStr token "-".toList := by
      rw [hsplit]
      simp
    have hword : Word addr := fun c hc => ht c (mem_splitStr haddr hc).1
    have hdash : '-' ∉ addr := fun hc => (mem_splitStr haddr hc).2.2.2 (by decide)
    have hne : addr ≠ [] := splitStr_second_inner_ne_nil hsplit (List.cons_ne_nil attr rest)
    split_ifs at hr with h1 h2 h3
    · rw [← Option.some.inj hr]
      exact ⟨Or.inl rfl, by show 0 < atoi ttl; omega, hne, hword, hdash⟩
    · rw [← Option.some.inj hr]
      exact ⟨Or.inr rfl, by show 0 < atoi ttl; omega, hne, hword, hdash⟩

/-- The records of the entry tokens of a line are valid. -/
theorem entries_valid {line : Str} {n : ℕ} :
    ∀ r ∈ ((splitStr line " ".toList).drop n).filterMap decodeEntry, r.Valid := by
  intro r hr
  obtain ⟨t, ht, htr⟩ := List.mem_filterMap.mp hr
  exact decodeEntry_valid (word_of_mem_splitStr (List.mem_of_mem_drop ht)) htr

end GlbBackend
