import GlbBackend.Text.Tokens

/-!
# Fields of bounded length

A scanner that keeps the characters of a field in a buffer of `limit` characters closes the field at a separator, and
also when the buffer is full; the character that finds it full is lost (`feed`).  Empty fields are dropped.

* `chunks` — the pieces such a scanner cuts one field into.
* `fields` — the pieces of all fields of a text; the scanner finds exactly these (`foldl_feed`).
* Fields joined with a separator come apart again exactly if the scanner takes each of them whole
  (`fields_intercalate_iff`).
-/

namespace Text

/-- One character more: the fields closed so far, and the one that is open. -/
def feed (sep : Char → Bool) (limit : ℕ) (s : List Str × Str) (c : Char) : List Str × Str :=
  if sep c = true ∨ limit ≤ s.2.length then
    if s.2 = [] then s else (s.1 ++ [s.2], [])
  else (s.1, s.2 ++ [c])

/-- Pieces of `limit` characters, with one character lost behind each of them. -/
def chunks (limit : ℕ) (t : Str) : List Str :=
  if h : t = [] then [] else t.take limit :: chunks limit (t.drop (limit + 1))
termination_by t.length
decreasing_by
  have := List.length_pos_iff.mpr h
  rw [List.length_drop]
  omega

/-- The pieces of the fields of a text. -/
noncomputable def fields (sep : Char → Bool) (limit : ℕ) (s : Str) : List Str :=
  (s.splitOnP sep).flatMap (chunks limit)

/-- A field that a scanner takes whole. -/
structure Whole (sep : Char → Bool) (limit : ℕ) (t : Str) : Prop where
  ne_nil : t ≠ []
  le : t.length ≤ limit
  free : ∀ c ∈ t, sep c = false

variable {sep : Char → Bool} {limit : ℕ}

@[simp] theorem chunks_nil : chunks limit [] = [] := by
  rw [chunks, dif_pos rfl]

theorem chunks_of_ne_nil {t : Str} (ht : t ≠ []) :
    chunks limit t = t.take limit :: chunks limit (t.drop (limit + 1)) := by
  rw [chunks, dif_neg ht]

/-- What fits is one piece. -/
theorem chunks_of_le {t : Str} (ht : t ≠ []) (hle : t.length ≤ limit) : chunks limit t = [t] := by
  rw [chunks_of_ne_nil ht, List.take_of_length_le hle, List.drop_eq_nil_of_le (by omega), chunks_nil]

/-- A full piece, the lost character, and the pieces of the rest. -/
theorem chunks_full {t : Str} (hlen : t.length = limit) (c : Char) (rest : Str) :
    chunks limit (t ++ c :: rest) = t :: chunks limit rest := by
  have hdrop : (t ++ c :: rest).drop (limit + 1) = rest := by
    rw [← hlen, List.drop_append, Nat.add_sub_cancel_left, List.drop_eq_nil_of_le (Nat.le_succ _)]
    rfl
  rw [chunks_of_ne_nil (by simp), hdrop, ← hlen, List.take_left' rfl]

theorem mem_chunks {t u : Str} (hlimit : 0 < limit) (hu : u ∈ chunks limit t) :
    u ≠ [] ∧ u.length ≤ limit ∧ ∀ c ∈ u, c ∈ t := by
  induction t using chunks.induct limit with
  | case1 =>
      rw [chunks_nil] at hu
      cases hu
  | case2 t ht ih =>
      rw [chunks_of_ne_nil ht] at hu
      rcases List.mem_cons.mp hu with rfl | hu
      · refine ⟨fun h => ?_, List.length_take_le _ _, fun c hc => List.mem_of_mem_take hc⟩
        rcases List.take_eq_nil_iff.mp h with h | h
        · omega
        · exact ht h
      · obtain ⟨hne, hle, hmem⟩ := ih hu
        exact ⟨hne, hle, fun c hc => List.mem_of_mem_drop (hmem c hc)⟩

/-! ### Fields and separators -/

/-- What is in front of the first separator belongs to the first field. -/
theorem splitOnP_append_of_free {t : Str} (ht : ∀ c ∈ t, sep c = false) (s : Str) :
    (t ++ s).splitOnP sep = (s.splitOnP sep).modifyHead (t ++ ·) := by
  induction t with
  | nil =>
      obtain ⟨w, ws, hw⟩ := List.exists_cons_of_ne_nil (List.splitOnP_ne_nil sep s)
      rw [List.nil_append, hw]
      rfl
  | cons c t ih =>
      obtain ⟨w, ws, hw⟩ := List.exists_cons_of_ne_nil (List.splitOnP_ne_nil sep s)
      rw [List.cons_append, List.splitOnP_cons_eq_if_modifyHead, ht c List.mem_cons_self,
        if_neg Bool.false_ne_true, ih fun a ha => ht a (List.mem_cons_of_mem c ha), hw]
      rfl

theorem free_of_mem_splitOnP {s t : Str} (ht : t ∈ s.splitOnP sep) : ∀ c ∈ t, sep c = false := by
  induction s generalizing t with
  | nil =>
      rw [List.splitOnP_nil, List.mem_singleton] at ht
      simp [ht]
  | cons c s ih =>
      rw [List.splitOnP_cons_eq_if_modifyHead] at ht
      split_ifs at ht with hc
      · rcases List.mem_cons.mp ht with rfl | ht
        · simp
        · exact ih ht
      · obtain ⟨w, ws, hw⟩ := List.exists_cons_of_ne_nil (List.splitOnP_ne_nil sep s)
        rw [hw, List.modifyHead_cons] at ht
        rw [hw] at ih
        rcases List.mem_cons.mp ht with rfl | ht
        · exact List.forall_mem_cons.mpr ⟨Bool.eq_false_iff.mpr hc, ih List.mem_cons_self⟩
        · exact ih (List.mem_cons_of_mem w ht)

/-- Every piece is one that the scanner takes whole. -/
theorem whole_of_mem_fields (hlimit : 0 < limit) {s t : Str} (ht : t ∈ fields sep limit s) :
    Whole sep limit t := by
  obtain ⟨w, hw, ht⟩ := List.mem_flatMap.mp ht
  obtain ⟨hne, hle, hmem⟩ := mem_chunks hlimit ht
  exact ⟨hne, hle, fun c hc => free_of_mem_splitOnP hw c (hmem c hc)⟩

/-- Fields that the scanner takes whole come apart again. -/
theorem fields_intercalate {d : Char} (hd : sep d = true) {ts : List Str} (hts : ∀ t ∈ ts, Whole sep limit t) :
    fields sep limit (List.intercalate [d] ts) = ts := by
  induction ts with
  | nil => rw [List.intercalate_nil, fields, List.splitOnP_nil, List.flatMap_singleton, chunks_nil]
  | cons t ts ih =>
      obtain ⟨hne, hle, hfree⟩ := hts t List.mem_cons_self
      have hrest := ih fun u hu => hts u (List.mem_cons_of_mem t hu)
      cases ts with
      | nil =>
          rw [List.intercalate_singleton, fields, List.splitOnP_eq_singleton hfree, List.flatMap_singleton,
            chunks_of_le hne hle]
      | cons u ts =>
          rw [fields] at hrest
          rw [List.intercalate_cons_cons, List.append_assoc, List.singleton_append, fields,
            List.splitOnP_append_cons_of_forall_mem hfree d hd, List.flatMap_cons, chunks_of_le hne hle, hrest]
          rfl

/-- **Joined fields come apart again exactly if each of them is taken whole.** -/
theorem fields_intercalate_iff (hlimit : 0 < limit) {d : Char} (hd : sep d = true) (ts : List Str) :
    fields sep limit (List.intercalate [d] ts) = ts ↔ ∀ t ∈ ts, Whole sep limit t := by
  refine ⟨fun h t ht => ?_, fields_intercalate hd⟩
  rw [← h] at ht
  exact whole_of_mem_fields hlimit ht

/-! ### What a scanner finds -/

/-- A separator closes the open field. -/
theorem feed_sep {c : Char} (hc : sep c = true) {done : List Str} {cur : Str} (hle : cur.length ≤ limit) :
    feed sep limit (done, cur) c = (done ++ chunks limit cur, []) := by
  rw [feed, if_pos (Or.inl hc)]
  by_cases hnil : cur = []
  · rw [if_pos hnil, hnil, chunks_nil, List.append_nil]
  · rw [if_neg hnil, chunks_of_le hnil hle]

/-- **The scanner finds the pieces of the fields**, once a last separator has closed the last one. -/
theorem foldl_feed (hlimit : 0 < limit) {d : Char} (hd : sep d = true) (s : Str) {done : List Str} {cur : Str}
    (hle : cur.length ≤ limit) (hfree : ∀ c ∈ cur, sep c = false) :
    (s ++ [d]).foldl (feed sep limit) (done, cur) = (done ++ fields sep limit (cur ++ s), []) := by
  induction s generalizing done cur with
  | nil =>
      rw [List.nil_append, List.append_nil, List.foldl_cons, List.foldl_nil, feed_sep hd hle, fields,
        List.splitOnP_eq_singleton hfree, List.flatMap_singleton]
  | cons c s ih =>
      rw [List.cons_append, List.foldl_cons]
      cases hc : sep c with
      | true =>
          rw [feed_sep hc hle, ih (Nat.zero_le _) (fun c hc => absurd hc List.not_mem_nil), List.nil_append, fields,
            fields, List.splitOnP_append_cons_of_forall_mem hfree c hc, List.flatMap_cons, List.append_assoc]
      | false =>
          have hfree' : ∀ a ∈ cur ++ [c], sep a = false := fun a ha => by
            rcases List.mem_append.mp ha with ha | ha
            · exact hfree a ha
            · rwa [List.mem_singleton.mp ha]
          by_cases hfull : limit ≤ cur.length
          · -- the buffer is full, and the field goes on behind the lost character
            have hlen : cur.length = limit := Nat.le_antisymm hle hfull
            have hcur : cur ≠ [] := List.ne_nil_of_length_pos (by omega)
            obtain ⟨w, ws, hw⟩ := List.exists_cons_of_ne_nil (List.splitOnP_ne_nil sep s)
            have hsplit : (cur ++ c :: s).splitOnP sep = (cur ++ c :: w) :: ws := by
              rw [List.append_cons, splitOnP_append_of_free hfree', hw, List.modifyHead_cons, List.append_assoc]
              rfl
            rw [feed, if_pos (Or.inr hfull), if_neg hcur, ih (Nat.zero_le _) (fun c hc => absurd hc List.not_mem_nil),
              List.nil_append, fields, fields, hsplit, hw, List.flatMap_cons, List.flatMap_cons,
              chunks_full hlen]
            simp
          · have hfeed : feed sep limit (done, cur) c = (done, cur ++ [c]) := by
              rw [feed, if_neg (by simp [hc, hfull])]
            rw [hfeed, ih (by rw [List.length_append, List.length_singleton]; omega) hfree', List.append_assoc]
            rfl

end Text
