import GlbBackend.Store

/-!
# Names as lists of labels

`matchesBaseFqdn` compares two texts.  What it decides is a relation between names: the labels of a name
are its parts between the dots (`labels`), and a name is under a base if the labels of the base are the last
ones of its own.  The empty text has one label, the empty one, and so has the place before a leading dot,
after a trailing one and between two; the two relations agree for these as well (`matches_iff_labels`).
-/

namespace GlbBackend

open Text

/-- The labels of a name: the text cut at every dot. -/
def labels (name : Str) : List Str := name.splitOn '.'

theorem labels_ne_nil (name : Str) : labels name ≠ [] := List.splitOn_ne_nil '.' name

theorem labels_dot (name base : Str) : labels (name ++ '.' :: base) = labels name ++ labels base :=
  List.splitOn_append_cons_self name base

theorem intercalate_labels (name : Str) : ['.'].intercalate (labels name) = name :=
  List.intercalate_splitOn '.'

theorem labels_injective {name base : Str} (h : labels name = labels base) : name = base := by
  rw [← intercalate_labels name, h, intercalate_labels]

/-- No dot is left in a label. -/
theorem dot_not_mem_label {name label : Str} (h : label ∈ labels name) : '.' ∉ label := by
  induction name generalizing label with
  | nil =>
      rw [labels, List.splitOn_nil, List.mem_singleton] at h
      rw [h]
      exact List.not_mem_nil
  | cons c name ih =>
      rw [labels, List.splitOn_cons_eq_if_modifyHead] at h
      split_ifs at h with hc
      · rcases List.mem_cons.mp h with rfl | h
        · exact List.not_mem_nil
        · exact ih h
      · obtain ⟨first, rest, hsplit⟩ := List.exists_cons_of_ne_nil (labels_ne_nil name)
        have hsplit' : name.splitOn '.' = first :: rest := hsplit
        rw [hsplit', List.modifyHead_cons] at h
        rcases List.mem_cons.mp h with rfl | h
        · have hfirst : '.' ∉ first := ih (by rw [hsplit]; exact List.mem_cons_self)
          have hne : '.' ≠ c := fun heq => hc (beq_iff_eq.mpr heq.symm)
          exact List.not_mem_cons_of_ne_of_not_mem hne hfirst
        · exact ih (by rw [hsplit]; exact List.mem_cons_of_mem first h)

/-- Labels in front of those of a base are those of a name above it. -/
theorem exists_of_labels_eq_append {front : List Str} (hfront : front ≠ []) {name base : Str}
    (h : front ++ labels base = labels name) : ∃ above, name = above ++ '.' :: base := by
  refine ⟨['.'].intercalate front, labels_injective ?_⟩
  have hdots : ∀ label ∈ front, '.' ∉ label := fun label hmem =>
    dot_not_mem_label (h ▸ List.mem_append_left _ hmem)
  rw [labels_dot, ← h]
  exact congrArg (· ++ labels base) (List.splitOn_intercalate '.' hdots hfront).symm

/-- **The test on texts is the relation on labels.** -/
theorem matches_iff_labels {name base : Str} :
    matchesBaseFqdn name base = true ↔ labels base <:+ labels name := by
  rw [matchesBaseFqdn_iff]
  constructor
  · rintro (⟨above, rfl⟩ | rfl)
    · exact ⟨labels above, (labels_dot above base).symm⟩
    · exact List.suffix_refl _
  · rintro ⟨front, hfront⟩
    rcases eq_or_ne front [] with rfl | hne
    · exact Or.inr (labels_injective hfront).symm
    · obtain ⟨above, rfl⟩ := exists_of_labels_eq_append hne hfront
      exact Or.inl ⟨above, rfl⟩

/-- **`matchesBaseFqdn` is the subdomain relation on labels.**  So a name under a base is the base, or ends
in a dot and the base: no match begins inside a label.  The relation is a partial order. -/
theorem matchesBaseFqdn_labels :
    (∀ fqdn base : Str, matchesBaseFqdn fqdn base = true ↔ labels base <:+ labels fqdn) ∧
      (∀ above base : Str, above ≠ [] → matchesBaseFqdn (above ++ base) base = true →
        above.getLast? = some '.') ∧
      (∀ fqdn : Str, matchesBaseFqdn fqdn fqdn = true) ∧
      (∀ fqdn mid base : Str, matchesBaseFqdn fqdn mid = true → matchesBaseFqdn mid base = true →
        matchesBaseFqdn fqdn base = true) ∧
      ∀ fqdn base : Str, matchesBaseFqdn fqdn base = true → matchesBaseFqdn base fqdn = true →
        fqdn = base := by
  refine ⟨fun fqdn base => matches_iff_labels, fun above base hne hmatch => ?_, fun fqdn => ?_,
    fun fqdn mid base h₁ h₂ => ?_, fun fqdn base h₁ h₂ => ?_⟩
  · rcases matchesBaseFqdn_iff.mp hmatch with ⟨front, hfront⟩ | heq
    · have hcut : front ++ ['.'] = above := by
        rw [← List.append_left_inj base, ← hfront, List.append_assoc]
        rfl
      rw [← hcut, List.getLast?_concat]
    · exact absurd (List.append_left_eq_self.mp heq) hne
  · exact matches_iff_labels.mpr (List.suffix_refl _)
  · exact matches_iff_labels.mpr ((matches_iff_labels.mp h₂).trans (matches_iff_labels.mp h₁))
  · have h₁' := matches_iff_labels.mp h₁
    have h₂' := matches_iff_labels.mp h₂
    exact labels_injective (h₂'.eq_of_length (le_antisymm h₂'.length_le h₁'.length_le))

end GlbBackend
