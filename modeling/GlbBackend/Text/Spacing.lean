import GlbBackend.Text.Tokens

/-!
# More delimiters than needed

`Stretched d s t`: the text `t` is `s` with some runs of the delimiter `d` made longer.  The tokens do not
change (`Stretched.split`).  At the end of a text it is different: there the first delimiter starts a token,
the empty one, and only further delimiters make no difference (`split_trailing`).
-/

namespace Text

variable {p : Char → Bool} {d : Char} {s t : Str}

/-! ### Between the tokens -/

/-- Every delimiter stands for one or more of itself. -/
inductive Stretched (d : Char) : Str → Str → Prop
  | nil : Stretched d [] []
  | char (c : Char) {s t : Str} (h : Stretched d s t) : Stretched d (c :: s) (c :: t)
  | run (n : ℕ) {s t : Str} (h : Stretched d s t) : Stretched d (d :: s) (List.replicate (n + 1) d ++ t)

theorem Stretched.refl (d : Char) (s : Str) : Stretched d s s := by
  induction s with
  | nil => exact .nil
  | cons c s ih => exact .char c ih

theorem Stretched.append_left (h : Stretched d s t) (r : Str) : Stretched d (r ++ s) (r ++ t) := by
  induction r with
  | nil => exact h
  | cons c r ih => exact .char c ih

/-- Dropping other characters keeps the relation. -/
theorem Stretched.filter (h : Stretched d s t) {q : Char → Bool} (hq : q d = true) :
    Stretched d (s.filter q) (t.filter q) := by
  induction h with
  | nil => exact .nil
  | char c _ ih =>
      rw [List.filter_cons, List.filter_cons]
      split_ifs
      · exact .char c ih
      · exact ih
  | run n _ ih =>
      rw [List.filter_cons_of_pos hq, List.filter_append, List.filter_replicate_of_pos hq]
      exact .run n ih

/-- A delimiter in front of a text that starts with one. -/
theorem split_cons_replicate (hd : p d = true) (n : ℕ) (t : Str) :
    split p (List.replicate (n + 1) d ++ t) = split p (d :: t) := by
  induction n with
  | zero => rfl
  | succ n ih =>
      rw [List.replicate_succ, List.cons_append, split, hd, if_pos rfl, if_pos]
      · exact ih
      · rw [List.replicate_succ, List.cons_append]
        simpa using hd

/-- **Longer runs of delimiters make no difference.** -/
theorem Stretched.split (h : Stretched d s t) (hd : p d = true) :
    Text.split p t = Text.split p s ∧ t.head?.any p = s.head?.any p := by
  have hcons : ∀ {c : Char} {s t : Str}, Text.split p t = Text.split p s ∧ t.head?.any p = s.head?.any p →
      Text.split p (c :: t) = Text.split p (c :: s) := by
    rintro c s t ⟨hsplit, hhead⟩
    rw [Text.split, Text.split, hsplit, hhead]
  induction h with
  | nil => exact ⟨rfl, rfl⟩
  | char c _ ih => exact ⟨hcons ih, rfl⟩
  | run n _ ih =>
      refine ⟨?_, by rw [List.replicate_succ]; rfl⟩
      rw [split_cons_replicate hd, hcons ih]

/-! ### At the end -/

/-- Only the empty text is nothing but an empty token. -/
theorem split_ne_singleton_nil (hs : s ≠ []) : split p s ≠ [[]] := by
  obtain ⟨c, cs, rfl⟩ := List.exists_cons_of_ne_nil hs
  induction cs generalizing c with
  | nil => cases hc : p c <;> simp [split, glue, hc]
  | cons e es ih =>
      rw [split]
      split_ifs
      · exact ih e (List.cons_ne_nil e es)
      · simp [split_ne_nil]
      · cases split p (e :: es) <;> simp [glue]

theorem split_replicate (hd : p d = true) (n : ℕ) : split p (List.replicate (n + 1) d) = [[], []] := by
  have h := split_cons_replicate hd n []
  rw [List.append_nil] at h
  rw [h, split, hd]
  rfl

/-- The last token, and what follows it, when a character is put in front. -/
theorem getLast?_glue {c : Char} {ts : List Str} (hne : ts ≠ []) (hts : ts ≠ [[]]) :
    (glue c ts).getLast? = some [] ↔ ts.getLast? = some [] := by
  rcases ts with _ | ⟨t, _ | ⟨u, us⟩⟩
  · exact absurd rfl hne
  · have ht : t ≠ [] := fun h => hts (by rw [h])
    simp [glue, ht]
  · rw [glue, List.getLast?_cons_cons, List.getLast?_cons_cons]

theorem glue_append {c : Char} {ts us : List Str} (hne : ts ≠ []) : glue c (ts ++ us) = glue c ts ++ us := by
  cases ts with
  | nil => exact absurd rfl hne
  | cons t ts => rfl

/-- **Delimiters at the end**: the first one starts an empty token, unless there is one already. -/
theorem split_trailing (hd : p d = true) (hs : s ≠ []) (n : ℕ) :
    split p (s ++ List.replicate (n + 1) d)
      = if (split p s).getLast? = some [] then split p s else split p s ++ [[]] := by
  obtain ⟨c, cs, rfl⟩ := List.exists_cons_of_ne_nil hs
  induction cs generalizing c with
  | nil =>
      have hhead : (List.replicate (n + 1) d).head?.any p = true := by
        rw [List.replicate_succ]
        simpa using hd
      have hsplit : split p (c :: List.replicate (n + 1) d)
          = if p c then [[], []] else glue c [[], []] := by
        rw [split, hhead, split_replicate hd, if_pos rfl]
      rw [List.singleton_append, hsplit]
      cases hc : p c <;> simp [split, glue, hc]
  | cons e es ih =>
      have hrest := ih e (List.cons_ne_nil e es)
      have hne : split p (e :: es) ≠ [] := split_ne_nil p _
      have hts : split p (e :: es) ≠ [[]] := split_ne_singleton_nil (List.cons_ne_nil e es)
      have hstep : ∀ r : Str, split p (c :: r)
          = if p c then if r.head?.any p then split p r else [] :: split p r else glue c (split p r) :=
        fun r => by rw [split]
      have hhead : (e :: es ++ List.replicate (n + 1) d).head?.any p = (e :: es).head?.any p := rfl
      rw [List.cons_append, hstep, hstep (e :: es), hrest, hhead]
      generalize split p (e :: es) = ts at hne hts ⊢
      cases p c with
      | true =>
          rw [if_pos rfl, if_pos rfl]
          cases (e :: es).head?.any p with
          | true => rw [if_pos rfl, if_pos rfl]
          | false =>
              rw [if_neg Bool.false_ne_true, if_neg Bool.false_ne_true]
              obtain ⟨u, us, rfl⟩ := List.exists_cons_of_ne_nil hne
              rw [List.getLast?_cons_cons]
              split_ifs <;> rfl
      | false =>
          rw [if_neg Bool.false_ne_true, if_neg Bool.false_ne_true]
          simp only [getLast?_glue hne hts]
          split_ifs
          · rfl
          · exact glue_append hne

end Text
