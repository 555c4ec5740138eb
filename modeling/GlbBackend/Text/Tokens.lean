import Mathlib

/-!
# Byte strings: tokens, lines and letter case

A string is the list of its characters; a `Char` below 256 stands for the byte of that value, so what is
proved for every `Str` holds for every byte string.

* `split` — the tokens between *maximal runs* of delimiters (token compression on): only the first and
  the last token can be empty (`split_inner_ne_nil`).
* `cutLines` — what a reader of lines gets from a stream; it inverts `unlines` (`cutLines_unlines`).
* `lower` — ASCII lower case, idempotent (`lower_lower`).
-/

namespace Text

/-- A byte string. -/
abbrev Str := List Char

/-! ### Tokens -/

/-- Put a character in front of the first token. -/
def glue (c : Char) : List Str → List Str
  | [] => [[c]]
  | t :: ts => (c :: t) :: ts

/-- Split at the maximal runs of characters satisfying `p`.  There is always at least one token. -/
def split (p : Char → Bool) : Str → List Str
  | [] => [[]]
  | c :: cs =>
      if p c then
        if cs.head?.any p then split p cs else [] :: split p cs
      else glue c (split p cs)

theorem glue_ne_nil (c : Char) (ts : List Str) : glue c ts ≠ [] := by
  cases ts <;> simp [glue]

theorem split_ne_nil (p : Char → Bool) (s : Str) : split p s ≠ [] := by
  induction s with
  | nil => simp [split]
  | cons c cs ih =>
      rw [split]
      split_ifs
      · exact ih
      · simp
      · exact glue_ne_nil c _

/-- The characters of a token occur in the text and are no delimiters. -/
theorem mem_of_mem_split {p : Char → Bool} {s t : Str} (ht : t ∈ split p s) {c : Char}
    (hc : c ∈ t) : c ∈ s ∧ p c = false := by
  induction s generalizing t with
  | nil =>
      simp only [split, List.mem_singleton] at ht
      simp [ht] at hc
  | cons a cs ih =>
      rw [split] at ht
      split_ifs at ht with ha hd
      · obtain ⟨h1, h2⟩ := ih ht hc
        exact ⟨List.mem_cons_of_mem a h1, h2⟩
      · rcases List.mem_cons.mp ht with rfl | ht
        · simp at hc
        · obtain ⟨h1, h2⟩ := ih ht hc
          exact ⟨List.mem_cons_of_mem a h1, h2⟩
      · cases hs : split p cs with
        | nil => exact absurd hs (split_ne_nil p cs)
        | cons u us =>
            rw [hs, glue] at ht
            rcases List.mem_cons.mp ht with rfl | ht
            · rcases List.mem_cons.mp hc with rfl | hc
              · exact ⟨List.mem_cons_self, by simpa using ha⟩
              · obtain ⟨h1, h2⟩ := ih (by rw [hs]; exact List.mem_cons_self) hc
                exact ⟨List.mem_cons_of_mem a h1, h2⟩
            · obtain ⟨h1, h2⟩ := ih (by rw [hs]; exact List.mem_cons_of_mem u ht) hc
              exact ⟨List.mem_cons_of_mem a h1, h2⟩

/-- The first token of a text that starts with no delimiter is not empty. -/
theorem split_head_ne_nil {p : Char → Bool} {c : Char} {cs : Str} (hc : p c = false) {t : Str}
    {ts : List Str} (h : split p (c :: cs) = t :: ts) : t ≠ [] := by
  rw [split, hc, if_neg Bool.false_ne_true] at h
  cases hs : split p cs with
  | nil => exact absurd hs (split_ne_nil p cs)
  | cons u us =>
      rw [hs, glue, List.cons.injEq] at h
      rw [← h.1]
      exact List.cons_ne_nil c u

/-- **Only the first and the last token can be empty.** -/
theorem split_inner_ne_nil (p : Char → Bool) (s : Str) :
    ∀ t ∈ (split p s).tail.dropLast, t ≠ [] := by
  induction s with
  | nil => simp [split]
  | cons c cs ih =>
      rw [split]
      split_ifs with hc hd
      · exact ih
      · intro t ht
        rw [List.tail_cons] at ht
        cases cs with
        | nil => simp [split] at ht
        | cons a as =>
            have ha : p a = false := by simpa using hd
            cases hs : split p (a :: as) with
            | nil => exact absurd hs (split_ne_nil p _)
            | cons u us =>
                rw [hs] at ht ih
                cases us with
                | nil => simp at ht
                | cons v vs =>
                    rw [List.dropLast_cons_of_ne_nil (List.cons_ne_nil v vs)] at ht
                    rcases List.mem_cons.mp ht with rfl | ht
                    · exact split_head_ne_nil ha hs
                    · exact ih t ht
      · cases hs : split p cs with
        | nil => exact absurd hs (split_ne_nil p cs)
        | cons u us =>
            rw [hs] at ih
            exact ih

/-! #### Texts made of tokens -/

/-- A text without delimiters is one token. -/
theorem split_free {p : Char → Bool} {t : Str} (ht : ∀ c ∈ t, p c = false) : split p t = [t] := by
  induction t with
  | nil => rfl
  | cons c t ih =>
      rw [split, ht c List.mem_cons_self, if_neg Bool.false_ne_true,
        ih fun a ha => ht a (List.mem_cons_of_mem c ha)]
      rfl

/-- A run of delimiters is one. -/
theorem split_run {p : Char → Bool} {ds rest : Str} (hne : ds ≠ []) (hds : ∀ c ∈ ds, p c = true)
    (hrest : rest.head?.any p = false) : split p (ds ++ rest) = [] :: split p rest := by
  induction ds with
  | nil => exact absurd rfl hne
  | cons d ds ih =>
      rw [List.cons_append, split, hds d List.mem_cons_self, if_pos rfl]
      cases ds with
      | nil => rw [List.nil_append, hrest, if_neg Bool.false_ne_true]
      | cons e es =>
          have he : p e = true := hds e (List.mem_cons_of_mem d List.mem_cons_self)
          rw [if_pos (by simpa using he),
            ih (List.cons_ne_nil e es) fun c hc => hds c (List.mem_cons_of_mem d hc)]

/-- A token ends at the next run of delimiters. -/
theorem split_append {p : Char → Bool} {t ds rest : Str} (ht : ∀ c ∈ t, p c = false) (hne : ds ≠ [])
    (hds : ∀ c ∈ ds, p c = true) (hrest : rest.head?.any p = false) :
    split p (t ++ (ds ++ rest)) = t :: split p rest := by
  induction t with
  | nil => exact split_run hne hds hrest
  | cons c t ih =>
      rw [List.cons_append, split, ht c List.mem_cons_self, if_neg Bool.false_ne_true,
        ih fun a ha => ht a (List.mem_cons_of_mem c ha)]
      rfl

/-- The tokens, with some delimiters between any two. -/
inductive Separated (p : Char → Bool) : List Str → Str → Prop
  | last (t : Str) : Separated p [t] t
  | cons {t ds s : Str} {ts : List Str} (hne : ds ≠ []) (hds : ∀ c ∈ ds, p c = true)
      (h : Separated p ts s) : Separated p (t :: ts) (t ++ (ds ++ s))

/-- The tokens with one delimiter in front of each but the first. -/
theorem separated_flatMap {p : Char → Bool} {d : Char} (hd : p d = true) (t : Str) (ts : List Str) :
    Separated p (t :: ts) (t ++ ts.flatMap fun u => d :: u) := by
  induction ts generalizing t with
  | nil =>
      rw [List.flatMap_nil, List.append_nil]
      exact Separated.last t
  | cons u us ih =>
      have hds : ∀ c ∈ [d], p c = true := fun c hc => List.mem_singleton.mp hc ▸ hd
      have h := (ih u).cons (t := t) (List.cons_ne_nil d []) hds
      rw [List.flatMap_cons]
      exact h

theorem Separated.head {p : Char → Bool} {t s : Str} {ts : List Str} (h : Separated p (t :: ts) s)
    (ht : t ≠ []) : s.head? = t.head? := by
  cases h with
  | last => rfl
  | cons =>
      cases t with
      | nil => exact absurd rfl ht
      | cons c t => rfl

theorem Separated.ne_nil {p : Char → Bool} {s : Str} {ts : List Str} (h : Separated p ts s) : ts ≠ [] := by
  cases h <;> exact List.cons_ne_nil _ _

/-- **Tokens can be cut apart again**: splitting a text made of them gives them back. -/
theorem Separated.split {p : Char → Bool} {ts : List Str} {s : Str} (h : Separated p ts s)
    (hfree : ∀ t ∈ ts, ∀ c ∈ t, p c = false) (hinner : ∀ t ∈ ts.tail, t ≠ []) : Text.split p s = ts := by
  induction h with
  | last t => exact split_free (hfree t List.mem_cons_self)
  | @cons t ds s ts hne hds h ih =>
      obtain ⟨u, us, rfl⟩ := List.exists_cons_of_ne_nil h.ne_nil
      have hu : u ≠ [] := hinner u List.mem_cons_self
      have hhead : s.head?.any p = false := by
        rw [h.head hu]
        obtain ⟨c, u', rfl⟩ := List.exists_cons_of_ne_nil hu
        exact hfree (c :: u') (List.mem_cons_of_mem t List.mem_cons_self) c List.mem_cons_self
      rw [split_append (hfree t List.mem_cons_self) hne hds hhead,
        ih (fun v hv => hfree v (List.mem_cons_of_mem t hv)) fun v hv => hinner v (List.mem_cons_of_mem u hv)]

/-- In front of a delimiter there is only the empty token. -/
theorem eq_nil_of_head {p : Char → Bool} {t rest : Str} (ht : ∀ c ∈ t, p c = false)
    (h : (t ++ rest).head?.any p = true) : t = [] := by
  cases t with
  | nil => rfl
  | cons c t =>
      have hc : p c = true := h
      rw [ht c List.mem_cons_self] at hc
      exact absurd hc Bool.false_ne_true

/-- Every text is made of its tokens. -/
theorem separated_split (p : Char → Bool) (s : Str) : Separated p (Text.split p s) s := by
  induction s with
  | nil => exact Separated.last []
  | cons c cs ih =>
      rw [Text.split]
      split_ifs with hc hd
      · -- one more delimiter in the run in front, so the first token is empty
        have hfree : ∀ t ∈ Text.split p cs, ∀ a ∈ t, p a = false := fun t ht a ha =>
          (mem_of_mem_split ht ha).2
        generalize Text.split p cs = ts at ih hfree
        cases ih with
        | last =>
            rw [← List.append_nil cs] at hd
            rw [eq_nil_of_head (hfree cs List.mem_cons_self) hd] at hd
            exact absurd hd Bool.false_ne_true
        | @cons t ds s ts hne hds h =>
            obtain rfl : t = [] := eq_nil_of_head (hfree t List.mem_cons_self) hd
            exact Separated.cons (t := []) (List.cons_ne_nil c ds) (List.forall_mem_cons.mpr ⟨hc, hds⟩) h
      · exact Separated.cons (t := []) (List.cons_ne_nil c []) (List.forall_mem_singleton.mpr hc) ih
      · generalize Text.split p cs = ts at ih
        cases ih with
        | last => exact Separated.last (c :: cs)
        | @cons t ds s ts hne hds h => exact Separated.cons (t := c :: t) hne hds h

/-- The characters of such a text are those of the tokens, and delimiters. -/
theorem Separated.mem {p : Char → Bool} {ts : List Str} {s : Str} (h : Separated p ts s) {c : Char}
    (hc : c ∈ s) : (∃ t ∈ ts, c ∈ t) ∨ p c = true := by
  induction h with
  | last t => exact Or.inl ⟨t, List.mem_cons_self, hc⟩
  | @cons t ds s ts hne hds h ih =>
      rcases List.mem_append.mp hc with hc | hc
      · exact Or.inl ⟨t, List.mem_cons_self, hc⟩
      rcases List.mem_append.mp hc with hc | hc
      · exact Or.inr (hds c hc)
      rcases ih hc with ⟨u, hu, hc⟩ | hc
      · exact Or.inl ⟨u, List.mem_cons_of_mem t hu, hc⟩
      · exact Or.inr hc

/-! ### Lines -/

/-- The newline-terminated lines of a text, without their newlines, and the unterminated rest. -/
def cutLines : Str → List Str × Str
  | [] => ([], [])
  | c :: cs =>
      let r := cutLines cs
      if c = '\n' then ([] :: r.1, r.2)
      else match r.1 with
        | [] => ([], c :: r.2)
        | l :: ls => ((c :: l) :: ls, r.2)

/-- Every line followed by a newline. -/
def unlines (ls : List Str) : Str := ls.flatMap (· ++ ['\n'])

theorem unlines_cons (l : Str) (ls : List Str) : unlines (l :: ls) = l ++ '\n' :: unlines ls := by
  simp [unlines]

theorem cutLines_tail {t : Str} (ht : '\n' ∉ t) : cutLines t = ([], t) := by
  induction t with
  | nil => rfl
  | cons c cs ih =>
      obtain ⟨hc, hcs⟩ : '\n' ≠ c ∧ '\n' ∉ cs := by simpa using ht
      rw [cutLines, ih hcs, if_neg (Ne.symm hc)]

theorem cutLines_line {l : Str} (hl : '\n' ∉ l) (rest : Str) :
    cutLines (l ++ '\n' :: rest) = (l :: (cutLines rest).1, (cutLines rest).2) := by
  induction l with
  | nil => simp [cutLines]
  | cons c cs ih =>
      obtain ⟨hc, hcs⟩ : '\n' ≠ c ∧ '\n' ∉ cs := by simpa using hl
      rw [List.cons_append, cutLines, ih hcs, if_neg (Ne.symm hc)]

/-- **Lines can be cut up again**: cutting newline-free lines written with `unlines` gives them back. -/
theorem cutLines_unlines {ls : List Str} (hls : ∀ l ∈ ls, '\n' ∉ l) {t : Str} (ht : '\n' ∉ t) :
    cutLines (unlines ls ++ t) = (ls, t) := by
  induction ls with
  | nil => exact cutLines_tail ht
  | cons l ls ih =>
      rw [unlines_cons, List.append_assoc, List.cons_append,
        cutLines_line (hls l List.mem_cons_self),
        ih fun m hm => hls m (List.mem_cons_of_mem l hm)]

/-! ### Joining -/

/-- The lines joined by newlines and closed by one more are the lines, each with its newline. -/
theorem intercalate_newline {ls : List Str} (h : ls ≠ []) :
    List.intercalate ['\n'] ls ++ ['\n'] = unlines ls := by
  induction ls with
  | nil => exact absurd rfl h
  | cons l ls ih =>
      cases ls with
      | nil => simp [List.intercalate, unlines]
      | cons m ms =>
          rw [unlines_cons, ← ih (List.cons_ne_nil m ms)]
          simp [List.intercalate, List.intersperse]

/-! ### Letter case -/

/-- ASCII lower case, character by character. -/
def lower (s : Str) : Str := s.map Char.toLower

@[simp] theorem lower_nil : lower [] = [] := rfl

@[simp] theorem lower_cons (c : Char) (s : Str) : lower (c :: s) = c.toLower :: lower s := rfl

@[simp] theorem lower_append (s t : Str) : lower (s ++ t) = lower s ++ lower t :=
  List.map_append

@[simp] theorem lower_lower (s : Str) : lower (lower s) = lower s := by
  simp [lower]

end Text
