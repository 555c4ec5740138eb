import GlbBackend.Rapidjson.Reader

/-!
# What the reader accepts

The reader never reads behind the NUL of its text, never fails an assertion and always comes to an end, with an error
inside the text or with the events of one value, an array or an object (`parse_settles`).

The proof follows the code: for each function what it needs of the cursor and what it reports.
-/

namespace GlbBackend

open Text Text.Scanner

namespace Rapidjson

variable {D : Type}

namespace Reader

section Rules

variable {bound : ℕ} {begun : List (Event D) → Prop} {st : Cursor (Event D)}

theorem wp_skipWhitespace (hready : Ready bound begun st) :
    Wp bound begun skipWhitespace st fun _ st' => Reads st st' [] :=
  wp_skipWhile rfl hready

/-! ### Literals -/

theorem wp_takes {xs : Str} (hxs : '\x00' ∉ xs) (hready : Ready bound begun st) :
    Wp bound begun (takes xs) st fun b st' =>
      st'.tell ≤ bound ∧ begun st'.events ∧ (b = true → Reads st st' []) := by
  induction xs generalizing st with
  | nil => exact wp_pure ⟨hready.tell_le, hready.mayFail, fun _ => Reads.refl st⟩
  | cons x xs ih =>
      rw [takes]
      refine wp_take_bind hready (fun st' htell hbegun => ?_) fun c st' hc hreads hsrc => ?_
      · have hx : '\x00' ≠ x := fun heq => hxs (heq ▸ List.mem_cons_self)
        rw [if_neg hx]
        exact wp_pure ⟨htell, hbegun, fun h => absurd h Bool.false_ne_true⟩
      · have hready' := hreads.ready hready
        split_ifs
        · exact (ih (fun hmem => hxs (List.mem_cons_of_mem x hmem)) hready').mono fun b st'' h =>
            ⟨h.1, h.2.1, fun hb => hreads.then (h.2.2 hb)⟩
        · exact wp_pure ⟨hready'.tell_le, hready'.mayFail, fun h => absurd h Bool.false_ne_true⟩

theorem wp_parseLiteral {first : Char} {rest : Str} {e : Event D} {back : ℕ} {src : Str} (hfirst : first ≠ '\x00')
    (hrest : '\x00' ∉ rest) (hready : Ready bound begun st) (hsrc : st.src = first :: src) :
    Wp bound begun (parseLiteral first rest e back) st fun _ st' => Reads st st' [e] := by
  refine (wp_peek hsrc ?_).bind
  rw [if_pos rfl]
  refine wp_take_known hsrc hfirst fun st' hreads _ => ?_
  refine Wp.bind ((wp_takes hrest (hreads.ready hready)).mono fun b st'' h => ?_)
  obtain ⟨htell, hbegun, hb⟩ := h
  cases b with
  | true => exact wp_report (((hreads.then (hb rfl)).trans (reads_report e)))
  | false => exact Wp.bind (wp_tell (wp_fail (by omega) hbegun))

/-! ### Strings -/

theorem hexDigit?_lt {c : Char} {x : ℕ} (h : hexDigit? c = some x) : x < 16 := by
  rw [hexDigit?] at h
  have hle : ∀ {a b : Char}, a ≤ b → a.toNat ≤ b.toNat := fun h => h
  split_ifs at h with h1 h2 h3
  · cases h
    have := hle h1.2
    have : ('9' : Char).toNat = 57 := rfl
    have : ('0' : Char).toNat = 48 := rfl
    omega
  · cases h
    have := hle h2.2
    have : ('F' : Char).toNat = 70 := rfl
    have : ('A' : Char).toNat = 65 := rfl
    omega
  · cases h
    have := hle h3.2
    have : ('f' : Char).toNat = 102 := rfl
    have : ('a' : Char).toNat = 97 := rfl
    omega

theorem wp_hexDigits (i codepoint : ℕ) (hready : Ready bound begun st) :
    Wp bound begun (hexDigits i codepoint) st fun r st' => Reads st st' [] ∧ r < (codepoint + 1) * 16 ^ i := by
  induction i generalizing codepoint st with
  | zero => exact wp_pure ⟨Reads.refl st, by omega⟩
  | succ i ih =>
      rw [hexDigits]
      refine wp_take_bind hready (fun st' htell hbegun => ?_) fun c st' hc hreads hsrc => ?_
      · exact Wp.bind (wp_tell (wp_fail (by omega) hbegun))
      · have hready' := hreads.ready hready
        cases hx : hexDigit? c with
        | none => exact Wp.bind (wp_tell (wp_fail_at hready' (Nat.sub_le _ _)))
        | some x =>
            refine (ih (codepoint * 16 + x) hready').mono fun r st'' h => ⟨hreads.then h.1, lt_of_lt_of_le h.2 ?_⟩
            have hlt := hexDigit?_lt hx
            rw [pow_succ', ← mul_assoc]
            exact Nat.mul_le_mul_right _ (by omega)

theorem wp_parseHex4 (hready : Ready bound begun st) :
    Wp bound begun parseHex4 st fun r st' => Reads st st' [] ∧ r < 0x10000 :=
  (wp_hexDigits 4 0 hready).mono fun _ _ h => ⟨h.1, by have := h.2; omega⟩

theorem encode_isSome {codepoint : ℕ} (h : codepoint ≤ 0x10FFFF) : ∃ bytes, encode codepoint = some bytes := by
  rw [encode]
  split_ifs
  · exact ⟨_, rfl⟩
  · exact ⟨_, rfl⟩
  · exact ⟨_, rfl⟩
  · exact ⟨_, rfl⟩

theorem wp_parseSurrogate {codepoint : ℕ} (hle : codepoint ≤ 0xDBFF) (hready : Ready bound begun st) :
    Wp bound begun (parseSurrogate codepoint) st fun r st' => Reads st st' [] ∧ r ≤ 0x10FFFF := by
  refine Wp.bind ((wp_takes (by decide) hready).mono fun b st' h => ?_)
  obtain ⟨htell, hbegun, hb⟩ := h
  cases b with
  | false => exact Wp.bind (wp_tell (wp_fail (by omega) hbegun))
  | true =>
      have hreads := hb rfl
      refine Wp.bind ((wp_parseHex4 (hreads.ready hready)).mono fun codepoint2 st'' h => ?_)
      have hreads' := hreads.then h.1
      split_ifs with hsecond
      · exact Wp.bind (wp_tell (wp_fail_at (hreads'.ready hready) (Nat.sub_le _ _)))
      · refine wp_pure ⟨hreads', ?_⟩
        have hhigh : (codepoint - 0xD800) <<< 10 < 2 ^ 20 := by
          rw [Nat.shiftLeft_eq]
          omega
        have hlow : codepoint2 - 0xDC00 < 2 ^ 20 := by omega
        have hor := Nat.or_lt_two_pow hhigh hlow
        omega

theorem wp_parseUnicode (hready : Ready bound begun st) : Wp bound begun parseUnicode st fun _ st' => Reads st st' [] := by
  refine Wp.bind ((wp_parseHex4 hready).mono fun codepoint st' h => ?_)
  obtain ⟨hreads, hlt⟩ := h
  dsimp only
  split_ifs with hpair
  · refine Wp.bind ((wp_parseSurrogate hpair.2 (hreads.ready hready)).mono fun r st'' h => ?_)
    obtain ⟨bytes, hbytes⟩ := encode_isSome h.2
    rw [hbytes]
    exact wp_pure (hreads.then h.1)
  · have hle : codepoint ≤ 0x10FFFF := by omega
    obtain ⟨bytes, hbytes⟩ := encode_isSome hle
    refine Wp.bind (wp_pure ?_)
    rw [hbytes]
    exact wp_pure hreads

theorem escape?_nul : escape? '\x00' = none := rfl

theorem wp_parseChars {start : ℕ} (hstart : start ≤ bound) (n : ℕ) (buffer : Str) (hready : Ready bound begun st)
    (hn : st.src.length ≤ n) :
    Wp bound begun (parseChars start n buffer) st fun _ st' => ∃ s, Reads st st' [.string s] := by
  induction n generalizing buffer st with
  | zero =>
      obtain ⟨c, src, hsrc⟩ := hready.cons
      rw [hsrc] at hn
      exact absurd hn (Nat.not_succ_le_zero _)
  | succ n ih =>
      have hnext : ∀ {st' : Cursor (Event D)} (buffer : Str), Reads st st' [] → st'.src.length ≤ n →
          Wp bound begun (parseChars start n buffer) st' fun _ st' => ∃ s, Reads st st' [.string s] := by
        intro st' buffer hreads hlen
        refine (ih buffer (hreads.ready hready) hlen).mono fun _ st'' h => ?_
        obtain ⟨s, hs⟩ := h
        exact ⟨s, hreads.trans hs⟩
      rw [parseChars]
      refine wp_take_bind hready (fun st' htell hbegun => ?_) fun c st' hc hreads hsrc => ?_
      · exact wp_fail (by omega) hbegun
      · have hmay := (hreads.ready hready).mayFail
        rw [hsrc, List.length_cons] at hn
        split_ifs with hescape hquote hsmall
        · refine wp_take_bind (hreads.ready hready) (fun st'' htell hbegun => ?_) fun e st'' he hreads' _ => ?_
          · rw [escape?_nul]
            exact wp_fail (by omega) hbegun
          · have hlen := hreads'.length_le
            cases hx : escape? e with
            | some x => exact hnext _ (hreads.then hreads') (by omega)
            | none =>
                show Wp bound begun (if e = 'u' then _ else _) st'' _
                split_ifs
                · refine Wp.bind ((wp_parseUnicode ((hreads.then hreads').ready hready)).mono fun bytes st''' h => ?_)
                  have hlen' := h.length_le
                  exact hnext _ ((hreads.then hreads').then h) (by omega)
                · exact wp_fail (by omega) ((hreads.then hreads').ready hready).mayFail
        · exact wp_report ⟨buffer, hreads.trans (reads_report _)⟩
        · exact wp_fail (by omega) hmay
        · exact hnext _ hreads (by omega)

theorem wp_parseString {src : Str} (hready : Ready bound begun st) (hsrc : st.src = '"' :: src) :
    Wp bound begun parseString st fun _ st' => ∃ s, Reads st st' [.string s] := by
  refine Wp.bind (wp_tell (Wp.bind (wp_peek hsrc ?_)))
  rw [if_pos rfl]
  refine wp_take_known hsrc (by decide) fun st' hreads _ => Wp.bind (wp_left ?_)
  refine (wp_parseChars hready.tell_le _ [] (hreads.ready hready) le_rfl).mono fun _ st'' h => ?_
  obtain ⟨s, hs⟩ := h
  exact ⟨s, hreads.trans hs⟩

/-! ### Numbers -/

/-- A loop over digits that reports no error. -/
theorem wp_digits {β : Type} {body : β → Char → Turn β} (hbody : ∀ b c message offset, body b c ≠ .fail message offset)
    (b : β) (hready : Ready bound begun st) :
    Wp bound begun (scanWhile Char.isDigit body b) st fun _ st' => Reads st st' [] :=
  (wp_scanWhile (I := fun _ => True) rfl (fun _ _ _ _ _ _ => trivial) (fun b c message offset _ h =>
    absurd h (hbody b c message offset)) b trivial hready).mono fun _ _ h => h.2

theorem fits_ne_fail (limit : ℕ) (last : Char) (i : ℕ) (c : Char) (message : String) (offset : ℕ) :
    fits limit last i c ≠ .fail message offset := by
  intro h
  rw [fits] at h
  split_ifs at h

theorem ne_nul_of_isDigit {c : Char} (h : c.isDigit = true) : c ≠ '\x00' := by
  intro heq
  rw [heq] at h
  exact absurd h (by decide)

theorem digit_le {c : Char} (h : c.isDigit = true) : digit c ≤ 9 := by
  have hle : c.toNat ≤ 57 := (Char.isDigit_iff_toNat.mp h).2
  show c.toNat - 48 ≤ 9
  omega

theorem wp_parseMinus (hready : Ready bound begun st) : Wp bound begun parseMinus st fun _ st' => Reads st st' [] := by
  refine wp_peek_bind hready fun c src hsrc => ?_
  split_ifs with hc
  · exact wp_take_known hsrc (by rw [hc]; decide) fun st' hreads _ => wp_pure hreads
  · exact wp_pure (Reads.refl st)

theorem wp_parseInt {start : ℕ} (hstart : start ≤ bound) (minus : Bool) (hready : Ready bound begun st) :
    Wp bound begun (parseInt start minus) st fun _ st' => Reads st st' [] := by
  refine wp_peek_bind hready fun c src hsrc => ?_
  by_cases hzero : c = '0'
  · rw [if_pos hzero]
    exact wp_take_known hsrc (by rw [hzero]; decide) fun st' hreads _ => wp_pure hreads
  · rw [if_neg hzero]
    by_cases hdigit : '1' ≤ c ∧ c ≤ '9'
    · rw [if_pos hdigit]
      have hne : c ≠ '\x00' := by
        intro heq
        rw [heq] at hdigit
        exact absurd hdigit (by decide)
      refine wp_take_known hsrc hne fun st' hreads _ => ?_
      split_ifs
      · exact (wp_digits (fits_ne_fail _ _) _ (hreads.ready hready)).mono fun _ _ h => hreads.then h
      · exact (wp_digits (fits_ne_fail _ _) _ (hreads.ready hready)).mono fun _ _ h => hreads.then h
    · rw [if_neg hdigit]
      exact wp_fail hstart hready.mayFail

theorem wp_parseInt64 (minus : Bool) (i : ℕ) (try64bit : Bool) (hready : Ready bound begun st) :
    Wp bound begun (parseInt64 minus i try64bit) st fun _ st' => Reads st st' [] := by
  rw [parseInt64]
  split_ifs
  · exact wp_digits (fits_ne_fail _ _) _ hready
  · exact wp_digits (fits_ne_fail _ _) _ hready
  · exact wp_pure (Reads.refl st)

section Doubles

variable (F : Doubles D)

theorem wp_parseBig {start : ℕ} (hstart : start ≤ bound) (i64 : ℕ) (useDouble : Bool) (hready : Ready bound begun st) :
    Wp bound begun (parseBig F start i64 useDouble) st fun _ st' => Reads st st' [] := by
  rw [parseBig]
  split_ifs
  · refine Wp.bind ((wp_scanWhile (I := fun _ => True) rfl (fun _ _ _ _ _ _ => trivial) (fun b c message offset _ h => ?_)
      _ trivial hready).mono fun _ _ h => wp_pure h.2)
    split_ifs at h
    cases h
    exact hstart
  · exact wp_pure (Reads.refl st)

theorem wp_parseFrac {start : ℕ} (hstart : start ≤ bound) (i : ℕ) (d : Option D) (hready : Ready bound begun st) :
    Wp bound begun (parseFrac F start i d) st fun r st' => Reads st st' [] ∧ r.2 ≤ 0 := by
  refine wp_peek_bind hready fun c src hsrc => ?_
  split_ifs with hc
  · refine wp_take_known hsrc (by rw [hc]; decide) fun st' hreads _ => ?_
    refine wp_peek_bind (hreads.ready hready) fun c' src' hsrc' => ?_
    split_ifs with hdigit
    · refine wp_take_known hsrc' (ne_nul_of_isDigit hdigit) fun st₂ hreads₂ _ => ?_
      have hreads₂ := hreads.then hreads₂
      refine Wp.bind ((wp_scanWhile (I := fun r : D × ℤ => r.2 ≤ 0) rfl (fun r c r' hr _ h => ?_) (fun _ _ _ _ _ h => ?_)
        _ (by decide : (-1 : ℤ) ≤ 0) (hreads₂.ready hready)).mono fun r _ h => wp_pure ⟨hreads₂.then h.2, h.1⟩)
      · cases h
        split_ifs
        · show r.2 - 1 ≤ 0
          omega
        · exact hr
      · cases h
    · exact wp_fail hstart (hreads.ready hready).mayFail
  · exact wp_pure ⟨Reads.refl st, le_rfl⟩

theorem wp_parseExpSign (hready : Ready bound begun st) : Wp bound begun parseExpSign st fun _ st' => Reads st st' [] := by
  refine wp_peek_bind hready fun c src hsrc => ?_
  split_ifs with hplus hminus
  · exact wp_take_known hsrc (by rw [hplus]; decide) fun st' hreads _ => wp_pure hreads
  · exact wp_take_known hsrc (by rw [hminus]; decide) fun st' hreads _ => wp_pure hreads
  · exact wp_pure (Reads.refl st)

theorem wp_parseExp {start : ℕ} (hstart : start ≤ bound) (i : ℕ) (d : Option D) (hready : Ready bound begun st) :
    Wp bound begun (parseExp F start i d) st fun r st' => Reads st st' [] ∧ r.2 ≤ 308 := by
  refine wp_peek_bind hready fun c src hsrc => ?_
  by_cases hc : c = 'e' ∨ c = 'E'
  · rw [if_pos hc]
    refine wp_take_known hsrc (by rcases hc with hc | hc <;> rw [hc] <;> decide) fun st' hreads _ => ?_
    refine Wp.bind ((wp_parseExpSign (hreads.ready hready)).mono fun expMinus st₂ h => ?_)
    have hreads := hreads.then h
    refine wp_peek_bind (hreads.ready hready) fun c' src' hsrc' => ?_
    by_cases hdigit : c'.isDigit = true
    · rw [if_pos hdigit]
      refine wp_take_known hsrc' (ne_nul_of_isDigit hdigit) fun st₃ hreads₃ _ => ?_
      have hreads₃ := hreads.then hreads₃
      refine Wp.bind ((wp_scanWhile (I := fun exp => exp ≤ 308) rfl (fun exp c exp' _ _ h => ?_)
        (fun exp c message offset _ h => ?_) _ (le_trans (digit_le hdigit) (by decide)) (hreads₃.ready hready)).mono
          fun r _ h => wp_pure ⟨hreads₃.then h.2, ?_⟩)
      · split_ifs at h with hbig
        cases h
        omega
      · split_ifs at h
        cases h
        exact hstart
      · have hexp := h.1
        show (if expMinus = true then -(r.1 : ℤ) else r.1) ≤ 308
        split_ifs <;> omega
    · rw [if_neg hdigit]
      exact Wp.bind (wp_tell (wp_fail_at (hreads.ready hready) le_rfl))
  · rw [if_neg hc]
    exact wp_pure ⟨Reads.refl st, (by decide : (0 : ℤ) ≤ 308)⟩

theorem wp_finishNumber (minus : Bool) (i i64 : ℕ) (try64bit : Bool) (d : Option D) {exp : ℤ} (hexp : exp ≤ 308) :
    Wp bound begun (finishNumber F minus i i64 try64bit d exp) st fun _ st' => ∃ n, Reads st st' [.number n] := by
  cases d with
  | some d =>
      rw [finishNumber, if_pos hexp]
      exact wp_report ⟨_, reads_report _⟩
  | none =>
      rw [finishNumber]
      split_ifs <;> exact wp_report ⟨_, reads_report _⟩

theorem wp_parseNumber (hready : Ready bound begun st) :
    Wp bound begun (parseNumber F) st fun _ st' => ∃ n, Reads st st' [.number n] := by
  have hstart := hready.tell_le
  refine Wp.bind (wp_tell (Wp.bind ((wp_parseMinus hready).mono fun minus st₁ h₁ => ?_)))
  refine Wp.bind ((wp_parseInt hstart minus (h₁.ready hready)).mono fun r₂ st₂ h₂ => ?_)
  have h₂ := h₁.then h₂
  refine Wp.bind ((wp_parseInt64 minus r₂.1 r₂.2 (h₂.ready hready)).mono fun r₃ st₃ h₃ => ?_)
  have h₃ := h₂.then h₃
  refine Wp.bind ((wp_parseBig F hstart r₃.1 r₃.2 (h₃.ready hready)).mono fun d st₄ h₄ => ?_)
  have h₄ := h₃.then h₄
  refine Wp.bind ((wp_parseFrac F hstart _ d (h₄.ready hready)).mono fun r₅ st₅ h₅ => ?_)
  have h₆ := h₄.then h₅.1
  refine Wp.bind ((wp_parseExp F hstart _ r₅.1 (h₆.ready hready)).mono fun r₇ st₇ h₇ => ?_)
  have h₈ := h₆.then h₇.1
  have hexp : r₇.2 + r₅.2 ≤ 308 := by
    have := h₅.2
    have := h₇.2
    omega
  refine (wp_finishNumber F minus r₂.1 r₃.1 r₂.2 r₇.1 hexp).mono fun _ st' h => ?_
  obtain ⟨n, hn⟩ := h
  exact ⟨n, h₈.trans hn⟩

end Doubles

/-! ### Values -/

section Values

/-- The events are allowed, and so is any beginning of the events of a value behind them. -/
def Expects (begun : List (Event D) → Prop) (events : List (Event D)) : Prop :=
  ∀ (v : Value D) (first rest : List (Event D)), v.events id = first ++ rest → begun (events ++ first)

variable (bound begun)

/-- Before a value. -/
structure ReadyFor (st : Cursor (Event D)) : Prop extends Ready bound begun st where
  value : Expects begun st.events

/-- Among the elements of an array. -/
structure ReadyForElements (st : Cursor (Event D)) : Prop extends Ready bound begun st where
  elements : ∀ es, Expects begun (st.events ++ elementEvents id es)

/-- Among the members of an object. -/
structure ReadyForMembers (st : Cursor (Event D)) : Prop extends Ready bound begun st where
  members : ∀ ms, begun (st.events ++ memberEvents id ms)
  values : ∀ ms name, Expects begun (st.events ++ (memberEvents id ms ++ [.string name]))

variable {bound begun}

theorem Expects.allowed {events : List (Event D)} (h : Expects begun events) (v : Value D) :
    begun (events ++ v.events id) :=
  h v _ [] (List.append_nil _).symm

theorem elementEvents_append (es fs : List (Value D)) :
    elementEvents id (es ++ fs) = elementEvents id es ++ elementEvents id fs := by
  induction es with
  | nil => rfl
  | cons v es ih => rw [List.cons_append, elementEvents, ih, elementEvents, List.append_assoc]

theorem memberEvents_append (ms ns : List (Str × Value D)) :
    memberEvents id (ms ++ ns) = memberEvents id ms ++ memberEvents id ns := by
  induction ms with
  | nil => rfl
  | cons m ms ih =>
      rw [List.cons_append, memberEvents, ih, memberEvents]
      simp only [List.cons_append, List.append_assoc]

/-- An element is expected where the array is. -/
theorem Expects.element {events : List (Event D)} (h : Expects begun events) (es : List (Value D)) :
    Expects begun (events ++ .startArray :: elementEvents id es) := by
  intro v first rest hv
  rw [List.append_assoc]
  refine h (.array (es ++ [v])) _ (rest ++ [.endArray (es ++ [v]).length]) ?_
  rw [Value.events, elementEvents_append, elementEvents, elementEvents, List.append_nil, hv]
  simp only [List.cons_append, List.append_assoc]

/-- A name is allowed where the object is. -/
theorem Expects.members {events : List (Event D)} (h : Expects begun events) (ms : List (Str × Value D)) :
    begun (events ++ .startObject :: memberEvents id ms) :=
  h (.object ms) _ [.endObject ms.length] rfl

/-- The value of a member is expected where the object is. -/
theorem Expects.member {events : List (Event D)} (h : Expects begun events) (ms : List (Str × Value D)) (name : Str) :
    Expects begun (events ++ .startObject :: (memberEvents id ms ++ [.string name])) := by
  intro v first rest hv
  rw [List.append_assoc]
  refine h (.object (ms ++ [(name, v)])) _ (rest ++ [.endObject (ms ++ [(name, v)]).length]) ?_
  rw [Value.events, memberEvents_append, memberEvents, memberEvents, List.append_nil, hv]
  simp only [List.cons_append, List.append_assoc, List.nil_append]

section Steps

variable {st' : Cursor (Event D)}

theorem ReadyFor.read (h : ReadyFor bound begun st) (hreads : Reads st st' []) : ReadyFor bound begun st' :=
  ⟨hreads.ready h.toReady, by
    rw [hreads.reported, List.append_nil]
    exact h.value⟩

theorem ReadyForElements.read (h : ReadyForElements bound begun st) (hreads : Reads st st' []) :
    ReadyForElements bound begun st' :=
  ⟨hreads.ready h.toReady, by
    rw [hreads.reported, List.append_nil]
    exact h.elements⟩

theorem ReadyForMembers.read (h : ReadyForMembers bound begun st) (hreads : Reads st st' []) :
    ReadyForMembers bound begun st' :=
  ⟨hreads.ready h.toReady, by
    rw [hreads.reported, List.append_nil]
    exact h.members, by
    rw [hreads.reported, List.append_nil]
    exact h.values⟩

/-- Behind the bracket. -/
theorem ReadyFor.startArray (h : ReadyFor bound begun st) (hreads : Reads st st' [.startArray]) :
    ReadyForElements bound begun st' := by
  have helements : ∀ es, Expects begun (st'.events ++ elementEvents id es) := by
    intro es
    rw [hreads.reported, List.append_assoc]
    exact h.value.element es
  exact ⟨hreads.ready_of h.toReady (h.value (.array []) _ [.endArray 0] rfl), helements⟩

/-- Behind the brace. -/
theorem ReadyFor.startObject (h : ReadyFor bound begun st) (hreads : Reads st st' [.startObject]) :
    ReadyForMembers bound begun st' := by
  have hmembers : ∀ ms, begun (st'.events ++ memberEvents id ms) := by
    intro ms
    rw [hreads.reported, List.append_assoc]
    exact h.value.members ms
  have hvalues : ∀ ms name, Expects begun (st'.events ++ (memberEvents id ms ++ [.string name])) := by
    intro ms name
    rw [hreads.reported, List.append_assoc]
    exact h.value.member ms name
  exact ⟨hreads.ready_of h.toReady (h.value.members []), hmembers, hvalues⟩

theorem ReadyForElements.expects (h : ReadyForElements bound begun st) : ReadyFor bound begun st :=
  ⟨h.toReady, by
    have helements := h.elements []
    rwa [elementEvents, List.append_nil] at helements⟩

/-- Behind an element. -/
theorem ReadyForElements.next (h : ReadyForElements bound begun st) {v : Value D} (hreads : Reads st st' (v.events id)) :
    ReadyForElements bound begun st' := by
  refine ⟨hreads.ready_of h.toReady (h.expects.value.allowed v), fun es => ?_⟩
  rw [hreads.reported, List.append_assoc]
  exact h.elements (v :: es)

/-- Behind the name of a member. -/
theorem ReadyForMembers.named (h : ReadyForMembers bound begun st) {name : Str} (hreads : Reads st st' [.string name]) :
    ReadyFor bound begun st' := by
  have hvalue := h.values [] name
  refine ⟨hreads.ready_of h.toReady ?_, hreads.reported ▸ hvalue⟩
  have hallowed := hvalue .null [] [.null] rfl
  rwa [List.append_nil] at hallowed

/-- Behind a member. -/
theorem ReadyForMembers.next (h : ReadyForMembers bound begun st) {name : Str} {v : Value D}
    (hreads : Reads st st' (.string name :: v.events id)) : ReadyForMembers bound begun st' := by
  have hmember : memberEvents id [(name, v)] = .string name :: v.events id := by
    rw [memberEvents, memberEvents, List.append_nil]
  refine ⟨hreads.ready_of h.toReady (hmember ▸ h.members [(name, v)]), fun ms => ?_, fun ms name' => ?_⟩
  · rw [hreads.reported, List.append_assoc]
    exact h.members ((name, v) :: ms)
  · have hvalue := h.values ((name, v) :: ms) name'
    rw [memberEvents, List.append_assoc] at hvalue
    rw [hreads.reported, List.append_assoc]
    exact hvalue

end Steps

variable (bound begun) (F : Doubles D)

/-- What the functions for values report, when the fuel is enough for what is left of the text. -/
structure ValueRules (n : ℕ) : Prop where
  value : ∀ {st : Cursor (Event D)}, ReadyFor bound begun st → 3 * st.src.length + 2 ≤ n →
    Wp bound begun (parseValue F n) st fun _ st' => ∃ v : Value D, Reads st st' (v.events id)
  object : ∀ {st : Cursor (Event D)} {src : Str}, ReadyFor bound begun st → st.src = '{' :: src →
    3 * st.src.length + 1 ≤ n →
    Wp bound begun (parseObject F n) st fun _ st' => ∃ ms, Reads st st' ((Value.object ms).events id)
  members : ∀ {st : Cursor (Event D)} (memberCount : ℕ), ReadyForMembers bound begun st → 3 * st.src.length + 3 ≤ n →
    Wp bound begun (parseMembers F n memberCount) st fun _ st' => ∃ ms,
      Reads st st' (memberEvents id ms ++ [.endObject (memberCount + ms.length)])
  array : ∀ {st : Cursor (Event D)} {src : Str}, ReadyFor bound begun st → st.src = '[' :: src →
    3 * st.src.length + 1 ≤ n →
    Wp bound begun (parseArray F n) st fun _ st' => ∃ es, Reads st st' ((Value.array es).events id)
  elements : ∀ {st : Cursor (Event D)} (elementCount : ℕ), ReadyForElements bound begun st → 3 * st.src.length + 3 ≤ n →
    Wp bound begun (parseElements F n elementCount) st fun _ st' => ∃ es,
      Reads st st' (elementEvents id es ++ [.endArray (elementCount + es.length)])

variable {F bound begun} {n : ℕ}

theorem ValueRules.value_succ (ih : ValueRules bound begun F n) (h : ReadyFor bound begun st)
    (hn : 3 * st.src.length + 2 ≤ n + 1) :
    Wp bound begun (parseValue F (n + 1)) st fun _ st' => ∃ v : Value D, Reads st st' (v.events id) := by
  have hready := h.toReady
  rw [parseValue]
  refine wp_peek_bind hready fun c src hsrc => ?_
  split_ifs with hnull htrue hfalse hstring hobject harray
  · rw [hnull] at hsrc
    exact (wp_parseLiteral (by decide) (by decide) hready hsrc).mono fun _ _ h => ⟨.null, h⟩
  · rw [htrue] at hsrc
    exact (wp_parseLiteral (by decide) (by decide) hready hsrc).mono fun _ _ h => ⟨.bool true, h⟩
  · rw [hfalse] at hsrc
    exact (wp_parseLiteral (by decide) (by decide) hready hsrc).mono fun _ _ h => ⟨.bool false, h⟩
  · rw [hstring] at hsrc
    refine (wp_parseString hready hsrc).mono fun _ _ h => ?_
    obtain ⟨s, hs⟩ := h
    exact ⟨.string s, hs⟩
  · rw [hobject] at hsrc
    refine (ih.object h hsrc (by omega)).mono fun _ _ h => ?_
    obtain ⟨ms, hms⟩ := h
    exact ⟨.object ms, hms⟩
  · rw [harray] at hsrc
    refine (ih.array h hsrc (by omega)).mono fun _ _ h => ?_
    obtain ⟨es, hes⟩ := h
    exact ⟨.array es, hes⟩
  · refine (wp_parseNumber F hready).mono fun _ _ h => ?_
    obtain ⟨x, hx⟩ := h
    exact ⟨.number x, hx⟩

theorem ValueRules.elements_succ (ih : ValueRules bound begun F n) (elementCount : ℕ)
    (h : ReadyForElements bound begun st) (hn : 3 * st.src.length + 3 ≤ n + 1) :
    Wp bound begun (parseElements F (n + 1) elementCount) st fun _ st' => ∃ es,
      Reads st st' (elementEvents id es ++ [.endArray (elementCount + es.length)]) := by
  rw [parseElements]
  refine Wp.bind ((ih.value h.expects (by omega)).mono fun _ st₁ h₁ => ?_)
  obtain ⟨v, hv⟩ := h₁
  refine Wp.bind ((wp_skipWhitespace (h.next hv).toReady).mono fun _ st₂ h₂ => ?_)
  have hv := hv.then h₂
  refine wp_take_bind (h.next hv).toReady (fun st' htell hbegun => ?_) fun c st₃ hc h₃ hsrc => ?_
  · rw [if_neg (by decide), if_neg (by decide)]
    exact Wp.bind (wp_tell (wp_fail htell hbegun))
  · have hlen := hv.length_le
    rw [hsrc, List.length_cons] at hlen
    have hv := hv.then h₃
    split_ifs
    · refine Wp.bind ((wp_skipWhitespace (h.next hv).toReady).mono fun _ st₄ h₄ => ?_)
      have hlen' := h₄.length_le
      have hv := hv.then h₄
      refine (ih.elements (elementCount + 1) (h.next hv) (by omega)).mono fun _ st₅ h₅ => ?_
      obtain ⟨es, hes⟩ := h₅
      refine ⟨v :: es, ?_⟩
      have hall := hv.trans hes
      rwa [← List.append_assoc, Nat.add_assoc, Nat.add_comm 1] at hall
    · refine wp_report ⟨[v], ?_⟩
      rw [elementEvents, elementEvents, List.append_nil]
      exact hv.trans (reads_report _)
    · exact Wp.bind (wp_tell (wp_fail_at (h.next hv).toReady le_rfl))

theorem ValueRules.array_succ (ih : ValueRules bound begun F n) {src : Str} (h : ReadyFor bound begun st)
    (hsrc : st.src = '[' :: src) (hn : 3 * st.src.length + 1 ≤ n + 1) :
    Wp bound begun (parseArray F (n + 1)) st fun _ st' => ∃ es, Reads st st' ((Value.array es).events id) := by
  rw [parseArray]
  refine (wp_peek hsrc ?_).bind
  rw [if_pos rfl]
  refine wp_take_known hsrc (by decide) fun st₁ h₁ hsrc₁ => Wp.bind (wp_report ?_)
  have h₁ : Reads st { st₁ with events := st₁.events ++ [.startArray] } [.startArray] := h₁.trans (reads_report _)
  refine Wp.bind ((wp_skipWhitespace (h.startArray h₁).toReady).mono fun _ st₂ h₂ => ?_)
  have hlen : st₂.src.length ≤ st₁.src.length := h₂.length_le
  rw [hsrc₁, List.length_cons] at hn
  have h₁ := h₁.then h₂
  have hready := h.startArray h₁
  refine wp_peek_bind hready.toReady fun c src₂ hsrc₂ => ?_
  split_ifs with hc
  · exact wp_take_known hsrc₂ (by rw [hc]; decide) fun st₃ h₃ _ =>
      wp_report ⟨[], (h₁.then h₃).trans (reads_report _)⟩
  · refine (ih.elements 0 hready (by omega)).mono fun _ st₃ h₃ => ?_
    obtain ⟨es, hes⟩ := h₃
    rw [Nat.zero_add] at hes
    exact ⟨es, h₁.trans hes⟩

theorem ValueRules.members_succ (ih : ValueRules bound begun F n) (memberCount : ℕ) (h : ReadyForMembers bound begun st)
    (hn : 3 * st.src.length + 3 ≤ n + 1) :
    Wp bound begun (parseMembers F (n + 1) memberCount) st fun _ st' => ∃ ms,
      Reads st st' (memberEvents id ms ++ [.endObject (memberCount + ms.length)]) := by
  rw [parseMembers]
  refine wp_peek_bind h.toReady fun c src hsrc => ?_
  by_cases hname : c = '"'
  · rw [if_pos hname]
    rw [hname] at hsrc
    refine Wp.bind ((wp_parseString h.toReady hsrc).mono fun _ st₁ h₁ => ?_)
    obtain ⟨name, h₁⟩ := h₁
    refine Wp.bind ((wp_skipWhitespace (h.named h₁).toReady).mono fun _ st₂ h₂ => ?_)
    have h₂ := h₁.then h₂
    refine wp_take_bind (h.named h₂).toReady (fun st' htell hbegun => ?_) fun c st₃ hc h₃ hsrc₃ => ?_
    · rw [if_neg (by decide)]
      exact Wp.bind (wp_tell (wp_fail htell hbegun))
    · have hlen := h₂.length_le
      rw [hsrc₃, List.length_cons] at hlen
      have h₃ := h₂.then h₃
      by_cases hcolon : c = ':'
      · rw [if_pos hcolon]
        refine Wp.bind ((wp_skipWhitespace (h.named h₃).toReady).mono fun _ st₄ h₄ => ?_)
        have hlen₄ := h₄.length_le
        have h₄ := h₃.then h₄
        refine Wp.bind ((ih.value (h.named h₄) (by omega)).mono fun _ st₅ h₅ => ?_)
        obtain ⟨v, h₅⟩ := h₅
        have hlen₅ := h₅.length_le
        have h₅ : Reads st st₅ (.string name :: v.events id) := h₄.trans h₅
        refine Wp.bind ((wp_skipWhitespace (h.next h₅).toReady).mono fun _ st₆ h₆ => ?_)
        have hlen₆ := h₆.length_le
        have h₆ := h₅.then h₆
        refine wp_take_bind (h.next h₆).toReady (fun st' htell hbegun => ?_) fun c st₇ hc h₇ _ => ?_
        · rw [if_neg (by decide), if_neg (by decide)]
          exact Wp.bind (wp_tell (wp_fail htell hbegun))
        · have hlen₇ := h₇.length_le
          have h₇ := h₆.then h₇
          split_ifs
          · refine Wp.bind ((wp_skipWhitespace (h.next h₇).toReady).mono fun _ st₈ h₈ => ?_)
            have hlen₈ := h₈.length_le
            have h₈ := h₇.then h₈
            refine (ih.members (memberCount + 1) (h.next h₈) (by omega)).mono fun _ st₉ h₉ => ?_
            obtain ⟨ms, hms⟩ := h₉
            refine ⟨(name, v) :: ms, ?_⟩
            have hall := h₈.trans hms
            rwa [← List.append_assoc, Nat.add_assoc, Nat.add_comm 1] at hall
          · refine wp_report ⟨[(name, v)], ?_⟩
            rw [memberEvents, memberEvents, List.append_nil]
            exact h₇.trans (reads_report _)
          · exact Wp.bind (wp_tell (wp_fail_at (h.next h₇).toReady le_rfl))
      · rw [if_neg hcolon]
        exact Wp.bind (wp_tell (wp_fail_at (h.named h₃).toReady le_rfl))
  · rw [if_neg hname]
    exact Wp.bind (wp_tell (wp_fail_at h.toReady le_rfl))

theorem ValueRules.object_succ (ih : ValueRules bound begun F n) {src : Str} (h : ReadyFor bound begun st)
    (hsrc : st.src = '{' :: src) (hn : 3 * st.src.length + 1 ≤ n + 1) :
    Wp bound begun (parseObject F (n + 1)) st fun _ st' => ∃ ms, Reads st st' ((Value.object ms).events id) := by
  rw [parseObject]
  refine (wp_peek hsrc ?_).bind
  rw [if_pos rfl]
  refine wp_take_known hsrc (by decide) fun st₁ h₁ hsrc₁ => Wp.bind (wp_report ?_)
  have h₁ : Reads st { st₁ with events := st₁.events ++ [.startObject] } [.startObject] := h₁.trans (reads_report _)
  refine Wp.bind ((wp_skipWhitespace (h.startObject h₁).toReady).mono fun _ st₂ h₂ => ?_)
  have hlen : st₂.src.length ≤ st₁.src.length := h₂.length_le
  rw [hsrc₁, List.length_cons] at hn
  have h₁ := h₁.then h₂
  have hready := h.startObject h₁
  refine wp_peek_bind hready.toReady fun c src₂ hsrc₂ => ?_
  split_ifs with hc
  · exact wp_take_known hsrc₂ (by rw [hc]; decide) fun st₃ h₃ _ =>
      wp_report ⟨[], (h₁.then h₃).trans (reads_report _)⟩
  · refine (ih.members 0 hready (by omega)).mono fun _ st₃ h₃ => ?_
    obtain ⟨ms, hms⟩ := h₃
    rw [Nat.zero_add] at hms
    exact ⟨ms, h₁.trans hms⟩

/-- **Values within values.**  By induction on the fuel, each function from the others with less. -/
theorem valueRules (bound : ℕ) (begun : List (Event D) → Prop) (F : Doubles D) (n : ℕ) : ValueRules bound begun F n := by
  induction n with
  | zero =>
      have hlen : ∀ {st : Cursor (Event D)} {c : Char} {src : Str}, st.src = c :: src → ¬ 3 * st.src.length + 1 ≤ 0 := by
        intro st c src hsrc
        omega
      exact ⟨fun _ hn => absurd hn (by omega), fun _ hsrc hn => absurd hn (hlen hsrc), fun _ _ hn => absurd hn (by omega),
        fun _ hsrc hn => absurd hn (hlen hsrc), fun _ _ hn => absurd hn (by omega)⟩
  | succ n ih =>
      exact ⟨ih.value_succ, ih.object_succ, ih.members_succ, ih.array_succ, ih.elements_succ⟩

/-- Events that those of some value begin with. -/
def Begins (events : List (Event D)) : Prop :=
  ∃ (v : Value D) (rest : List (Event D)), v.events id = events ++ rest

/-- The reader, in front of a memory with a NUL. -/
theorem wp_parseRoot (F : Doubles D) {memory : Str} (hnul : '\x00' ∈ memory) :
    Wp (memory.idxOf '\x00' + 1) Begins (parseRoot F) ⟨memory, 0, []⟩ fun _ st' =>
      ∃ v : Value D, v.isContainer = true ∧ Reads ⟨memory, 0, []⟩ st' (v.events id) := by
  have hnone : Begins ([] : List (Event D)) := ⟨.null, _, rfl⟩
  have hready : Ready (memory.idxOf '\x00' + 1) Begins (⟨memory, 0, []⟩ : Cursor (Event D)) := ⟨hnul, by
    show 0 + memory.idxOf '\x00' < _
    omega, hnone⟩
  refine Wp.bind ((wp_skipWhitespace hready).mono fun _ st₁ h₁ => ?_)
  have hready₁ := h₁.ready hready
  have hready₁' : ReadyFor (memory.idxOf '\x00' + 1) Begins st₁ := ⟨hready₁, by
    rw [h₁.reported]
    exact fun v first rest hv => ⟨v, rest, hv⟩⟩
  refine wp_peek_bind hready₁ fun c src hsrc => Wp.bind (wp_tell ?_)
  -- behind the root there may be white space, and then the NUL
  have hend : ∀ {st : Cursor (Event D)} {v : Value D}, v.isContainer = true → Reads st₁ st (v.events id) →
      Wp (memory.idxOf '\x00' + 1) Begins (do
        skipWhitespace
        let c ← peek
        let offset ← tell
        if c = '\x00' then pure () else fail "Nothing should follow the root object or array." offset) st fun _ st' =>
          ∃ v : Value D, v.isContainer = true ∧ Reads ⟨memory, 0, []⟩ st' (v.events id) := by
    intro st v hv hreads
    have hreads : Reads ⟨memory, 0, []⟩ st (v.events id) := h₁.trans hreads
    have hready := hreads.ready_of hready ⟨v, [], (List.append_nil _).symm⟩
    refine Wp.bind ((wp_skipWhitespace hready).mono fun _ st' h => ?_)
    have hready' := h.ready hready
    refine wp_peek_bind hready' fun c src hsrc => Wp.bind (wp_tell ?_)
    split_ifs
    · exact wp_pure ⟨v, hv, hreads.then h⟩
    · exact wp_fail_at hready' le_rfl
  by_cases hempty : c = '\x00'
  · rw [if_pos hempty]
    exact wp_fail_at hready₁ le_rfl
  · rw [if_neg hempty]
    refine Wp.bind (wp_left ?_)
    have hrules := valueRules (memory.idxOf '\x00' + 1) Begins F (fuelFor st₁.src.length)
    by_cases hobject : c = '{'
    · rw [hobject] at hsrc
      simp only [if_pos hobject]
      refine Wp.bind ((hrules.object hready₁' hsrc le_rfl).mono fun _ st₂ h₂ => ?_)
      obtain ⟨ms, hms⟩ := h₂
      exact hend rfl hms
    · by_cases harray : c = '['
      · rw [harray] at hsrc
        simp only [if_neg hobject, if_pos harray]
        refine Wp.bind ((hrules.array hready₁' hsrc le_rfl).mono fun _ st₂ h₂ => ?_)
        obtain ⟨es, hes⟩ := h₂
        exact hend rfl hes
      · simp only [if_neg hobject, if_neg harray]
        exact Wp.bind (wp_fail_at hready₁ le_rfl)

/-- **What the reader does with a text.**  Wherever the NUL is in memory, the reader has told the handler the events of
one value, an array or an object; or there is an error no further than one behind the NUL, and what the handler has been
told is a beginning of such events.  The reader reads nothing outside the memory, which may end with the NUL, and no
assertion fails. -/
theorem parse_settles (F : Doubles D) {memory : Str} (hnul : '\x00' ∈ memory) :
    Settles (memory.idxOf '\x00' + 1) Begins
      (fun events => ∃ v : Value D, v.isContainer = true ∧ events = v.events id) (parse F memory) := by
  refine Settles.map (Settles.mono (wp_parseRoot F hnul) fun _ hr => ?_)
  obtain ⟨v, hv, hreads⟩ := hr
  exact ⟨v, hv, hreads.reported⟩

/-- Numbers for the examples. -/
def numerals : Doubles ℕ := ⟨id, fun d x => d * 10 + x, fun _ => false, fun d _ => d, id⟩

/-- A text that ends behind a name: the reader takes the NUL for what should be a colon. -/
def unfinished : Str := "[1,\x7b\"a\"".toList ++ ['\x00']

theorem parse_settles_unfinished :
    Settles (unfinished.idxOf '\x00' + 1) Begins
      (fun events => ∃ v : Value ℕ, v.isContainer = true ∧ events = v.events id) (parse numerals unfinished) :=
  parse_settles numerals (by decide)

end Values

end Rules

end Reader

end Rapidjson

end GlbBackend
