import GlbBackend.JsonReader
import GlbBackend.Rapidjson.Document
import GlbBackend.Rapidjson.Writer

/-!
# What is written is read again

The text that a writer makes of a document, with or without line breaks and indentation, gives the reader the events of
the same document.  The numbers may have other types then, which are the smallest that the reader tries, but they are the
same integers (`value?_reread`), so `Accept` does not show the difference.

A floating point number is written with six digits, and is not the same when it is read; there must be none in the
document.
-/

namespace GlbBackend

open Text Text.Scanner

namespace Rapidjson

variable {D : Type}

/-! ### Integers -/

namespace Number

/-- The number that the reader makes of the text of an integer. -/
def ofText (z : ℤ) : Number D :=
  if 0 ≤ z then
    if z.natAbs ≤ 4294967295 then uint (BitVec.ofNat 32 z.natAbs) else uint64 (BitVec.ofNat 64 z.natAbs)
  else if z.natAbs ≤ 2147483648 then int (-BitVec.ofNat 32 z.natAbs) else int64 (-BitVec.ofNat 64 z.natAbs)

/-- A number, written and read again. -/
def reread (n : Number D) : Number D :=
  match n.value? with
  | some z => ofText z
  | none => n

theorem toInt_neg_ofNat {w k : ℕ} (h : k ≤ 2 ^ w) : (-BitVec.ofNat (w + 1) k).toInt = -(k : ℤ) := by
  have hpow : (2 : ℤ) ^ (w + 1) = 2 * 2 ^ w := by rw [pow_succ, mul_comm]
  have hle : (k : ℤ) ≤ 2 ^ w := by exact_mod_cast h
  have hpos : (0 : ℤ) < 2 ^ w := by positivity
  rw [← BitVec.ofInt_natCast, ← BitVec.ofInt_neg, BitVec.toInt_ofInt]
  refine Int.bmod_eq_of_le ?_ ?_ <;> push_cast <;> omega

theorem value?_ofText {z : ℤ} (hle : -2 ^ 63 ≤ z) (hlt : z < 2 ^ 64) : (ofText z : Number D).value? = some z := by
  rw [ofText]
  split_ifs with hsign hsmall hsmall
  · show some ((BitVec.ofNat 32 z.natAbs).toNat : ℤ) = some z
    rw [BitVec.toNat_ofNat]
    congr 1
    omega
  · show some ((BitVec.ofNat 64 z.natAbs).toNat : ℤ) = some z
    rw [BitVec.toNat_ofNat]
    congr 1
    omega
  · show some (-BitVec.ofNat (31 + 1) z.natAbs).toInt = some z
    rw [toInt_neg_ofNat (by omega)]
    congr 1
    omega
  · show some (-BitVec.ofNat (63 + 1) z.natAbs).toInt = some z
    rw [toInt_neg_ofNat (by omega)]
    congr 1
    omega

/-- The same integer is read. -/
theorem value?_reread (n : Number D) : n.reread.value? = n.value? := by
  rw [reread]
  cases hn : n.value? with
  | none => exact hn
  | some z => exact value?_ofText (value?_bounds hn).1 (value?_bounds hn).2

theorem accept_reread (n : Number D) : n.reread.accept = n.accept := by
  cases hn : n.value? with
  | none => rw [reread, hn]
  | some z => rw [accept_eq (n.value?_reread.trans hn), accept_eq hn]

end Number

namespace Reader

section Digits

/-- The number that digits make of one that has been read. -/
def value (i : ℕ) (s : Str) : ℕ := s.foldl (fun i c => i * 10 + digit c) i

theorem value_toDigits (n : ℕ) : value 0 (Nat.toDigits 10 n) = n := by
  have hvalue := digitsValue_toDigits n
  rw [digitsValue] at hvalue
  rw [value]
  simp only [mul_comm _ 10]
  exact hvalue

theorem le_value (i : ℕ) (s : Str) : i ≤ value i s := by
  induction s generalizing i with
  | nil => exact le_rfl
  | cons c s ih => exact le_trans (by omega) (ih (i * 10 + digit c))

theorem isDigit_bounds {c : Char} (h : c.isDigit = true) : 48 ≤ c.toNat ∧ c.toNat ≤ 57 :=
  Char.isDigit_iff_toNat.mp h

/-- The test for another digit is the comparison with the greatest number. -/
theorem fits_eq {limit : ℕ} {last : Char} (hlast : last.isDigit = true) {c : Char} (hc : c.isDigit = true) (i : ℕ) :
    fits limit last i c = if i * 10 + digit c ≤ limit * 10 + digit last then .next (i * 10 + digit c) else .leave := by
  have hcb := isDigit_bounds hc
  have hlb := isDigit_bounds hlast
  have hlt : last < c ↔ last.toNat < c.toNat := Iff.rfl
  have hdc : digit c = c.toNat - 48 := rfl
  have hdl : digit last = last.toNat - 48 := rfl
  simp only [fits, hlt]
  split_ifs <;> first | rfl | omega

variable {limit : ℕ} {last : Char}

/-- Digits of a number that is not too great. -/
theorem turns_fits (hlast : last.isDigit = true) {i : ℕ} {s : Str} (hs : ∀ c ∈ s, c.isDigit = true)
    (hle : value i s ≤ limit * 10 + digit last) : Turns Char.isDigit (fits limit last) i s (value i s) := by
  induction s generalizing i with
  | nil => exact .nil i
  | cons c s ih =>
      have hc := hs c List.mem_cons_self
      have hnext := le_trans (le_value (i * 10 + digit c) s) hle
      exact .cons hc ((fits_eq hlast hc i).trans (if_pos hnext)) (ih (fun x hx => hs x (List.mem_cons_of_mem c hx)) hle)

/-- Digits of a number that is too great: the loop leaves before one of them. -/
theorem turns_leave (hlast : last.isDigit = true) {i : ℕ} {s : Str} (hs : ∀ c ∈ s, c.isDigit = true)
    (hi : i ≤ limit * 10 + digit last) (hlt : limit * 10 + digit last < value i s) :
    ∃ s₁ c s₂, s = s₁ ++ c :: s₂ ∧ Turns Char.isDigit (fits limit last) i s₁ (value i s₁) ∧
      c.isDigit = true ∧ fits limit last (value i s₁) c = .leave := by
  induction s generalizing i with
  | nil => exact absurd hi (Nat.not_le_of_lt hlt)
  | cons c s ih =>
      have hc := hs c List.mem_cons_self
      by_cases hnext : i * 10 + digit c ≤ limit * 10 + digit last
      · obtain ⟨s₁, c', s₂, hsplit, hturns, hc', hleave⟩ :=
          ih (fun x hx => hs x (List.mem_cons_of_mem c hx)) hnext hlt
        exact ⟨c :: s₁, c', s₂, by rw [hsplit]; rfl, .cons hc ((fits_eq hlast hc i).trans (if_pos hnext)) hturns, hc',
          hleave⟩
      · exact ⟨[], c, s, rfl, .nil i, hc, (fits_eq hlast hc i).trans (if_neg hnext)⟩

/-- The first digit of a number. -/
theorem toDigits_head {n : ℕ} (hn : 0 < n) : ∃ c s, Nat.toDigits 10 n = c :: s ∧ '1' ≤ c ∧ c ≤ '9' := by
  induction n using Nat.strong_induction_on with
  | _ n ih =>
      rw [Nat.toDigits_eq_if (by decide)]
      split_ifs with hlt
      · have hdigit : ∀ n < 10, 0 < n → '1' ≤ Nat.digitChar n ∧ Nat.digitChar n ≤ '9' := by decide
        exact ⟨n.digitChar, [], rfl, hdigit n hlt hn⟩
      · obtain ⟨c, s, hs, hc⟩ := ih (n / 10) (by omega) (by omega)
        exact ⟨c, s ++ [Nat.digitChar (n % 10)], by rw [hs]; rfl, hc⟩

/-- A character that may follow a number. -/
structure EndsNumber (c : Char) : Prop where
  not_digit : c.isDigit = false
  not_point : c ≠ '.'
  not_exp : ¬ (c = 'e' ∨ c = 'E')

/-- The greatest number that 32 bits are tried for. -/
def limit32 (minus : Bool) : ℕ := if minus then 2147483648 else 4294967295

/-- The greatest number that 64 bits are tried for. -/
def limit64 (minus : Bool) : ℕ := if minus then 9223372036854775808 else 18446744073709551615

variable {c : Char} {rest : Str}

theorem scans_digits (hlast : last.isDigit = true) {i : ℕ} {s : Str} (hs : ∀ c ∈ s, c.isDigit = true)
    (hle : value i s ≤ limit * 10 + digit last) (hc : c.isDigit = false) :
    Scans (scanWhile Char.isDigit (fits limit last) i : Parser D (ℕ × Bool)) s (c :: rest) (value i s, false) [] :=
  scans_scanWhile false (turns_fits hlast hs hle) hc

/-- The digits of a number that is too great for the loop, up to where it leaves. -/
theorem scans_some_digits (hlast : last.isDigit = true) {i : ℕ} {s : Str} (hs : ∀ c ∈ s, c.isDigit = true)
    (hi : i ≤ limit * 10 + digit last) (hlt : limit * 10 + digit last < value i s) :
    ∃ s₁ s₂, s = s₁ ++ s₂ ∧
      Scans (scanWhile Char.isDigit (fits limit last) i : Parser D (ℕ × Bool)) s₁ (s₂ ++ rest) (value i s₁, true) [] := by
  obtain ⟨s₁, c, s₂, hsplit, hturns, hc, hleave⟩ := turns_leave hlast hs hi hlt
  exact ⟨s₁, c :: s₂, hsplit, scans_scanWhile true hturns ⟨hc, hleave⟩⟩

/-- The first digit of an integer, and the others that fit 32 bits. -/
theorem parseInt_cons (start : ℕ) (minus : Bool) {s₁ : Str} (hc : '1' ≤ c ∧ c ≤ '9') {r : ℕ × Bool}
    (h : Scans (if minus then scanWhile Char.isDigit (fits 214748364 '8') (digit c)
      else scanWhile Char.isDigit (fits 429496729 '5') (digit c) : Parser D (ℕ × Bool)) s₁ rest r []) :
    Scans (parseInt start minus : Parser D (ℕ × Bool)) (c :: s₁) rest r [] := by
  refine scans_peek_bind (c := c) rfl ?_
  have hzero : c ≠ '0' := by
    intro heq
    rw [heq] at hc
    exact absurd hc (by decide)
  rw [if_neg hzero, if_pos hc]
  exact scans_take_bind h

/-- **The two loops over the digits** read a number that fits 64 bits. -/
theorem scans_integer (start : ℕ) (minus : Bool) (rest : Str) {n : ℕ} (hn : n ≤ limit64 minus) (hc : c.isDigit = false) :
    ∃ s₁ s₂ i i64 try64bit, Nat.toDigits 10 n = s₁ ++ s₂ ∧
      Scans (parseInt start minus : Parser D (ℕ × Bool)) s₁ (s₂ ++ c :: rest) (i, try64bit) [] ∧
      Scans (parseInt64 minus i try64bit : Parser D (ℕ × Bool)) s₂ (c :: rest) (i64, false) [] ∧
      (if try64bit then limit32 minus < n ∧ i64 = n else n ≤ limit32 minus ∧ i = n) := by
  rcases Nat.eq_zero_or_pos n with hzero | hpos
  · rw [hzero]
    refine ⟨['0'], [], 0, 0, false, rfl, ?_, scans_pure, Nat.zero_le _, rfl⟩
    exact scans_peek_bind rfl (scans_take_bind scans_pure)
  · obtain ⟨d, s, hds, hd⟩ := toDigits_head hpos
    have hall : ∀ x ∈ d :: s, x.isDigit = true := fun x hx => isDigit_of_mem_toDigits (hds ▸ hx)
    have hs : ∀ x ∈ s, x.isDigit = true := fun x hx => hall x (List.mem_cons_of_mem d hx)
    have hvalue : value (digit d) s = n := by
      have hvalue := value_toDigits n
      rw [hds] at hvalue
      rwa [value, List.foldl_cons, Nat.zero_mul, Nat.zero_add] at hvalue
    have hfirst : digit d ≤ 9 := digit_le (hall d List.mem_cons_self)
    by_cases hsmall : n ≤ limit32 minus
    · refine ⟨d :: s, [], n, 0, false, by rw [hds, List.append_nil], parseInt_cons start minus hd ?_, scans_pure, hsmall,
        rfl⟩
      rw [← hvalue] at hsmall ⊢
      cases minus with
      | true => exact scans_digits rfl hs hsmall hc
      | false => exact scans_digits rfl hs hsmall hc
    · have hbig := Nat.lt_of_not_le hsmall
      have hloop : ∃ s₁ s₂, s = s₁ ++ s₂ ∧ Scans (if minus then scanWhile Char.isDigit (fits 214748364 '8') (digit d)
          else scanWhile Char.isDigit (fits 429496729 '5') (digit d) : Parser D (ℕ × Bool)) s₁ (s₂ ++ c :: rest)
            (value (digit d) s₁, true) [] := by
        rw [← hvalue] at hbig
        cases minus with
        | true => exact scans_some_digits rfl hs (le_trans hfirst (by decide)) hbig
        | false => exact scans_some_digits rfl hs (le_trans hfirst (by decide)) hbig
      obtain ⟨s₁, s₂, hsplit, hscan⟩ := hloop
      have hs₂ : ∀ x ∈ s₂, x.isDigit = true := fun x hx => hs x (hsplit ▸ List.mem_append_right s₁ hx)
      have hvalue₂ : value (value (digit d) s₁) s₂ = n := by
        rw [← hvalue, hsplit, value, value, value, List.foldl_append]
      refine ⟨d :: s₁, s₂, value (digit d) s₁, n, true, by rw [hds, hsplit]; rfl, parseInt_cons start minus hd hscan, ?_,
        hbig, rfl⟩
      rw [← hvalue₂] at hn ⊢
      cases minus with
      | true => exact scans_digits rfl hs₂ hn hc
      | false => exact scans_digits rfl hs₂ hn hc

variable (F : Doubles D)

theorem scans_parseMinus (n : ℕ) (minus : Bool) :
    Scans (parseMinus : Parser D Bool) (if minus then ['-'] else []) (Nat.toDigits 10 n ++ rest) minus [] := by
  cases minus with
  | true => exact scans_peek_bind rfl (scans_take_bind scans_pure)
  | false =>
      obtain ⟨d, s, hds⟩ := List.exists_cons_of_ne_nil (Nat.toDigits_ne_nil (n := n) (b := 10))
      have hd : d.isDigit = true := isDigit_of_mem_toDigits (hds ▸ List.mem_cons_self)
      have hne : d ≠ '-' := by
        intro heq
        rw [heq] at hd
        exact absurd hd (by decide)
      refine scans_peek_bind (c := d) (by rw [hds]; rfl) ?_
      rw [if_neg hne]
      exact scans_pure

/-- The type of the number, by what the reader knows at its end. -/
theorem ofText_eq {z : ℤ} {minus try64bit : Bool} {i i64 : ℕ} (hminus : minus = decide (z < 0))
    (hcase : if try64bit then limit32 minus < z.natAbs ∧ i64 = z.natAbs else z.natAbs ≤ limit32 minus ∧ i = z.natAbs) :
    (Number.ofText z : Number D) =
      if try64bit then if minus then .int64 (-BitVec.ofNat 64 i64) else .uint64 (BitVec.ofNat 64 i64)
      else if minus then .int (-BitVec.ofNat 32 i) else .uint (BitVec.ofNat 32 i) := by
  by_cases hneg : z < 0
  · have hminus : minus = true := hminus.trans (decide_eq_true hneg)
    rw [limit32, hminus, if_pos rfl] at hcase
    rw [Number.ofText, if_neg (Int.not_le.mpr hneg), hminus, if_pos rfl, if_pos rfl]
    cases try64bit with
    | true => rw [if_neg (Nat.not_le_of_lt hcase.1), if_pos rfl, hcase.2]
    | false => rw [if_pos hcase.1, if_neg Bool.false_ne_true, hcase.2]
  · have hminus : minus = false := hminus.trans (decide_eq_false hneg)
    rw [limit32, hminus, if_neg Bool.false_ne_true] at hcase
    rw [Number.ofText, if_pos (Int.not_lt.mp hneg), hminus, if_neg Bool.false_ne_true, if_neg Bool.false_ne_true]
    cases try64bit with
    | true => rw [if_neg (Nat.not_le_of_lt hcase.1), if_pos rfl, hcase.2]
    | false => rw [if_pos hcase.1, if_neg Bool.false_ne_true, hcase.2]

/-- **An integer** is read as a number of the type that the reader tries. -/
theorem scans_parseNumber (rest : Str) (hc : EndsNumber c) {z : ℤ} (hle : -2 ^ 63 ≤ z) (hlt : z < 2 ^ 64) :
    Scans (parseNumber F) (decimal z) (c :: rest) () [.number (.ofText z)] := by
  obtain ⟨minus, hminus⟩ : ∃ minus, minus = decide (z < 0) := ⟨_, rfl⟩
  have hdecimal : decimal z = (if minus then ['-'] else []) ++ Nat.toDigits 10 z.natAbs := by
    rw [decimal, hminus]
    by_cases hneg : z < 0 <;> simp [hneg]
  have hbound : z.natAbs ≤ limit64 minus := by
    rw [limit64, hminus]
    split_ifs with h <;> simp only [decide_eq_true_eq] at h <;> omega
  refine scans_tell_bind fun start => ?_
  obtain ⟨s₁, s₂, i, i64, try64bit, hdigits, hint, hint64, hcase⟩ :=
    scans_integer (D := D) start minus rest hbound hc.not_digit
  have hfrac : Scans (parseFrac F start (if try64bit then i64 else i) none) [] (c :: rest) (none, 0) [] := by
    refine scans_peek_bind rfl ?_
    rw [if_neg hc.not_point]
    exact scans_pure
  have hexp : Scans (parseExp F start (if try64bit then i64 else i) none) [] (c :: rest) (none, 0) [] := by
    refine scans_peek_bind rfl ?_
    rw [if_neg hc.not_exp]
    exact scans_pure
  have hfinish : Scans (finishNumber F minus i i64 try64bit none (0 + 0)) [] (c :: rest) () [.number (.ofText z)] := by
    rw [finishNumber, ofText_eq hminus hcase]
    cases try64bit <;> cases minus <;> exact scans_report _
  have hsign : Scans (parseMinus : Parser D Bool) (if minus then ['-'] else []) ((s₁ ++ s₂) ++ c :: rest) minus [] :=
    hdigits ▸ scans_parseMinus z.natAbs minus
  rw [hdecimal, hdigits]
  refine Scans.after hsign ?_
  refine Scans.after hint ?_
  refine Scans.last hint64 ?_
  refine Scans.last scans_pure ?_
  refine Scans.last hfrac ?_
  exact Scans.last hexp hfinish

end Digits

/-! ### Strings -/

section Strings

variable {start n : ℕ} {buffer rest : Str} {c : Char} {s : Str} {es : List (Event D)}

theorem hexDigit?_hexDigit : ∀ x < 16, hexDigit? (hexDigit x) = some x := by decide

/-- A hexadecimal digit of the writer. -/
theorem scans_hexDigits {i codepoint x y : ℕ} (hx : x < 16)
    (h : Scans (hexDigits i (codepoint * 16 + x) : Parser D ℕ) s rest y []) :
    Scans (hexDigits (i + 1) codepoint : Parser D ℕ) (hexDigit x :: s) rest y [] := by
  refine scans_take_bind ?_
  rw [hexDigit?_hexDigit x hx]
  exact h

/-- A control character, as the writer has it. -/
theorem scans_parseUnicode (hc : c.toNat < 32) : Scans (parseUnicode : Parser D Str)
    ['0', '0', hexDigit (c.toNat / 16), hexDigit (c.toNat % 16)] rest [c] [] := by
  have hhex : Scans (parseHex4 : Parser D ℕ) ['0', '0', hexDigit (c.toNat / 16), hexDigit (c.toNat % 16)] rest
      c.toNat [] := by
    have hvalue : (((0 * 16 + 0) * 16 + 0) * 16 + c.toNat / 16) * 16 + c.toNat % 16 = c.toNat := by omega
    have hlast : Scans (hexDigits 0 c.toNat : Parser D ℕ) [] rest c.toNat [] := scans_pure
    rw [← hvalue] at hlast
    refine scans_hexDigits (x := 0) (by decide) (scans_hexDigits (x := 0) (by decide) ?_)
    have hscan := scans_hexDigits (by omega) (scans_hexDigits (by omega) hlast)
    rwa [hvalue] at hscan
  have hbyte : byte c.toNat = c := by
    rw [byte, Nat.mod_eq_of_lt (by omega), Char.ofNat_toNat]
  refine Scans.last hhex ?_
  dsimp only
  rw [if_neg (by omega)]
  refine Scans.last scans_pure ?_
  rw [encode, if_pos (by omega), hbyte]
  exact scans_pure

/-- A character of a string, escaped or not. -/
theorem scans_char (h : Scans (parseChars start n (buffer ++ [c])) s rest () es) :
    Scans (parseChars start (n + 1) buffer) (escapeChar c ++ s) rest () es := by
  have hescape : ∀ e, escape? e = some c → escapeChar c = ['\\', e] →
      Scans (parseChars start (n + 1) buffer) (escapeChar c ++ s) rest () es := by
    intro e he heq
    rw [heq]
    refine scans_take_bind ?_
    rw [if_pos rfl]
    refine scans_take_bind ?_
    rw [he]
    exact h
  by_cases hquote : c = '"'
  · exact hescape '"' (by rw [hquote]; rfl) (by rw [hquote]; rfl)
  by_cases hbackslash : c = '\\'
  · exact hescape '\\' (by rw [hbackslash]; rfl) (by rw [hbackslash]; rfl)
  by_cases hb : c = '\x08'
  · exact hescape 'b' (by rw [hb]; rfl) (by rw [hb]; rfl)
  by_cases ht : c = '\t'
  · exact hescape 't' (by rw [ht]; rfl) (by rw [ht]; rfl)
  by_cases hn : c = '\n'
  · exact hescape 'n' (by rw [hn]; rfl) (by rw [hn]; rfl)
  by_cases hf : c = '\x0c'
  · exact hescape 'f' (by rw [hf]; rfl) (by rw [hf]; rfl)
  by_cases hr : c = '\r'
  · exact hescape 'r' (by rw [hr]; rfl) (by rw [hr]; rfl)
  rw [escapeChar, if_neg hquote, if_neg hbackslash, if_neg hb, if_neg ht, if_neg hn, if_neg hf, if_neg hr]
  by_cases hcontrol : c.toNat < 32
  · rw [if_pos hcontrol]
    refine scans_take_bind ?_
    rw [if_pos rfl]
    refine scans_take_bind ?_
    exact (scans_parseUnicode hcontrol).after h
  · have hnul : c ≠ '\x00' := by
      intro heq
      rw [heq] at hcontrol
      exact hcontrol (by decide)
    rw [if_neg hcontrol]
    refine scans_take_bind ?_
    rw [if_neg hbackslash, if_neg hquote, if_neg hnul, if_neg hcontrol]
    exact h

theorem scans_parseChars (t : Str) (hn : t.length < n) :
    Scans (parseChars start n buffer : Parser D Unit) (t.flatMap escapeChar ++ ['"']) rest () [.string (buffer ++ t)] := by
  induction t generalizing n buffer with
  | nil =>
      obtain ⟨n, rfl⟩ := Nat.exists_eq_add_of_lt hn
      rw [List.append_nil]
      refine scans_take_bind ?_
      rw [if_neg (by decide), if_pos rfl]
      exact scans_report _
  | cons c t ih =>
      cases n with
      | zero => exact absurd hn (Nat.not_lt_zero _)
      | succ n =>
          rw [List.flatMap_cons, List.append_assoc]
          have hchars : buffer ++ c :: t = (buffer ++ [c]) ++ t := by
            rw [List.append_assoc]
            rfl
          rw [hchars]
          exact scans_char (ih (Nat.lt_of_succ_lt_succ hn))

/-- **A string** is read as it was. -/
theorem scans_parseString (t : Str) : Scans (parseString : Parser D Unit) (writeString t) rest () [.string t] := by
  have hlen : t.length ≤ (t.flatMap escapeChar).length := by
    induction t with
    | nil => exact Nat.zero_le _
    | cons c t ih =>
        have hpos := length_escapeChar_pos c
        rw [List.flatMap_cons, List.length_append, List.length_cons]
        omega
  refine scans_tell_bind fun start => ?_
  refine scans_peek_bind (c := '"') rfl ?_
  rw [if_pos rfl]
  refine scans_take_bind (scans_left_bind (scans_parseChars t ?_))
  show t.length < (t.flatMap escapeChar ++ ['"'] ++ rest).length
  rw [List.length_append, List.length_append, List.length_singleton]
  omega

end Strings

/-! ### Values -/

section Values

/-- A layout of white space. -/
structure Blank (L : Layout) : Prop where
  line : ∀ depth, ∀ c ∈ L.line depth, isWhitespace c = true
  colon : ∀ c ∈ L.colon, isWhitespace c = true

theorem compact_blank : Blank compact :=
  ⟨fun _ _ h => absurd h List.not_mem_nil, fun _ h => absurd h List.not_mem_nil⟩

theorem indented_blank (i : Indent) : Blank (indented i) := by
  have hindent : isWhitespace i.indentChar = true := by
    rcases i.blank with h | h | h | h <;> rw [h] <;> rfl
  refine ⟨fun depth c h => ?_, fun c h => ?_⟩
  · rcases List.mem_cons.mp h with heq | hmem
    · rw [heq]
      rfl
    · rw [List.eq_of_mem_replicate hmem]
      exact hindent
  · rw [List.mem_singleton.mp h]
    rfl

/-- A text that may follow a value. -/
def MayFollow (rest : Str) : Prop := ∃ c src, rest = c :: src ∧ EndsNumber c

theorem mayFollow_cons {c : Char} (hc : EndsNumber c) (src : Str) : MayFollow (c :: src) := ⟨c, src, rfl, hc⟩

theorem mayFollow_blank {s : Str} (hs : ∀ c ∈ s, isWhitespace c = true) {rest : Str} (hrest : MayFollow rest) :
    MayFollow (s ++ rest) := by
  cases s with
  | nil => exact hrest
  | cons c s =>
      refine mayFollow_cons ?_ (s ++ rest)
      have hc := hs c List.mem_cons_self
      simp only [isWhitespace, Bool.or_eq_true, decide_eq_true_eq] at hc
      rcases hc with ((hc | hc) | hc) | hc <;> rw [hc] <;> exact ⟨by decide, by decide, by decide⟩

theorem scans_skipWhitespace {s rest : Str} {c : Char} (hs : ∀ x ∈ s, isWhitespace x = true) (hc : isWhitespace c = false) :
    Scans (skipWhitespace : Parser D Unit) s (c :: rest) () [] :=
  scans_skipWhile hs hc

variable (format : D → Str) (L : Layout)

/-- Elements of an array, with commas between them. -/
def joinElements (depth : ℕ) : List (Value D) → Str
  | [] => []
  | v :: es => v.text format L depth ++ elementTexts format L depth es

/-- Members of an object, with commas between them. -/
def joinMembers (depth : ℕ) : List (Str × Value D) → Str
  | [] => []
  | (n, v) :: ms => writeString n ++ ':' :: (L.colon ++ (v.text format L depth ++ memberTexts format L depth ms))

theorem text_array {es : List (Value D)} (hes : es ≠ []) (depth : ℕ) : (Value.array es).text format L depth =
    '[' :: (L.line (depth + 1) ++ (joinElements format L (depth + 1) es ++ (L.line depth ++ [']']))) := by
  obtain ⟨v, es, rfl⟩ := List.exists_cons_of_ne_nil hes
  simp [Value.text, joinElements]

theorem text_object {ms : List (Str × Value D)} (hms : ms ≠ []) (depth : ℕ) : (Value.object ms).text format L depth =
    '{' :: (L.line (depth + 1) ++ (joinMembers format L (depth + 1) ms ++ (L.line depth ++ ['}']))) := by
  obtain ⟨⟨n, v⟩, ms, rfl⟩ := List.exists_cons_of_ne_nil hms
  simp [Value.text, joinMembers]

theorem joinElements_cons {v v' : Value D} {es : List (Value D)} (depth : ℕ) :
    joinElements format L depth (v :: v' :: es) =
      v.text format L depth ++ ',' :: (L.line depth ++ joinElements format L depth (v' :: es)) := by
  simp [joinElements, elementTexts]

theorem joinMembers_cons {n : Str} {v : Value D} {m : Str × Value D} {ms : List (Str × Value D)} (depth : ℕ) :
    joinMembers format L depth ((n, v) :: m :: ms) =
      writeString n ++ ':' :: (L.colon ++ (v.text format L depth ++ ',' :: (L.line depth ++
        joinMembers format L depth (m :: ms)))) := by
  simp [joinMembers, memberTexts]

/-- The first character of a value. -/
theorem text_cons {v : Value D} (hv : v.integral = true) (depth : ℕ) :
    ∃ c s, v.text format L depth = c :: s ∧ isWhitespace c = false ∧ c ≠ ']' := by
  match v, hv with
  | .null, _ => exact ⟨'n', _, rfl, rfl, by decide⟩
  | .bool true, _ => exact ⟨'t', _, rfl, rfl, by decide⟩
  | .bool false, _ => exact ⟨'f', _, rfl, rfl, by decide⟩
  | .string s, _ => exact ⟨'"', _, rfl, rfl, by decide⟩
  | .array [], _ => exact ⟨'[', _, rfl, rfl, by decide⟩
  | .array (v :: es), _ => exact ⟨'[', _, rfl, rfl, by decide⟩
  | .object [], _ => exact ⟨'{', _, rfl, rfl, by decide⟩
  | .object ((n, v) :: ms), _ => exact ⟨'{', _, rfl, rfl, by decide⟩
  | .number n, hv =>
      obtain ⟨z, hz⟩ := Option.isSome_iff_exists.mp hv
      obtain ⟨c, s, hdecimal, hc⟩ := decimal_cons z
      refine ⟨c, s, (text_of_value hz).trans hdecimal, ?_⟩
      rcases hc with hc | hc
      · have hbounds := isDigit_bounds hc
        have hne : ∀ x : Char, x.toNat < 48 ∨ 57 < x.toNat → c ≠ x := by
          intro x hx heq
          rw [heq] at hbounds
          omega
        refine ⟨?_, hne _ (by decide)⟩
        rw [isWhitespace, decide_eq_false (hne ' ' (by decide)), decide_eq_false (hne '\n' (by decide)),
          decide_eq_false (hne '\r' (by decide)), decide_eq_false (hne '\t' (by decide))]
        rfl
      · rw [hc]
        exact ⟨rfl, by decide⟩

theorem scans_takes (xs rest : Str) : Scans (takes xs : Parser D Bool) xs rest true [] := by
  induction xs with
  | nil => exact scans_pure
  | cons x xs ih =>
      refine scans_take_bind ?_
      rw [if_pos rfl]
      exact ih

theorem scans_parseLiteral (first : Char) (xs rest : Str) (e : Event D) (back : ℕ) :
    Scans (parseLiteral first xs e back) (first :: xs) rest () [e] := by
  refine scans_peek_bind (c := first) rfl ?_
  rw [if_pos rfl]
  refine scans_take_bind ?_
  exact Scans.last (scans_takes xs rest) (scans_report e)

variable {format L} (F : Doubles D) {rest : Str}

/-- A number among the values. -/
theorem scans_parseValue_number {m : Number D} (hm : m.value?.isSome = true) (n : ℕ) (hrest : MayFollow rest) :
    Scans (parseValue F (n + 1)) (m.text format) rest () [.number m.reread] := by
  obtain ⟨z, hz⟩ := Option.isSome_iff_exists.mp hm
  obtain ⟨c, src, rfl, hc⟩ := hrest
  obtain ⟨d, s, hdecimal, hd⟩ := decimal_cons z
  have hbounds := Number.value?_bounds hz
  have hreread : m.reread = .ofText z := by rw [Number.reread, hz]
  have hnumber := scans_parseNumber F src hc hbounds.1 hbounds.2
  have hne : ∀ x : Char, x.toNat ≠ 45 → x.toNat < 48 ∨ 57 < x.toNat → d ≠ x := by
    intro x hx hx' heq
    rcases hd with hd | hd
    · have hdigit := isDigit_bounds hd
      rw [heq] at hdigit
      omega
    · rw [← heq, hd] at hx
      exact hx rfl
  rw [text_of_value hz, hreread, parseValue]
  refine scans_peek_bind (c := d) (by rw [hdecimal]; rfl) ?_
  rw [if_neg (hne 'n' (by decide) (by decide)), if_neg (hne 't' (by decide) (by decide)),
    if_neg (hne 'f' (by decide) (by decide)), if_neg (hne '"' (by decide) (by decide)),
    if_neg (hne '{' (by decide) (by decide)), if_neg (hne '[' (by decide) (by decide))]
  exact hnumber

theorem endsNumber_comma : EndsNumber ',' := ⟨rfl, by decide, by decide⟩

theorem endsNumber_bracket : EndsNumber ']' := ⟨rfl, by decide, by decide⟩

theorem endsNumber_brace : EndsNumber '}' := ⟨rfl, by decide, by decide⟩

/-- The white space at the end of an array or an object. -/
theorem mayFollow_close {close : Str} (hclose : ∀ x ∈ close, isWhitespace x = true) {c : Char} (hc : EndsNumber c)
    (rest : Str) : MayFollow ((close ++ [c]) ++ rest) := by
  rw [List.append_assoc]
  exact mayFollow_blank hclose (mayFollow_cons hc rest)

/-- An array, by its elements. -/
theorem scans_parseArray (rest : Str) (hL : Blank L) (es : List (Value D)) (hint : integralElements es = true) (depth : ℕ)
    {n : ℕ}
    (hn : 3 * ((Value.array es).text format L depth).length + 1 ≤ n)
    (helements : es ≠ [] → ∀ n, 3 * (joinElements format L (depth + 1) es ++ (L.line depth ++ [']'])).length + 3 ≤ n →
      Scans (parseElements F n 0) (joinElements format L (depth + 1) es ++ (L.line depth ++ [']'])) rest ()
        (elementEvents Number.reread es ++ [.endArray (0 + es.length)])) :
    Scans (parseArray F n) ((Value.array es).text format L depth) rest () ((Value.array es).events Number.reread) := by
  cases n with
  | zero => exact absurd hn (Nat.not_succ_le_zero _)
  | succ n =>
      rw [parseArray]
      by_cases hes : es = []
      · rw [hes]
        refine scans_peek_bind (c := '[') rfl ?_
        rw [if_pos rfl]
        refine scans_take_bind (scans_report_bind ?_)
        refine Scans.after (s := []) (scans_skipWhitespace (fun _ h => absurd h List.not_mem_nil) rfl) ?_
        refine scans_peek_bind (c := ']') rfl ?_
        rw [if_pos rfl]
        exact scans_take_bind (scans_report _)
      · have hscan := helements hes n
        rw [text_array format L hes] at hn ⊢
        rw [List.length_cons, List.length_append] at hn
        replace hscan := hscan (by omega)
        obtain ⟨v, es, rfl⟩ := List.exists_cons_of_ne_nil hes
        obtain ⟨c, s, hhead, hblank, hne⟩ := text_cons format L ((Bool.and_eq_true_iff.mp hint).1) (depth + 1)
        have hjoin : ∃ s, joinElements format L (depth + 1) (v :: es) ++ (L.line depth ++ [']']) = c :: s := by
          rw [joinElements, hhead]
          exact ⟨_, rfl⟩
        obtain ⟨s', hjoin⟩ := hjoin
        rw [Nat.zero_add] at hscan
        refine scans_peek_bind (c := '[') rfl ?_
        rw [if_pos rfl]
        refine scans_take_bind (scans_report_bind ?_)
        refine Scans.after (a := ()) ?_ (scans_peek_bind (c := c) (by rw [hjoin]; rfl) ?_)
        · rw [hjoin]
          exact scans_skipWhitespace (hL.line (depth + 1)) hblank
        · rw [if_neg hne]
          exact hscan

/-- An object, by its members. -/
theorem scans_parseObject (rest : Str) (hL : Blank L) (ms : List (Str × Value D)) (depth : ℕ) {n : ℕ}
    (hn : 3 * ((Value.object ms).text format L depth).length + 1 ≤ n)
    (hmembers : ms ≠ [] → ∀ n, 3 * (joinMembers format L (depth + 1) ms ++ (L.line depth ++ ['}'])).length + 3 ≤ n →
      Scans (parseMembers F n 0) (joinMembers format L (depth + 1) ms ++ (L.line depth ++ ['}'])) rest ()
        (memberEvents Number.reread ms ++ [.endObject (0 + ms.length)])) :
    Scans (parseObject F n) ((Value.object ms).text format L depth) rest () ((Value.object ms).events Number.reread) := by
  cases n with
  | zero => exact absurd hn (Nat.not_succ_le_zero _)
  | succ n =>
      rw [parseObject]
      by_cases hms : ms = []
      · rw [hms]
        refine scans_peek_bind (c := '{') rfl ?_
        rw [if_pos rfl]
        refine scans_take_bind (scans_report_bind ?_)
        refine Scans.after (s := []) (scans_skipWhitespace (fun _ h => absurd h List.not_mem_nil) rfl) ?_
        refine scans_peek_bind (c := '}') rfl ?_
        rw [if_pos rfl]
        exact scans_take_bind (scans_report _)
      · have hscan := hmembers hms n
        rw [text_object format L hms] at hn ⊢
        rw [List.length_cons, List.length_append] at hn
        replace hscan := hscan (by omega)
        obtain ⟨⟨name, v⟩, ms, rfl⟩ := List.exists_cons_of_ne_nil hms
        have hjoin : ∃ s, joinMembers format L (depth + 1) ((name, v) :: ms) ++ (L.line depth ++ ['}']) = '"' :: s :=
          ⟨_, rfl⟩
        obtain ⟨s', hjoin⟩ := hjoin
        rw [Nat.zero_add] at hscan
        refine scans_peek_bind (c := '{') rfl ?_
        rw [if_pos rfl]
        refine scans_take_bind (scans_report_bind ?_)
        refine Scans.after (a := ()) ?_ (scans_peek_bind (c := '"') (by rw [hjoin]; rfl) ?_)
        · rw [hjoin]
          exact scans_skipWhitespace (hL.line (depth + 1)) rfl
        · rw [if_neg (by decide)]
          exact hscan

/-- The name of a member, the colon and the white space behind it. -/
theorem scans_member {q : Unit → Parser D Unit} {name colon s : Str} {es : List (Event D)}
    {noColon noName : Parser D Unit}
    (hcolon : Scans (skipWhitespace : Parser D Unit) colon (s ++ rest) () []) (hq : Scans (q ()) s rest () es) :
    Scans (do
      let c ← peek
      if c = '"' then do
        parseString
        skipWhitespace
        let c ← take
        if c = ':' then do
          let r ← skipWhitespace
          q r
        else noColon
      else noName) (writeString name ++ ':' :: (colon ++ s)) rest () (.string name :: es) := by
  refine scans_peek_bind (c := '"') rfl ?_
  rw [if_pos rfl]
  show Scans _ _ rest () ([.string name] ++ es)
  refine (scans_parseString name).bind ?_
  refine Scans.after (s := []) (scans_skipWhitespace (fun _ h => absurd h List.not_mem_nil) rfl) ?_
  refine scans_take_bind ?_
  rw [if_pos rfl]
  exact Scans.after hcolon hq

mutual

/-- **A value** is read from its text. -/
theorem scans_parseValue (hL : Blank L) (v : Value D) (hv : v.integral = true) (depth : ℕ) {n : ℕ}
    (hn : 3 * (v.text format L depth).length + 2 ≤ n) {rest : Str} (hrest : MayFollow rest) :
    Scans (parseValue F n) (v.text format L depth) rest () (v.events Number.reread) := by
  cases n with
  | zero => exact absurd hn (Nat.not_succ_le_zero _)
  | succ n =>
      match v, hv with
      | .null, _ => exact scans_peek_bind (c := 'n') rfl (scans_parseLiteral 'n' ['u', 'l', 'l'] rest .null 1)
      | .bool true, _ => exact scans_peek_bind (c := 't') rfl (scans_parseLiteral 't' ['r', 'u', 'e'] rest (.bool true) 0)
      | .bool false, _ =>
          exact scans_peek_bind (c := 'f') rfl (scans_parseLiteral 'f' ['a', 'l', 's', 'e'] rest (.bool false) 1)
      | .string s, _ => exact scans_peek_bind (c := '"') rfl (scans_parseString s)
      | .number m, hv => exact scans_parseValue_number F hv n hrest
      | .array es, hv =>
          have harray := scans_parseArray F rest hL es hv depth (n := n) (Nat.le_of_succ_le_succ hn)
            fun hes k hk => scans_parseElements hL es hes hv (depth + 1) 0 (hL.line depth) hk rest
          have hhead : ∃ s, (Value.array es).text format L depth = '[' :: s := by
            cases es <;> exact ⟨_, rfl⟩
          obtain ⟨s, hs⟩ := hhead
          exact scans_peek_bind (c := '[') (by rw [hs]; rfl) harray
      | .object ms, hv =>
          have hobject := scans_parseObject F rest hL ms depth (n := n) (Nat.le_of_succ_le_succ hn)
            fun hms k hk => scans_parseMembers hL ms hms hv (depth + 1) 0 (hL.line depth) hk rest
          have hhead : ∃ s, (Value.object ms).text format L depth = '{' :: s := by
            cases ms <;> exact ⟨_, rfl⟩
          obtain ⟨s, hs⟩ := hhead
          exact scans_peek_bind (c := '{') (by rw [hs]; rfl) hobject

/-- The elements of an array, behind some that have been read. -/
theorem scans_parseElements (hL : Blank L) (es : List (Value D)) (hes : es ≠ []) (hint : integralElements es = true)
    (depth elementCount : ℕ) {n : ℕ} {close : Str} (hclose : ∀ x ∈ close, isWhitespace x = true)
    (hn : 3 * (joinElements format L depth es ++ (close ++ [']'])).length + 3 ≤ n) (rest : Str) :
    Scans (parseElements F n elementCount) (joinElements format L depth es ++ (close ++ [']'])) rest ()
      (elementEvents Number.reread es ++ [.endArray (elementCount + es.length)]) := by
  cases n with
  | zero => exact absurd hn (Nat.not_succ_le_zero _)
  | succ n =>
      match es, hes, hint with
      | [v], _, hint =>
          have hv := (Bool.and_eq_true_iff.mp hint).1
          have hone : joinElements format L depth [v] = v.text format L depth := List.append_nil _
          rw [hone, List.length_append] at hn
          rw [hone, elementEvents, elementEvents, List.append_nil, parseElements]
          refine Scans.bind (scans_parseValue hL v hv depth (by omega) (mayFollow_close hclose endsNumber_bracket rest)) ?_
          refine Scans.after (scans_skipWhitespace hclose rfl) (scans_take_bind ?_)
          rw [if_neg (by decide), if_pos rfl]
          exact scans_report _
      | v :: v' :: es, _, hint =>
          have hv := (Bool.and_eq_true_iff.mp hint).1
          have hint' := (Bool.and_eq_true_iff.mp hint).2
          obtain ⟨c, s, hhead, hblank, -⟩ := text_cons format L ((Bool.and_eq_true_iff.mp hint').1) depth
          rw [joinElements_cons] at hn ⊢
          rw [List.append_assoc, List.cons_append, List.append_assoc] at hn ⊢
          rw [List.length_append, List.length_cons, List.length_append] at hn
          rw [elementEvents, List.append_assoc, parseElements]
          refine Scans.bind (scans_parseValue hL v hv depth (by omega) (mayFollow_cons endsNumber_comma _)) ?_
          refine Scans.after (s := []) (scans_skipWhitespace (fun _ h => absurd h List.not_mem_nil) rfl) ?_
          refine scans_take_bind ?_
          rw [if_pos rfl]
          have hscan := scans_parseElements hL (v' :: es) (List.cons_ne_nil v' es) hint' depth (elementCount + 1) (n := n)
            hclose (by omega) rest
          rw [Nat.add_assoc, Nat.add_comm 1] at hscan
          refine Scans.after (a := ()) ?_ hscan
          rw [joinElements, hhead]
          exact scans_skipWhitespace (hL.line depth) hblank

/-- The members of an object, behind some that have been read. -/
theorem scans_parseMembers (hL : Blank L) (ms : List (Str × Value D)) (hms : ms ≠ []) (hint : integralMembers ms = true)
    (depth memberCount : ℕ) {n : ℕ} {close : Str} (hclose : ∀ x ∈ close, isWhitespace x = true)
    (hn : 3 * (joinMembers format L depth ms ++ (close ++ ['}'])).length + 3 ≤ n) (rest : Str) :
    Scans (parseMembers F n memberCount) (joinMembers format L depth ms ++ (close ++ ['}'])) rest ()
      (memberEvents Number.reread ms ++ [.endObject (memberCount + ms.length)]) := by
  cases n with
  | zero => exact absurd hn (Nat.not_succ_le_zero _)
  | succ n =>
      match ms, hms, hint with
      | [(name, v)], _, hint =>
          have hv := (Bool.and_eq_true_iff.mp hint).1
          obtain ⟨c, s, hhead, hblank, -⟩ := text_cons format L hv depth
          have hone : joinMembers format L depth [(name, v)] =
              writeString name ++ ':' :: (L.colon ++ v.text format L depth) := by
            rw [joinMembers, memberTexts, List.append_nil]
          rw [hone, List.append_assoc, List.cons_append, List.append_assoc] at hn ⊢
          rw [List.length_append, List.length_cons, List.length_append, List.length_append] at hn
          rw [memberEvents, memberEvents, List.append_nil, parseMembers]
          refine scans_member ?_ ?_
          · rw [hhead]
            exact scans_skipWhitespace hL.colon hblank
          · refine Scans.bind (scans_parseValue hL v hv depth (by omega)
              (mayFollow_close hclose endsNumber_brace rest)) ?_
            refine Scans.after (scans_skipWhitespace hclose rfl) (scans_take_bind ?_)
            rw [if_neg (by decide), if_pos rfl]
            exact scans_report _
      | (name, v) :: m :: ms, _, hint =>
          have hv := (Bool.and_eq_true_iff.mp hint).1
          have hint' := (Bool.and_eq_true_iff.mp hint).2
          obtain ⟨c, s, hhead, hblank, -⟩ := text_cons format L hv depth
          rw [joinMembers_cons, List.append_assoc, List.cons_append, List.append_assoc, List.append_assoc,
            List.cons_append, List.append_assoc] at hn ⊢
          rw [List.length_append, List.length_cons, List.length_append, List.length_append, List.length_cons,
            List.length_append] at hn
          rw [memberEvents, List.append_assoc, parseMembers]
          refine scans_member ?_ ?_
          · rw [hhead]
            exact scans_skipWhitespace hL.colon hblank
          · refine Scans.bind (scans_parseValue hL v hv depth (by omega) (mayFollow_cons endsNumber_comma _)) ?_
            refine Scans.after (s := []) (scans_skipWhitespace (fun _ h => absurd h List.not_mem_nil) rfl) ?_
            refine scans_take_bind ?_
            rw [if_pos rfl]
            have hscan := scans_parseMembers hL (m :: ms) (List.cons_ne_nil m ms) hint' depth (memberCount + 1) (n := n)
              hclose (by omega) rest
            rw [Nat.add_assoc, Nat.add_comm 1] at hscan
            refine Scans.after (a := ()) ?_ hscan
            exact scans_skipWhitespace (hL.line depth) rfl

end

/-- **A text with its layout** is read as the value, with white space around it and whatever memory there is behind. -/
theorem parse_text (hL : Blank L) {v : Value D} (hroot : v.isContainer = true) (hv : v.integral = true) {before after : Str}
    (hbefore : ∀ x ∈ before, isWhitespace x = true) (hafter : ∀ x ∈ after, isWhitespace x = true) (memory : Str) :
    parse F ((before ++ (v.text format L 0 ++ after)) ++ '\x00' :: memory) = .ok (v.events Number.reread) := by
  have hend : ∀ {q : Unit → Parser D Unit}, q () = (do
      skipWhitespace
      let c ← peek
      let offset ← tell
      if c = '\x00' then pure () else fail "Nothing should follow the root object or array." offset) →
      Scans (q ()) after ('\x00' :: memory) () [] := by
    intro q hq
    rw [hq]
    refine Scans.last (scans_skipWhitespace hafter rfl) (scans_peek_bind (c := '\x00') rfl
      (scans_tell_bind fun offset => ?_))
    rw [if_pos rfl]
    exact scans_pure
  have hscan : Scans (parseRoot F) (before ++ (v.text format L 0 ++ after)) ('\x00' :: memory) ()
      (v.events Number.reread) := by
    have hroom : 3 * (v.text format L 0).length + 1 ≤
        fuelFor (v.text format L 0 ++ after ++ '\x00' :: memory).length := by
      rw [fuelFor, List.length_append, List.length_append]
      omega
    match v, hroot, hv with
    | .array es, _, hv =>
        have hhead : ∃ s, (Value.array es).text format L 0 = '[' :: s := by
          cases es <;> exact ⟨_, rfl⟩
        obtain ⟨s, hs⟩ := hhead
        have harray := scans_parseArray F (after ++ '\x00' :: memory) hL es hv 0 hroom
          fun hes k hk => scans_parseElements F hL es hes hv 1 0 (hL.line 0) hk _
        refine Scans.after (a := ()) (by rw [hs]; exact scans_skipWhitespace hbefore rfl) ?_
        refine scans_peek_bind (c := '[') (by rw [hs]; rfl) (scans_tell_bind fun offset => ?_)
        rw [if_neg (by decide)]
        refine scans_left_bind ?_
        have hbind := Scans.bind harray (hend (q := fun _ => _) rfl)
        rw [List.append_nil] at hbind
        exact hbind
    | .object ms, _, hv =>
        have hhead : ∃ s, (Value.object ms).text format L 0 = '{' :: s := by
          cases ms <;> exact ⟨_, rfl⟩
        obtain ⟨s, hs⟩ := hhead
        have hobject := scans_parseObject F (after ++ '\x00' :: memory) hL ms 0 hroom
          fun hms k hk => scans_parseMembers F hL ms hms hv 1 0 (hL.line 0) hk _
        refine Scans.after (a := ()) (by rw [hs]; exact scans_skipWhitespace hbefore rfl) ?_
        refine scans_peek_bind (c := '{') (by rw [hs]; rfl) (scans_tell_bind fun offset => ?_)
        rw [if_neg (by decide)]
        refine scans_left_bind ?_
        have hbind := Scans.bind hobject (hend (q := fun _ => _) rfl)
        rw [List.append_nil] at hbind
        exact hbind
  rw [parse, hscan 0 []]
  rfl

end Values

end Reader

/-! ### Documents -/

section Documents

variable {format : D → Str}

theorem layout_blank : ∀ i, Reader.Blank (layout i)
  | none => Reader.compact_blank
  | some i => Reader.indented_blank i

/-- Other types for the same integers do not show. -/
theorem accept_map_reread (v : Value D) : (v.map Number.reread).accept = v.accept := by
  rw [Value.accept, Value.events_map, Value.accept]
  congr 1
  exact funext Number.accept_reread

/-- The text of a document, parsed into a document. -/
theorem parse_layout (F : Doubles D) (i : Option Indent) {v : Value D} (hroot : v.isContainer = true)
    (hv : v.integral = true) {doc : Document D} (hstack : doc.stack = []) (memory : Str) :
    doc.parse F (v.text format (layout i) 0 ++ '\x00' :: memory) = some ⟨v.map Number.reread, [], none, 0⟩ := by
  have hparse : Reader.parse F (([] ++ (v.text format (layout i) 0 ++ [])) ++ '\x00' :: memory) =
      .ok (v.events Number.reread) :=
    Reader.parse_text F (layout_blank i) hroot hv (fun _ h => absurd h List.not_mem_nil)
      (fun _ h => absurd h List.not_mem_nil) memory
  rw [List.nil_append, List.append_nil] at hparse
  rw [Document.parse, hparse, hstack]
  show (Document.handleAll [] (v.events Number.reread)).bind _ = _
  rw [Document.handleAll_events]
  rfl

/-- **A document is written and read again.**  The text that either writer makes of an array or an object without
floating point numbers, with a NUL behind it, is parsed without error into a document that `Accept` does not tell from
the first. -/
theorem document_round_trip (F : Doubles D) (hformat : ∀ d, 1 ≤ (format d).length) (i : Option Indent) {v : Value D}
    (hroot : v.isContainer = true) (hv : v.integral = true) {doc : Document D} (hstack : doc.stack = []) (memory : Str) :
    ∃ text root, (writer i).handleAll format .new v.accept = some ⟨text, []⟩ ∧
      doc.parse F (text ++ '\x00' :: memory) = some ⟨root, [], none, 0⟩ ∧ root.accept = v.accept := by
  refine ⟨v.text format (layout i) 0, v.map Number.reread, ?_, parse_layout F i hroot hv hstack memory,
    accept_map_reread v⟩
  rw [accept_root (writer_follows i) hformat, if_pos hroot]

theorem document_round_trip_indented :
    ∃ text root, (writer (some .new)).handleAll (fun _ : ℕ => ['0']) .new
        (Value.array [.number (.int64 (-7)), .object [(['a'], .null)]]).accept = some ⟨text, []⟩ ∧
      Document.new.parse Reader.numerals (text ++ ['\x00']) = some ⟨root, [], none, 0⟩ ∧
      root.accept = (Value.array [.number (.int64 (-7)), .object [(['a'], .null)]]).accept :=
  document_round_trip Reader.numerals (fun _ => by decide) (some .new) rfl rfl rfl []

/-! ### The replies of the command server -/

mutual

/-- The numbers of a reply are integers. -/
theorem integral_ofJson (j : Json) : (ofJson j : Value D).integral = true := by
  match j with
  | .string s => rfl
  | .int64 i => rfl
  | .array es => exact integral_ofElements es
  | .object ms => exact integral_ofMembers ms

theorem integral_ofElements (es : List Json) : integralElements (ofElements es : List (Value D)) = true := by
  match es with
  | [] => rfl
  | j :: es => exact Bool.and_eq_true_iff.mpr ⟨integral_ofJson j, integral_ofElements es⟩

theorem integral_ofMembers (ms : List (Str × Json)) : integralMembers (ofMembers ms : List (Str × Value D)) = true := by
  match ms with
  | [] => rfl
  | (_, j) :: ms => exact Bool.and_eq_true_iff.mpr ⟨integral_ofJson j, integral_ofMembers ms⟩

end

/-- **A reply is read as the document** that it was made of. -/
theorem toJson_parse (F : Doubles D) {jb : ServerJsonBuilder}
    (hcounts : ∀ fc ∈ jb.counts, -2 ^ 63 ≤ fc.count ∧ fc.count < 2 ^ 63) (memory : Str) :
    ∃ root, Document.new.parse F (jb.toJson ++ '\x00' :: memory) = some ⟨root, [], none, 0⟩ ∧
      root.accept = (ofJson (.object jb.members)).accept := by
  have htext : (ofJson (.object jb.members) : Value D).text (fun _ => []) compact 0 = jb.toJson :=
    text_ofJson (.object jb.members) (membersInRange_reply hcounts) 0
  refine ⟨_, ?_, accept_map_reread (ofJson (.object jb.members))⟩
  rw [← htext]
  exact parse_layout F none rfl (integral_ofJson (.object jb.members)) rfl memory

theorem toJson_parse_error :
    ∃ root, Document.new.parse Reader.numerals
        ((({ error := "a \"b\"\n".toList, hasError := true } : ServerJsonBuilder).toJson) ++ ['\x00']) =
          some ⟨root, [], none, 0⟩ ∧
      root.accept = (ofJson (.object
        (({ error := "a \"b\"\n".toList, hasError := true } : ServerJsonBuilder).members))).accept :=
  toJson_parse Reader.numerals (fun _ h => absurd h List.not_mem_nil) []

end Documents

end Rapidjson

end GlbBackend
