import GlbBackend.Text.Tokens

/-!
# Numerals: decimal output and `atoi`

The two conversions of the C and C++ libraries between integers and texts: `decimal`, what an output
stream writes for an integer, and `atoi`, which is `strtol` in base ten cut down to 32 bits.
-/

namespace Text

/-- An integer as an output stream writes it. -/
def decimal (i : ℤ) : Str :=
  if i < 0 then '-' :: Nat.toDigits 10 i.natAbs else Nat.toDigits 10 i.natAbs

/-- Every character of a written integer is a digit or the sign. -/
theorem mem_decimal {i : ℤ} {c : Char} (h : c ∈ decimal i) : c.isDigit = true ∨ c = '-' := by
  have hd : ∀ n : ℕ, c ∈ Nat.toDigits 10 n → c.isDigit = true := fun n hn =>
    Nat.isDigit_of_mem_toDigits (by decide) (by decide) hn
  rw [decimal] at h
  split_ifs at h
  · rcases List.mem_cons.mp h with h | h
    · exact Or.inr h
    · exact Or.inl (hd _ h)
  · exact Or.inl (hd _ h)

theorem newline_not_mem_decimal (i : ℤ) : '\n' ∉ decimal i := by
  intro h
  rcases mem_decimal h with h | h
  · exact absurd h (by decide)
  · exact absurd h (by decide)

/-- `isspace` in the C locale. -/
def isSpace (c : Char) : Bool :=
  c = ' ' || c = '\t' || c = '\n' || c = '\x0b' || c = '\x0c' || c = '\r'

/-- The number a run of decimal digits stands for. -/
def digitsValue (s : Str) : ℕ := s.foldl (fun n c => 10 * n + (c.toNat - '0'.toNat)) 0

/-- The digits of a number stand for it. -/
theorem digitsValue_toDigits (n : ℕ) : digitsValue (Nat.toDigits 10 n) = n := by
  rw [digitsValue, ← Nat.ofDigitChars_eq_foldl]
  exact Nat.ofDigitChars_ten_toDigits

theorem isDigit_of_mem_toDigits {n : ℕ} {c : Char} (h : c ∈ Nat.toDigits 10 n) : c.isDigit = true :=
  Nat.isDigit_of_mem_toDigits (by decide) (by decide) h

/-- `strtol` in base ten: white space, an optional sign, then as many digits as there are, saturated to
the range of a 64-bit `long`. -/
def strtol (s : Str) : ℤ :=
  match s.dropWhile isSpace with
  | '-' :: r => max (-2 ^ 63) (-(digitsValue (r.takeWhile Char.isDigit) : ℤ))
  | '+' :: r => min (2 ^ 63 - 1) (digitsValue (r.takeWhile Char.isDigit) : ℤ)
  | r => min (2 ^ 63 - 1) (digitsValue (r.takeWhile Char.isDigit) : ℤ)

/-- `atoi`: `strtol`, truncated to a 32-bit `int`. -/
def atoi (s : Str) : ℤ := Int.bmod (strtol s) (2 ^ 32)

/-- An `int`. -/
theorem atoi_bounds (s : Str) : -2 ^ 31 ≤ atoi s ∧ atoi s < 2 ^ 31 := by
  have hle := Int.le_bmod (x := strtol s) (m := 2 ^ 32) (by decide)
  have hlt := Int.bmod_lt (x := strtol s) (m := 2 ^ 32) (by decide)
  rw [atoi]
  omega

theorem isSpace_of_isDigit {c : Char} (hc : c.isDigit = true) : isSpace c = false := by
  by_contra h
  rw [Bool.not_eq_false] at h
  simp only [isSpace, Bool.or_eq_true, decide_eq_true_eq] at h
  rcases h with ((((rfl | rfl) | rfl) | rfl) | rfl) | rfl <;> exact absurd hc (by decide)

/-- A numeral that fits a `long` is read as what it denotes. -/
theorem strtol_digits {s : Str} (hne : s ≠ []) (hs : ∀ c ∈ s, c.isDigit = true) :
    strtol s = min (2 ^ 63 - 1) (digitsValue s : ℤ) := by
  obtain ⟨c, cs, rfl⟩ := List.exists_cons_of_ne_nil hne
  have hc : c.isDigit = true := hs c List.mem_cons_self
  have htake : (c :: cs).takeWhile Char.isDigit = c :: cs := List.takeWhile_eq_self_iff.mpr hs
  rw [strtol, List.dropWhile_cons, isSpace_of_isDigit hc, if_neg Bool.false_ne_true]
  split
  · exact absurd hc (by simp_all)
  · exact absurd hc (by simp_all)
  · rw [htake]

/-- **Plain numerals are read as they stand**, if they fit an `int`. -/
theorem atoi_digits {s : Str} (hne : s ≠ []) (hs : ∀ c ∈ s, c.isDigit = true)
    (hlt : digitsValue s < 2 ^ 31) : atoi s = digitsValue s := by
  have hvalue : strtol s = digitsValue s := by
    rw [strtol_digits hne hs]
    omega
  rw [atoi, hvalue, Int.bmod_eq_of_le] <;> omega

/-- `atoi` reads back what an output stream wrote. -/
theorem atoi_decimal {i : ℤ} (hi : 0 ≤ i) (hlt : i < 2 ^ 31) : atoi (decimal i) = i := by
  have hdecimal : decimal i = Nat.toDigits 10 i.natAbs := if_neg (by omega)
  have hvalue := digitsValue_toDigits i.natAbs
  rw [hdecimal, atoi_digits Nat.toDigits_ne_nil (fun c hc => isDigit_of_mem_toDigits hc) (by omega), hvalue]
  omega

example : atoi " 30x".toList = 30 := by decide

example : atoi "4294967297".toList = 1 := by decide

end Text
