import GlbBackend.Text.Tokens

/-!
# Positional numerals

`positional` is the number that the digits of a text stand for in any base, the most significant first, and
`digitsDown` the text that a loop writes which counts its positions down to 0.  If the digit at each position is the
one that the number has there, the text stands for the number, cut to as many digits
(`positional_digitsDown`).
-/

namespace Text

/-- The number a text stands for, given the value of its digits. -/
def positional (base : ℕ) (value : Char → ℕ) (s : Str) : ℕ := s.foldl (fun n c => base * n + value c) 0

/-- The digits at the positions below `k`, from the last one down. -/
def digitsDown (digit : ℕ → Char) : ℕ → Str
  | 0 => []
  | k + 1 => digit k :: digitsDown digit k

variable {base : ℕ} {value : Char → ℕ} {digit : ℕ → Char}

theorem foldl_positional (n : ℕ) (s : Str) :
    s.foldl (fun n c => base * n + value c) n = n * base ^ s.length + positional base value s := by
  rw [positional]
  induction s generalizing n with
  | nil => simp
  | cons c s ih =>
      rw [List.foldl_cons, List.foldl_cons, ih, ih (base * 0 + value c), List.length_cons, pow_succ]
      ring

theorem positional_cons (c : Char) (s : Str) :
    positional base value (c :: s) = value c * base ^ s.length + positional base value s := by
  rw [positional, List.foldl_cons, foldl_positional, mul_zero, zero_add]

@[simp] theorem length_digitsDown (digit : ℕ → Char) (k : ℕ) : (digitsDown digit k).length = k := by
  induction k with
  | zero => rfl
  | succ k ih => rw [digitsDown, List.length_cons, ih]

/-- Positions counted from `k` on come before those below it. -/
theorem digitsDown_add (digit : ℕ → Char) (m k : ℕ) :
    digitsDown digit (m + k) = digitsDown (fun i => digit (i + k)) m ++ digitsDown digit k := by
  induction m with
  | zero => rw [Nat.zero_add, digitsDown, List.nil_append]
  | succ m ih => rw [Nat.succ_add, digitsDown, ih, digitsDown, List.cons_append]

theorem digitsDown_congr {digit' : ℕ → Char} {k : ℕ} (h : ∀ i < k, digit i = digit' i) :
    digitsDown digit k = digitsDown digit' k := by
  induction k with
  | zero => rfl
  | succ k ih => rw [digitsDown, digitsDown, h k (Nat.lt_succ_self k), ih fun i hi => h i (Nat.lt_succ_of_lt hi)]

/-- **The digits of a number stand for it**, cut to as many digits as there are. -/
theorem positional_digitsDown {x k : ℕ} (hdigit : ∀ i < k, value (digit i) = x / base ^ i % base) :
    positional base value (digitsDown digit k) = x % base ^ k := by
  induction k with
  | zero => rw [digitsDown, pow_zero, Nat.mod_one, positional, List.foldl_nil]
  | succ k ih =>
      have hk := hdigit k (Nat.lt_succ_self k)
      rw [digitsDown, positional_cons, length_digitsDown, ih fun i hi => hdigit i (Nat.lt_succ_of_lt hi), hk,
        pow_succ, Nat.mod_mul, mul_comm (base ^ k), add_comm]

end Text
