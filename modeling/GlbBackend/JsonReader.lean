import GlbBackend.JsonWriter

/-!
# Reading a JSON text back

A reader for the texts that `write` makes: no white space between tokens, integers without fraction or
exponent, and in strings the escapes of the writer's table.  `fuel` bounds the depth of the recursion; the
length of the text is enough, since every call is on a shorter text.

`readJson_write` is the round trip: every value can be read back from its text.  So two values with the
same text are the same value (`write_injective`).
-/

namespace GlbBackend

open Text

/-! ### The reader -/

/-- The value of a hexadecimal digit of the writer. -/
def hexValue (c : Char) : ℕ := "0123456789ABCDEF".toList.idxOf c

/-- What follows a backslash: the character the escape stands for, and the rest. -/
def readEscape : Str → Option (Char × Str)
  | [] => none
  | e :: rest =>
      if e = '"' then some ('"', rest)
      else if e = '\\' then some ('\\', rest)
      else if e = 'b' then some ('\x08', rest)
      else if e = 't' then some ('\t', rest)
      else if e = 'n' then some ('\n', rest)
      else if e = 'f' then some ('\x0c', rest)
      else if e = 'r' then some ('\r', rest)
      else if e = 'u' then
        match rest with
        | '0' :: '0' :: h :: l :: rest => some (Char.ofNat (16 * hexValue h + hexValue l), rest)
        | _ => none
      else none

/-- The characters of a string up to its closing quote, and what follows it. -/
def readChars : ℕ → Str → Option (Str × Str)
  | 0, _ => none
  | _ + 1, [] => none
  | fuel + 1, c :: rest =>
      if c = '"' then some ([], rest)
      else
        (if c = '\\' then readEscape rest else some (c, rest)).bind fun (c, rest) =>
          (readChars fuel rest).map fun r => (c :: r.1, r.2)

/-- An integer, and what follows its digits. -/
def readInt (s : Str) : Option (ℤ × Str) :=
  let sign := decide (s.head? = some '-')
  let body := if sign then s.tail else s
  let digits := body.takeWhile Char.isDigit
  if digits = [] then none
  else some (if sign then -(digitsValue digits : ℤ) else digitsValue digits,
    body.dropWhile Char.isDigit)

mutual

/-- A value, and what follows it. -/
def readValue : ℕ → Str → Option (Json × Str)
  | 0, _ => none
  | _ + 1, [] => none
  | fuel + 1, c :: rest =>
      if c = '"' then (readChars fuel rest).map fun r => (.string r.1, r.2)
      else if c = '[' then
        if rest.head? = some ']' then some (.array [], rest.tail)
        else (readElements fuel rest).map fun r => (.array r.1, r.2)
      else if c = '{' then
        if rest.head? = some '}' then some (.object [], rest.tail)
        else (readMembers fuel rest).map fun r => (.object r.1, r.2)
      else (readInt (c :: rest)).map fun r => (.int64 r.1, r.2)

/-- The elements of an array that has some, up to its closing bracket, and what follows it. -/
def readElements : ℕ → Str → Option (List Json × Str)
  | 0, _ => none
  | fuel + 1, s =>
      (readValue fuel s).bind fun (e, rest) =>
        if rest.head? = some ']' then some ([e], rest.tail)
        else if rest.head? = some ',' then
          (readElements fuel rest.tail).map fun r => (e :: r.1, r.2)
        else none

/-- The members of an object that has some, up to its closing brace, and what follows it. -/
def readMembers : ℕ → Str → Option (List (Str × Json) × Str)
  | 0, _ => none
  | _ + 1, [] => none
  | fuel + 1, c :: s =>
      if c = '"' then
        (readChars fuel s).bind fun (n, rest) =>
          if rest.head? = some ':' then
            (readValue fuel rest.tail).bind fun (v, rest) =>
              if rest.head? = some '}' then some ([(n, v)], rest.tail)
              else if rest.head? = some ',' then
                (readMembers fuel rest.tail).map fun r => ((n, v) :: r.1, r.2)
              else none
          else none
      else none

end

/-- A whole text that is one value. -/
def readJson (s : Str) : Option Json :=
  (readValue s.length s).bind fun (v, rest) => if rest = [] then some v else none

/-! ### Strings -/

theorem hexValue_hexDigit : ∀ n < 16, hexValue (hexDigit n) = n := by decide

/-- What follows the backslash of a control character without a short escape. -/
theorem readEscape_control {n : ℕ} (hn : n < 32) (rest : Str) :
    readEscape ('u' :: '0' :: '0' :: hexDigit (n / 16) :: hexDigit (n % 16) :: rest)
      = some (Char.ofNat n, rest) := by
  have hhi := hexValue_hexDigit (n / 16) (by omega)
  have hlo := hexValue_hexDigit (n % 16) (by omega)
  have hn' : 16 * (n / 16) + n % 16 = n := by omega
  simp only [readEscape, Char.reduceEq, if_false, if_true, hhi, hlo, hn']

/-- A character that is written as itself, or its escape, is read back. -/
theorem readChars_escapeChar (c : Char) (fuel : ℕ) (rest : Str) :
    readChars (fuel + 1) (escapeChar c ++ rest)
      = (readChars fuel rest).map fun r => (c :: r.1, r.2) := by
  have hescape : ∀ {e : Str}, readEscape (e ++ rest) = some (c, rest) →
      readChars (fuel + 1) ('\\' :: e ++ rest) = (readChars fuel rest).map fun r => (c :: r.1, r.2) := by
    intro e he
    rw [List.cons_append, readChars, if_neg (by decide), if_pos rfl, he]
    rfl
  rw [escapeChar]
  split_ifs with h1 h2 h3 h4 h5 h6 h7 h8
  · exact hescape (e := ['"']) (by rw [h1]; rfl)
  · exact hescape (e := ['\\']) (by rw [h2]; rfl)
  · exact hescape (e := ['b']) (by rw [h3]; rfl)
  · exact hescape (e := ['t']) (by rw [h4]; rfl)
  · exact hescape (e := ['n']) (by rw [h5]; rfl)
  · exact hescape (e := ['f']) (by rw [h6]; rfl)
  · exact hescape (e := ['r']) (by rw [h7]; rfl)
  · refine hescape (e := ['u', '0', '0', _, _]) ((readEscape_control h8 rest).trans ?_)
    rw [Char.ofNat_toNat]
  · rw [List.singleton_append, readChars, if_neg h1, if_neg h2]
    rfl

theorem length_escapeChar_pos (c : Char) : 0 < (escapeChar c).length := by
  rw [escapeChar]
  split_ifs <;> exact Nat.succ_pos _

/-- **Strings are read back.** -/
theorem readChars_flatMap (s : Str) (rest : Str) {fuel : ℕ}
    (hfuel : (s.flatMap escapeChar).length < fuel) :
    readChars fuel (s.flatMap escapeChar ++ '"' :: rest) = some (s, rest) := by
  induction s generalizing fuel with
  | nil =>
      obtain ⟨n, rfl⟩ : ∃ n, fuel = n + 1 := ⟨fuel - 1, by omega⟩
      rfl
  | cons c s ih =>
      have hpos := length_escapeChar_pos c
      rw [List.flatMap_cons, List.length_append] at hfuel
      obtain ⟨n, rfl⟩ : ∃ n, fuel = n + 1 := ⟨fuel - 1, by omega⟩
      rw [List.flatMap_cons, List.append_assoc, readChars_escapeChar, ih (by omega)]
      rfl

/-! ### Integers -/

/-- The text does not go on with a digit. -/
def EndsNumber (rest : Str) : Prop := ∀ c, rest.head? = some c → c.isDigit = false

theorem takeWhile_isDigit_append {ds rest : Str} (hds : ∀ c ∈ ds, c.isDigit = true)
    (hrest : EndsNumber rest) :
    (ds ++ rest).takeWhile Char.isDigit = ds ∧ (ds ++ rest).dropWhile Char.isDigit = rest := by
  rw [List.takeWhile_append_of_pos hds, List.dropWhile_append_of_pos hds]
  cases rest with
  | nil => exact ⟨List.append_nil ds, rfl⟩
  | cons c rest =>
      have hc : ¬ c.isDigit = true := by
        rw [hrest c rfl]
        exact Bool.false_ne_true
      rw [List.takeWhile_cons_of_neg hc, List.dropWhile_cons_of_neg hc]
      exact ⟨List.append_nil ds, rfl⟩

/-- **Integers are read back**, if the text does not go on with a digit. -/
theorem readInt_decimal (i : ℤ) {rest : Str} (hrest : EndsNumber rest) :
    readInt (decimal i ++ rest) = some (i, rest) := by
  have hne : Nat.toDigits 10 i.natAbs ≠ [] := Nat.toDigits_ne_nil
  obtain ⟨htake, hdrop⟩ :=
    takeWhile_isDigit_append (fun c hc => isDigit_of_mem_toDigits (n := i.natAbs) hc) hrest
  rw [decimal]
  split_ifs with hi
  · simp only [readInt, List.cons_append, List.head?_cons, decide_true, if_true, List.tail_cons, htake,
      hdrop, if_neg hne, digitsValue_toDigits]
    congr 2
    omega
  · have hhead : (Nat.toDigits 10 i.natAbs ++ rest).head? ≠ some '-' := by
      cases hd : Nat.toDigits 10 i.natAbs with
      | nil => exact absurd hd hne
      | cons d ds =>
          intro heq
          have hdigit := isDigit_of_mem_toDigits (n := i.natAbs) (hd ▸ List.mem_cons_self)
          rw [Option.some.inj heq] at hdigit
          exact absurd hdigit (by decide)
    simp only [readInt, decide_eq_false hhead, Bool.false_eq_true, if_false, htake, hdrop, if_neg hne,
      digitsValue_toDigits]
    congr 2
    omega

/-- The first character of a written integer. -/
theorem decimal_cons (i : ℤ) : ∃ c cs, decimal i = c :: cs ∧ (c.isDigit = true ∨ c = '-') := by
  cases hd : decimal i with
  | nil =>
      rw [decimal] at hd
      split_ifs at hd
      exact absurd hd Nat.toDigits_ne_nil
  | cons c cs => exact ⟨c, cs, rfl, mem_decimal (i := i) (hd ▸ List.mem_cons_self)⟩

/-! ### Values -/

theorem endsNumber_cons {c : Char} (hc : c.isDigit = false) (rest : Str) : EndsNumber (c :: rest) := by
  intro d hd
  rw [← Option.some.inj hd]
  exact hc

/-- The text of a value is not empty and does not start like the end of an array. -/
theorem write_cons (j : Json) : ∃ c cs, write j = c :: cs ∧ c ≠ ']' := by
  cases j with
  | string s => exact ⟨'"', _, rfl, by decide⟩
  | int64 i =>
      obtain ⟨c, cs, hd, hc⟩ := decimal_cons i
      refine ⟨c, cs, hd, ?_⟩
      rcases hc with hc | rfl
      · intro heq
        rw [heq] at hc
        exact absurd hc (by decide)
      · decide
  | array es => exact ⟨'[', _, rfl, by decide⟩
  | object ms => exact ⟨'{', _, rfl, by decide⟩

theorem writeElements_head {es : List Json} (hes : es ≠ []) (rest : Str) :
    (writeElements es ++ ']' :: rest).head? ≠ some ']' := by
  match es with
  | [] => exact absurd rfl hes
  | [e] =>
      obtain ⟨c, cs, hwrite, hc⟩ := write_cons e
      rw [writeElements, hwrite]
      exact fun heq => hc (Option.some.inj heq)
  | e :: e' :: es =>
      obtain ⟨c, cs, hwrite, hc⟩ := write_cons e
      rw [writeElements, hwrite]
      exact fun heq => hc (Option.some.inj heq)

theorem writeMembers_head {ms : List (Str × Json)} (hms : ms ≠ []) (rest : Str) :
    (writeMembers ms ++ '}' :: rest).head? ≠ some '}' := by
  obtain ⟨⟨n, v⟩, ms, rfl⟩ := List.exists_cons_of_ne_nil hms
  obtain ⟨tail, htail⟩ := writeMembers_cons n v ms
  rw [htail]
  exact fun heq => absurd (Option.some.inj heq) (by decide)

/-- What an array's reader does after it has read an element. -/
theorem readElements_step {fuel : ℕ} {s : Str} {e : Json} {rest : Str}
    (hvalue : readValue fuel s = some (e, rest)) :
    readElements (fuel + 1) s =
      if rest.head? = some ']' then some ([e], rest.tail)
      else if rest.head? = some ',' then
        (readElements fuel rest.tail).map fun r => (e :: r.1, r.2)
      else none := by
  rw [readElements, hvalue]
  rfl

/-- What an object's reader does after it has read a member. -/
theorem readMembers_step {fuel : ℕ} {n : Str} {s : Str} {v : Json} {rest : Str}
    (hfuel : (writeString n).length ≤ fuel + 1) (hvalue : readValue fuel s = some (v, rest)) :
    readMembers (fuel + 1) (writeString n ++ ':' :: s) =
      if rest.head? = some '}' then some ([(n, v)], rest.tail)
      else if rest.head? = some ',' then
        (readMembers fuel rest.tail).map fun r => ((n, v) :: r.1, r.2)
      else none := by
  have hname : readChars fuel (n.flatMap escapeChar ++ '"' :: ':' :: s) = some (n, ':' :: s) := by
    apply readChars_flatMap
    rw [writeString, List.length_append, List.length_cons, List.length_singleton] at hfuel
    omega
  have htext : writeString n ++ ':' :: s = '"' :: (n.flatMap escapeChar ++ '"' :: ':' :: s) := by
    rw [writeString, List.cons_append, List.cons_append, List.append_assoc, List.singleton_append]
  rw [htext, readMembers, if_pos rfl, hname, Option.bind_some]
  show (readValue fuel s).bind _ = _
  rw [hvalue]
  rfl

mutual

/-- **Values are read back**, if the text does not go on with a digit. -/
theorem readValue_write (j : Json) {rest : Str} (hrest : EndsNumber rest) {fuel : ℕ}
    (hfuel : (write j).length ≤ fuel) : readValue fuel (write j ++ rest) = some (j, rest) := by
  match j with
  | .string s =>
      rw [write, writeString, List.cons_append, List.length_cons, List.length_append,
        List.length_singleton] at hfuel
      obtain ⟨n, rfl⟩ : ∃ n, fuel = n + 1 := ⟨fuel - 1, by omega⟩
      rw [write, writeString, List.cons_append, List.cons_append, List.append_assoc,
        List.singleton_append, readValue, if_pos rfl, readChars_flatMap s rest (by omega)]
      rfl
  | .int64 i =>
      obtain ⟨c, cs, hd, hc⟩ := decimal_cons i
      have hread := readInt_decimal i hrest
      rw [write] at hfuel ⊢
      rw [hd] at hfuel hread ⊢
      obtain ⟨n, rfl⟩ : ∃ n, fuel = n + 1 := ⟨fuel - 1, by rw [List.length_cons] at hfuel; omega⟩
      have hother : ∀ d : Char, d.isDigit = false → d ≠ '-' → c ≠ d := by
        rintro d hdigit hsign rfl
        rcases hc with hc | hc
        · rw [hdigit] at hc
          exact Bool.false_ne_true hc
        · exact hsign hc
      rw [List.cons_append, readValue, if_neg (hother _ rfl (by decide)), if_neg (hother _ rfl (by decide)),
        if_neg (hother _ rfl (by decide)), ← List.cons_append, hread]
      rfl
  | .array es =>
      rw [write, List.length_append, List.length_cons, List.length_singleton] at hfuel
      obtain ⟨n, rfl⟩ : ∃ n, fuel = n + 1 := ⟨fuel - 1, by omega⟩
      rw [write, List.cons_append, List.cons_append, List.append_assoc, List.singleton_append, readValue,
        if_neg (by decide), if_pos rfl]
      by_cases hes : es = []
      · rw [hes]
        rfl
      · rw [if_neg (writeElements_head hes rest), readElements_write es hes rest (by omega)]
        rfl
  | .object ms =>
      rw [write, List.length_append, List.length_cons, List.length_singleton] at hfuel
      obtain ⟨n, rfl⟩ : ∃ n, fuel = n + 1 := ⟨fuel - 1, by omega⟩
      rw [write, List.cons_append, List.cons_append, List.append_assoc, List.singleton_append, readValue,
        if_neg (by decide), if_neg (by decide), if_pos rfl]
      by_cases hms : ms = []
      · rw [hms]
        rfl
      · rw [if_neg (writeMembers_head hms rest), readMembers_write ms hms rest (by omega)]
        rfl

theorem readElements_write (es : List Json) (hes : es ≠ []) (rest : Str) {fuel : ℕ}
    (hfuel : (writeElements es).length < fuel) :
    readElements fuel (writeElements es ++ ']' :: rest) = some (es, rest) := by
  obtain ⟨n, rfl⟩ : ∃ n, fuel = n + 1 := ⟨fuel - 1, by omega⟩
  match es with
  | [] => exact absurd rfl hes
  | [e] =>
      have hlen : (write e).length < n + 1 := hfuel
      have hvalue := readValue_write e (endsNumber_cons (c := ']') rfl rest)
        (by omega : (write e).length ≤ n)
      show readElements (n + 1) (write e ++ ']' :: rest) = _
      rw [readElements_step hvalue]
      rfl
  | e :: e' :: es =>
      rw [writeElements, List.length_append, List.length_cons] at hfuel
      have hvalue := readValue_write e
        (endsNumber_cons (c := ',') rfl (writeElements (e' :: es) ++ ']' :: rest))
        (by omega : (write e).length ≤ n)
      have htail := readElements_write (e' :: es) (List.cons_ne_nil e' es) rest
        (by omega : (writeElements (e' :: es)).length < n)
      rw [writeElements, List.append_assoc, List.cons_append, readElements_step hvalue, List.head?_cons,
        if_neg (by decide), if_pos rfl, List.tail_cons, htail]
      rfl

theorem readMembers_write (ms : List (Str × Json)) (hms : ms ≠ []) (rest : Str) {fuel : ℕ}
    (hfuel : (writeMembers ms).length < fuel) :
    readMembers fuel (writeMembers ms ++ '}' :: rest) = some (ms, rest) := by
  obtain ⟨n, rfl⟩ : ∃ n, fuel = n + 1 := ⟨fuel - 1, by omega⟩
  match ms with
  | [] => exact absurd rfl hms
  | [(name, v)] =>
      rw [writeMembers, List.length_append, List.length_cons] at hfuel
      have hvalue := readValue_write v (endsNumber_cons (c := '}') rfl rest)
        (by omega : (write v).length ≤ n)
      rw [writeMembers, List.append_assoc, List.cons_append, readMembers_step (by omega) hvalue]
      rfl
  | (name, v) :: m :: ms =>
      rw [writeMembers, List.append_assoc, List.length_append, List.cons_append, List.length_cons,
        List.length_append, List.length_cons] at hfuel
      have hvalue := readValue_write v
        (endsNumber_cons (c := ',') rfl (writeMembers (m :: ms) ++ '}' :: rest))
        (by omega : (write v).length ≤ n)
      have htail := readMembers_write (m :: ms) (List.cons_ne_nil m ms) rest
        (by omega : (writeMembers (m :: ms)).length < n)
      rw [writeMembers, List.append_assoc, List.append_assoc, List.cons_append, List.cons_append,
        readMembers_step (by omega) hvalue, List.head?_cons, if_neg (by decide), if_pos rfl, List.tail_cons,
        htail]
      rfl

end

/-- **The round trip**: every value can be read back from its text. -/
theorem readJson_write (j : Json) : readJson (write j) = some j := by
  have hvalue : readValue (write j).length (write j ++ []) = some (j, []) :=
    readValue_write j (fun c hc => by simp at hc) (le_refl _)
  rw [List.append_nil] at hvalue
  rw [readJson, hvalue]
  rfl

/-- Values with the same text are the same. -/
theorem write_injective : Function.Injective write := by
  intro j j' h
  have hread := readJson_write j
  rw [h, readJson_write] at hread
  exact (Option.some.inj hread).symm

end GlbBackend
