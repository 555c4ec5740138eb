import GlbBackend.Text.Numeral

/-!
# The JSON tree and its writer

The values a `rapidjson::Document` holds here (strings, 64-bit integers, arrays, objects) and the text
`rapidjson::Writer` emits for them: no white space, members in the order they were added, and inside
strings the escapes of the writer's table — `\"`, `\\`, the five short control escapes, and `\u00XX`
for every other control character.

The fact the protocol needs is `newline_not_mem_write`: whatever the strings hold, the text of a value
is one line.
-/

namespace GlbBackend

open Text

/-- A JSON value. -/
inductive Json
  | string (s : Str)
  | int64 (i : ℤ)
  | array (es : List Json)
  | object (ms : List (Str × Json))

/-- The string a `const char *` denotes: it ends before the first NUL. -/
def cString (s : Str) : Str := s.takeWhile (· ≠ '\x00')

/-- `hexDigits` of the writer. -/
def hexDigit (n : ℕ) : Char := "0123456789ABCDEF".toList.getD n '0'

/-- One entry of the writer's `escape` table, applied. -/
def escapeChar (c : Char) : Str :=
  if c = '"' then ['\\', '"']
  else if c = '\\' then ['\\', '\\']
  else if c = '\x08' then ['\\', 'b']
  else if c = '\t' then ['\\', 't']
  else if c = '\n' then ['\\', 'n']
  else if c = '\x0c' then ['\\', 'f']
  else if c = '\r' then ['\\', 'r']
  else if c.toNat < 32 then
    ['\\', 'u', '0', '0', hexDigit (c.toNat / 16), hexDigit (c.toNat % 16)]
  else [c]

/-- `Writer::WriteString`. -/
def writeString (s : Str) : Str := '"' :: s.flatMap escapeChar ++ ['"']

mutual

/-- The text of a value. -/
def write : Json → Str
  | .string s => writeString s
  | .int64 i => decimal i
  | .array es => '[' :: writeElements es ++ [']']
  | .object ms => '{' :: writeMembers ms ++ ['}']

/-- The elements of an array, separated by commas. -/
def writeElements : List Json → Str
  | [] => []
  | [e] => write e
  | e :: e' :: es => write e ++ ',' :: writeElements (e' :: es)

/-- The members of an object, separated by commas. -/
def writeMembers : List (Str × Json) → Str
  | [] => []
  | [(n, v)] => writeString n ++ ':' :: write v
  | (n, v) :: m :: ms => writeString n ++ ':' :: write v ++ ',' :: writeMembers (m :: ms)

end

example : write (.object [("a".toList, .array [.string "x\n".toList, .int64 7])])
    = "\x7b\"a\":[\"x\\n\",7]\x7d".toList := by decide

theorem hexDigit_ne_newline (n : ℕ) : hexDigit n ≠ '\n' := by
  by_cases h : n < 16
  · interval_cases n <;> decide
  · rw [hexDigit, List.getD_eq_default _ _ (by simpa using h)]
    decide

theorem newline_not_mem_escapeChar (c : Char) : '\n' ∉ escapeChar c := by
  have h1 := hexDigit_ne_newline (c.toNat / 16)
  have h2 := hexDigit_ne_newline (c.toNat % 16)
  rw [escapeChar]
  split_ifs <;> simp_all [eq_comm]

theorem newline_not_mem_writeString (s : Str) : '\n' ∉ writeString s := by
  simp [writeString, newline_not_mem_escapeChar]

mutual

/-- **A written value is one line.** -/
theorem newline_not_mem_write (j : Json) : '\n' ∉ write j := by
  cases j with
  | string s => exact newline_not_mem_writeString s
  | int64 i => exact newline_not_mem_decimal i
  | array es => simp [write, newline_not_mem_writeElements es]
  | object ms => simp [write, newline_not_mem_writeMembers ms]

theorem newline_not_mem_writeElements (es : List Json) : '\n' ∉ writeElements es := by
  match es with
  | [] => simp [writeElements]
  | [e] => exact newline_not_mem_write e
  | e :: e' :: es =>
      simp [writeElements, newline_not_mem_write e, newline_not_mem_writeElements (e' :: es)]

theorem newline_not_mem_writeMembers (ms : List (Str × Json)) : '\n' ∉ writeMembers ms := by
  match ms with
  | [] => simp [writeMembers]
  | [(n, v)] => simp [writeMembers, newline_not_mem_writeString n, newline_not_mem_write v]
  | (n, v) :: m :: ms =>
      simp [writeMembers, newline_not_mem_writeString n, newline_not_mem_write v,
        newline_not_mem_writeMembers (m :: ms)]

end

/-- The text of some members begins with the first of them. -/
theorem writeMembers_cons (n : Str) (v : Json) (ms : List (Str × Json)) :
    ∃ tail, writeMembers ((n, v) :: ms) = writeString n ++ ':' :: (write v ++ tail) := by
  cases ms with
  | nil => exact ⟨[], by simp [writeMembers]⟩
  | cons m ms => exact ⟨',' :: writeMembers (m :: ms), by simp [writeMembers]⟩

/-- Members that are written alike still are when common members before them are left out. -/
theorem writeMembers_cancel {pre ms ms' : List (Str × Json)} {m m' : Str × Json}
    (h : writeMembers (pre ++ m :: ms) = writeMembers (pre ++ m' :: ms')) :
    writeMembers (m :: ms) = writeMembers (m' :: ms') := by
  induction pre with
  | nil => exact h
  | cons a pre ih =>
      have hcons : ∀ b bs, writeMembers (a :: (pre ++ b :: bs))
          = writeString a.1 ++ ':' :: write a.2 ++ ',' :: writeMembers (pre ++ b :: bs) := by
        intro b bs
        cases pre with
        | nil => rfl
        | cons c cs => rfl
      rw [List.cons_append, List.cons_append, hcons, hcons] at h
      exact ih (List.cons_inj_right _ |>.mp (List.append_cancel_left h))

/-- An object is written with an opening brace. -/
theorem write_object_head (ms : List (Str × Json)) : (write (.object ms)).head? = some '{' := rfl

end GlbBackend
