import GlbBackend.Rapidjson.Value
import GlbBackend.Text.Scanner

/-!
# The reader of `rapidjson`

`GenericReader::Parse` for a text in memory that is not parsed in place: recursive descent over a `StringStream`, which
reports the events of the value as it goes and stops at the first error, with a message and an offset.  A character is a
byte; strings are handed on as bytes, with what `\u` escapes stand for in UTF-8.

The loops over digits and white space are `scanWhile`.  The others count down from a number that is large enough: what
is left of the text for the characters of a string, and `fuelFor` it for values within values.

The buffer in which a string is put together is not modelled apart from its content, and the arithmetic of floating point
numbers is a parameter.
-/

namespace GlbBackend

open Text Text.Scanner

namespace Rapidjson

variable {D : Type}

/-- What the reader does with floating point numbers. -/
structure Doubles (D : Type) where
  /-- `(double)i64` -/
  ofNat : ℕ → D
  /-- `d * 10 + digit` -/
  push : D → ℕ → D
  /-- `d >= 1E307` -/
  isBig : D → Bool
  /-- `d * Pow10(n)` -/
  scale : D → ℤ → D
  neg : D → D

namespace Reader

/-- Code that parses part of a text. -/
abbrev Parser (D α : Type) := Scanner (Event D) α

def isWhitespace (c : Char) : Bool := c = ' ' || c = '\n' || c = '\r' || c = '\t'

def skipWhitespace : Parser D Unit := skipWhile isWhitespace

/-! ### Literals -/

/-- `stream.Take() == 'x' && stream.Take() == 'y' && ...` -/
def takes : Str → Parser D Bool
  | [] => pure true
  | x :: xs => do
      let c ← take
      if c = x then takes xs else pure false

/-- A literal; the three that there are count the offset of an error differently. -/
def parseLiteral (first : Char) (rest : Str) (e : Event D) (back : ℕ) : Parser D Unit := do
  let c ← peek
  if c = first then do
    let _ ← take
    if ← takes rest then report e
    else do
      let offset ← tell
      fail "Invalid value" (offset - back)
  else stop .assertion

def parseNull : Parser D Unit := parseLiteral 'n' ['u', 'l', 'l'] .null 1

def parseTrue : Parser D Unit := parseLiteral 't' ['r', 'u', 'e'] (.bool true) 0

def parseFalse : Parser D Unit := parseLiteral 'f' ['a', 'l', 's', 'e'] (.bool false) 1

/-! ### Strings -/

/-- The value of a hexadecimal digit. -/
def hexDigit? (c : Char) : Option ℕ :=
  if '0' ≤ c ∧ c ≤ '9' then some (c.toNat - '0'.toNat)
  else if 'A' ≤ c ∧ c ≤ 'F' then some (c.toNat - ('A'.toNat - 10))
  else if 'a' ≤ c ∧ c ≤ 'f' then some (c.toNat - ('a'.toNat - 10))
  else none

/-- The loop of `ParseHex4`, with the rounds that are left. -/
def hexDigits : ℕ → ℕ → Parser D ℕ
  | 0, codepoint => pure codepoint
  | i + 1, codepoint => do
      let c ← take
      match hexDigit? c with
      | some x => hexDigits i (codepoint * 16 + x)
      | none => do
          let offset ← tell
          fail "Incorrect hex digit after \\u escape" (offset - 1)

def parseHex4 : Parser D ℕ := hexDigits 4 0

/-- `Ch`, which has eight bits. -/
def byte (n : ℕ) : Char := Char.ofNat (n % 256)

/-- `UTF8::Encode` -/
def encode (codepoint : ℕ) : Option Str :=
  if codepoint ≤ 0x7F then some [byte codepoint]
  else if codepoint ≤ 0x7FF then
    some [byte (0xC0 ||| (codepoint >>> 6 &&& 0xFF)), byte (0x80 ||| (codepoint &&& 0x3F))]
  else if codepoint ≤ 0xFFFF then
    some [byte (0xE0 ||| (codepoint >>> 12 &&& 0xFF)), byte (0x80 ||| (codepoint >>> 6 &&& 0x3F)),
      byte (0x80 ||| (codepoint &&& 0x3F))]
  else if codepoint ≤ 0x10FFFF then
    some [byte (0xF0 ||| (codepoint >>> 18 &&& 0xFF)), byte (0x80 ||| (codepoint >>> 12 &&& 0x3F)),
      byte (0x80 ||| (codepoint >>> 6 &&& 0x3F)), byte (0x80 ||| (codepoint &&& 0x3F))]
  else none

/-- The table `escape`. -/
def escape? (e : Char) : Option Char :=
  if e = '"' then some '"'
  else if e = '/' then some '/'
  else if e = '\\' then some '\\'
  else if e = 'b' then some '\x08'
  else if e = 'f' then some '\x0c'
  else if e = 'n' then some '\n'
  else if e = 'r' then some '\r'
  else if e = 't' then some '\t'
  else none

/-- The second half of a surrogate pair. -/
def parseSurrogate (codepoint : ℕ) : Parser D ℕ := do
  if ← takes ['\\', 'u'] then do
    let codepoint2 ← parseHex4
    if codepoint2 < 0xDC00 ∨ 0xDFFF < codepoint2 then do
      let offset ← tell
      fail "The second \\u in surrogate pair is invalid" (offset - 2)
    else pure (((codepoint - 0xD800) <<< 10 ||| (codepoint2 - 0xDC00)) + 0x10000)
  else do
    let offset ← tell
    fail "Missing the second \\u in surrogate pair" (offset - 2)

/-- What follows `\u`: the bytes that it stands for. -/
def parseUnicode : Parser D Str := do
  let codepoint ← parseHex4
  let codepoint ← if 0xD800 ≤ codepoint ∧ codepoint ≤ 0xDBFF then parseSurrogate codepoint else pure codepoint
  match encode codepoint with
  | some bytes => pure bytes
  | none => stop .assertion

/-- The loop of `ParseString`: what has been put into the buffer, and the offset of the opening quotation mark. -/
def parseChars (start : ℕ) : ℕ → Str → Parser D Unit
  | 0, _ => stop .outOfFuel
  | n + 1, buffer => do
      let c ← take
      if c = '\\' then do
        let e ← take
        match escape? e with
        | some x => parseChars start n (buffer ++ [x])
        | none =>
            if e = 'u' then do
              let bytes ← parseUnicode
              parseChars start n (buffer ++ bytes)
            else fail "Unknown escape character" (start - 1)
      else if c = '"' then report (.string buffer)
      else if c = '\x00' then fail "lacks ending quotation before the end of string" (start - 1)
      else if c.toNat < 0x20 then fail "Incorrect unescaped character in string" (start - 1)
      else parseChars start n (buffer ++ [c])

def parseString : Parser D Unit := do
  let start ← tell
  let c ← peek
  if c = '"' then do
    let _ ← take
    let n ← left
    parseChars start n []
  else stop .assertion

/-! ### Numbers -/

/-- `c - '0'` -/
def digit (c : Char) : ℕ := c.toNat - '0'.toNat

/-- One more digit, unless the number would not fit any more: `limit` is a tenth of the greatest that does, and `last`
its last digit. -/
def fits (limit : ℕ) (last : Char) (i : ℕ) (c : Char) : Turn ℕ :=
  if limit ≤ i ∧ (i ≠ limit ∨ last < c) then .leave else .next (i * 10 + digit c)

def parseMinus : Parser D Bool := do
  let c ← peek
  if c = '-' then do
    let _ ← take
    pure true
  else pure false

/-- The digits before the point, as far as they fit 32 bits; and whether more bits are needed. -/
def parseInt (start : ℕ) (minus : Bool) : Parser D (ℕ × Bool) := do
  let c ← peek
  if c = '0' then do
    let _ ← take
    pure (0, false)
  else if '1' ≤ c ∧ c ≤ '9' then do
    let c ← take
    if minus then scanWhile Char.isDigit (fits 214748364 '8') (digit c)
    else scanWhile Char.isDigit (fits 429496729 '5') (digit c)
  else fail "Expect a value here." start

/-- More digits, as far as they fit 64 bits; and whether a floating point number is needed. -/
def parseInt64 (minus : Bool) (i : ℕ) (try64bit : Bool) : Parser D (ℕ × Bool) :=
  if try64bit then
    if minus then scanWhile Char.isDigit (fits 922337203685477580 '8') i
    else scanWhile Char.isDigit (fits 1844674407370955161 '5') i
  else pure (0, false)

section Doubles

variable (F : Doubles D)

/-- The rest of the digits of a big integer. -/
def parseBig (start i64 : ℕ) (useDouble : Bool) : Parser D (Option D) :=
  if useDouble then do
    let r ← scanWhile Char.isDigit (fun d c =>
      if F.isBig d then .fail "Number too big to store in double" start else .next (F.push d (digit c))) (F.ofNat i64)
    pure (some r.1)
  else pure none

/-- The fraction and how many of its digits count, the number so far being `i` where it is no double yet. -/
def parseFrac (start i : ℕ) (d : Option D) : Parser D (Option D × ℤ) := do
  let c ← peek
  if c = '.' then do
    let _ ← take
    let c ← peek
    if c.isDigit then do
      let c ← take
      let r ← scanWhile Char.isDigit
        (fun r c => .next (if -16 < r.2 then (F.push r.1 (digit c), r.2 - 1) else r))
        (F.push (d.getD (F.ofNat i)) (digit c), (-1 : ℤ))
      pure (some r.1.1, r.1.2)
    else fail "At least one digit in fraction part" start
  else pure (d, 0)

/-- The sign of an exponent. -/
def parseExpSign : Parser D Bool := do
  let c ← peek
  if c = '+' then do
    let _ ← take
    pure false
  else if c = '-' then do
    let _ ← take
    pure true
  else pure false

/-- The exponent. -/
def parseExp (start i : ℕ) (d : Option D) : Parser D (Option D × ℤ) := do
  let c ← peek
  if c = 'e' ∨ c = 'E' then do
    let _ ← take
    let expMinus ← parseExpSign
    let c ← peek
    if c.isDigit then do
      let c ← take
      let r ← scanWhile Char.isDigit (fun exp c =>
        if 308 < exp * 10 + digit c then .fail "Number too big to store in double" start
        else .next (exp * 10 + digit c)) (digit c)
      pure (some (d.getD (F.ofNat i)), if expMinus then -(r.1 : ℤ) else r.1)
    else do
      let offset ← tell
      fail "At least one digit in exponent" offset
  else pure (d, 0)

/-- The event of a number; `Pow10` asserts that its argument is at most 308. -/
def finishNumber (minus : Bool) (i i64 : ℕ) (try64bit : Bool) (d : Option D) (exp : ℤ) : Parser D Unit :=
  match d with
  | some d =>
      if exp ≤ 308 then
        report (.number (.double (if minus then F.neg (F.scale d exp) else F.scale d exp)))
      else stop .assertion
  | none =>
      if try64bit then
        if minus then report (.number (.int64 (-BitVec.ofNat 64 i64))) else report (.number (.uint64 (BitVec.ofNat 64 i64)))
      else if minus then report (.number (.int (-BitVec.ofNat 32 i))) else report (.number (.uint (BitVec.ofNat 32 i)))

def parseNumber : Parser D Unit := do
  let start ← tell
  let minus ← parseMinus
  let (i, try64bit) ← parseInt start minus
  let (i64, useDouble) ← parseInt64 minus i try64bit
  let d ← parseBig F start i64 useDouble
  let (d, expFrac) ← parseFrac F start (if try64bit then i64 else i) d
  let (d, exp) ← parseExp F start (if try64bit then i64 else i) d
  finishNumber F minus i i64 try64bit d (exp + expFrac)

/-! ### Values -/

mutual

def parseValue : ℕ → Parser D Unit
  | 0 => stop .outOfFuel
  | n + 1 => do
      let c ← peek
      if c = 'n' then parseNull
      else if c = 't' then parseTrue
      else if c = 'f' then parseFalse
      else if c = '"' then parseString
      else if c = '{' then parseObject n
      else if c = '[' then parseArray n
      else parseNumber F

def parseObject : ℕ → Parser D Unit
  | 0 => stop .outOfFuel
  | n + 1 => do
      let c ← peek
      if c = '{' then do
        let _ ← take
        report .startObject
        skipWhitespace
        let c ← peek
        if c = '}' then do
          let _ ← take
          report (.endObject 0)
        else parseMembers n 0
      else stop .assertion

/-- The loop of `ParseObject`. -/
def parseMembers : ℕ → ℕ → Parser D Unit
  | 0, _ => stop .outOfFuel
  | n + 1, memberCount => do
      let c ← peek
      if c = '"' then do
        parseString
        skipWhitespace
        let c ← take
        if c = ':' then do
          skipWhitespace
          parseValue n
          skipWhitespace
          let c ← take
          if c = ',' then do
            skipWhitespace
            parseMembers n (memberCount + 1)
          else if c = '}' then report (.endObject (memberCount + 1))
          else do
            let offset ← tell
            fail "Must be a comma or '\x7d' after an object member" offset
        else do
          let offset ← tell
          fail "There must be a colon after the name of object member" offset
      else do
        let offset ← tell
        fail "Name of an object member must be a string" offset

def parseArray : ℕ → Parser D Unit
  | 0 => stop .outOfFuel
  | n + 1 => do
      let c ← peek
      if c = '[' then do
        let _ ← take
        report .startArray
        skipWhitespace
        let c ← peek
        if c = ']' then do
          let _ ← take
          report (.endArray 0)
        else parseElements n 0
      else stop .assertion

/-- The loop of `ParseArray`. -/
def parseElements : ℕ → ℕ → Parser D Unit
  | 0, _ => stop .outOfFuel
  | n + 1, elementCount => do
      parseValue n
      skipWhitespace
      let c ← take
      if c = ',' then do
        skipWhitespace
        parseElements n (elementCount + 1)
      else if c = ']' then report (.endArray (elementCount + 1))
      else do
        let offset ← tell
        fail "Must be a comma or ']' after an array element." offset

end

/-- As many calls within calls as a text of this length can need. -/
def fuelFor (length : ℕ) : ℕ := 3 * length + 1

/-- The root. -/
def parseRoot : Parser D Unit := do
  skipWhitespace
  let c ← peek
  let offset ← tell
  if c = '\x00' then fail "Text only contains white space(s)" offset
  else do
    let n ← left
    if c = '{' then parseObject F (fuelFor n)
    else if c = '[' then parseArray F (fuelFor n)
    else fail "Expect either an object or array at root" offset
    skipWhitespace
    let c ← peek
    let offset ← tell
    if c = '\x00' then pure () else fail "Nothing should follow the root object or array." offset

/-- `Parse`: the events that the handler has been told, or why it has stopped; `memory` is where the text is. -/
def parse (memory : Str) : Except (Stop (Event D)) (List (Event D)) :=
  (parseRoot F ⟨memory, 0, []⟩).map fun r => r.2.events

end Doubles

end Reader

end Rapidjson

end GlbBackend
