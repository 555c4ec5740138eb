import GlbBackend.Rapidjson.Value
import GlbBackend.ServerJsonBuilder

/-!
# The writers of `rapidjson`

A `Writer` is told one event after the other.  It keeps a stack of levels, one for each array and object that is open,
with the number of values in it; from these it knows where a comma or a colon goes, and where only a name may stand.  An
assertion that fails is `none`.  A `PrettyWriter` does the same and puts line breaks and indentation between.

What the two have in common is a `Layout`, the white space at every depth, and a text for each layout (`Value.writes`).
`accept_writes`: told by `Accept` what there is in a value, either writer puts out the text of the value if that is an
array or an object, and fails otherwise.  So the replies of the command server, which were taken for `write` of a tree, are
what the writer makes of the document (`toJson_writes`).
-/

namespace GlbBackend

open Text

namespace Rapidjson

variable {D : Type}

/-! ### The state of a writer -/

/-- `enum Type`. -/
inductive JsonType
  | null
  | «false»
  | «true»
  | object
  | array
  | string
  | number
  deriving DecidableEq

/-- `Writer::Level`. -/
structure Level where
  inArray : Bool
  valueCount : ℕ

/-- What has been put out, and the levels that are open, the innermost first. -/
structure Writer where
  out : Str
  levels : List Level

namespace Writer

/-- A writer on an empty stream. -/
def new : Writer := ⟨[], []⟩

def put (w : Writer) (s : Str) : Writer := { w with out := w.out ++ s }

/-- `Prefix`. -/
def putPrefix (w : Writer) (type : JsonType) : Option Writer :=
  match w.levels with
  | [] => if type = .object ∨ type = .array then some w else none
  | level :: levels =>
      let separator : Str :=
        if 0 < level.valueCount then
          if level.inArray then [','] else if level.valueCount % 2 = 0 then [','] else [':']
        else []
      if !level.inArray ∧ level.valueCount % 2 = 0 ∧ type ≠ .string then none
      else some ⟨w.out ++ separator, { level with valueCount := level.valueCount + 1 } :: levels⟩

/-- The loop that fills the buffer with the digits, the lowest first; `size` is the room that is left. -/
def fillDigits : ℕ → ℕ → Option Str
  | 0, _ => none
  | size + 1, u =>
      let c := Char.ofNat (u % 10 + '0'.toNat)
      if 0 < u / 10 then (fillDigits size (u / 10)).map fun cs => c :: cs else some [c]

/-- The digits of a number, from a buffer of the given size. -/
def writeDigits (size u : ℕ) : Option Str := (fillDigits size u).map List.reverse

def writeUint (u : BitVec 32) : Option Str := writeDigits 10 u.toNat

def writeInt (i : BitVec 32) : Option Str :=
  if i.toInt < 0 then (writeUint (-i)).map fun s => '-' :: s else writeUint i

def writeUint64 (u64 : BitVec 64) : Option Str := writeDigits 20 u64.toNat

def writeInt64 (i64 : BitVec 64) : Option Str :=
  if i64.toInt < 0 then (writeUint64 (-i64)).map fun s => '-' :: s else writeUint64 i64

/-- The end of `EndObject` and `EndArray`. -/
def finish (w : Writer) (inArray : Bool) (c : Char) : Option Writer :=
  match w.levels with
  | [] => none
  | level :: levels => if level.inArray = inArray then some ⟨w.out ++ [c], levels⟩ else none

end Writer

/-- `PrettyWriter`, which is a `Writer` with what `SetIndent` sets: it asserts that the character is white space. -/
structure Indent where
  indentChar : Char
  indentCharCount : ℕ
  blank : indentChar = ' ' ∨ indentChar = '\t' ∨ indentChar = '\n' ∨ indentChar = '\r'

namespace Indent

/-- The indentation that a `PrettyWriter` has at first. -/
def new : Indent := ⟨' ', 4, .inl rfl⟩

variable (i : Indent)

/-- `WriteIndent`. -/
def writeIndent (levels : List Level) : Str := List.replicate (levels.length * i.indentCharCount) i.indentChar

/-- `PrettyPrefix`. -/
def prettyPrefix (w : Writer) (type : JsonType) : Option Writer :=
  match w.levels with
  | [] => if type = .object ∨ type = .array then some w else none
  | level :: levels =>
      let separator : Str :=
        if level.inArray then
          (if 0 < level.valueCount then [',', '\n'] else ['\n']) ++ i.writeIndent (level :: levels)
        else
          (if 0 < level.valueCount then if level.valueCount % 2 = 0 then [',', '\n'] else [':', ' '] else ['\n']) ++
            if level.valueCount % 2 = 0 then i.writeIndent (level :: levels) else []
      if !level.inArray ∧ level.valueCount % 2 = 0 ∧ type ≠ .string then none
      else some ⟨w.out ++ separator, { level with valueCount := level.valueCount + 1 } :: levels⟩

/-- The end of `EndObject` and `EndArray`. -/
def prettyFinish (w : Writer) (inArray : Bool) (c : Char) : Option Writer :=
  match w.levels with
  | [] => none
  | level :: levels =>
      if level.inArray = inArray then
        some ⟨w.out ++ (if level.valueCount = 0 then [] else '\n' :: i.writeIndent levels) ++ [c], levels⟩
      else none

end Indent

/-- The functions that `PrettyWriter` has instead of those of `Writer`. -/
structure Style where
  putPrefix : Writer → JsonType → Option Writer
  finish : Writer → Bool → Char → Option Writer

/-- `Writer` -/
def plain : Style := ⟨Writer.putPrefix, Writer.finish⟩

/-- `PrettyWriter` -/
def pretty (i : Indent) : Style := ⟨i.prettyPrefix, i.prettyFinish⟩

namespace Style

variable (S : Style) (format : D → Str)

/-- `format` is what `snprintf` makes of a floating point number; it must be some text. -/
def writeDouble (d : D) : Option Str := if 1 ≤ (format d).length then some (format d) else none

def writeNumber : Number D → Option Str
  | .int i => Writer.writeInt i
  | .uint u => Writer.writeUint u
  | .int64 i64 => Writer.writeInt64 i64
  | .uint64 u64 => Writer.writeUint64 u64
  | .double d => writeDouble format d

/-- `StartObject` and `StartArray`. -/
def start (w : Writer) (type : JsonType) (inArray : Bool) (c : Char) : Option Writer :=
  (S.putPrefix w type).map fun w => ⟨w.out ++ [c], ⟨inArray, 0⟩ :: w.levels⟩

/-- The writer is told an event. -/
def handle (w : Writer) : Event D → Option Writer
  | .null => (S.putPrefix w .null).map fun w => w.put "null".toList
  | .bool true => (S.putPrefix w .true).map fun w => w.put "true".toList
  | .bool false => (S.putPrefix w .false).map fun w => w.put "false".toList
  | .number n => (S.putPrefix w .number).bind fun w => (writeNumber format n).map w.put
  | .string s => (S.putPrefix w .string).map fun w => w.put (writeString s)
  | .startObject => S.start w .object false '{'
  | .endObject _ => S.finish w false '}'
  | .startArray => S.start w .array true '['
  | .endArray _ => S.finish w true ']'

/-- One event after the other. -/
def handleAll (w : Writer) : List (Event D) → Option Writer
  | [] => some w
  | e :: es => (S.handle format w e).bind fun w => handleAll w es

end Style

/-! ### The text of a value -/

/-- White space: before what stands on a line of its own, by depth, and behind a colon. -/
structure Layout where
  line : ℕ → Str
  colon : Str

/-- No white space at all. -/
def compact : Layout := ⟨fun _ => [], []⟩

/-- A line for every element and every member. -/
def indented (i : Indent) : Layout :=
  ⟨fun depth => '\n' :: List.replicate (depth * i.indentCharCount) i.indentChar, [' ']⟩

section Text

variable (format : D → Str) (L : Layout)

def Number.text (n : Number D) : Str :=
  match n with
  | .double d => format d
  | n => decimal (n.value?.getD 0)

mutual

/-- The text of a value at a depth. -/
def Value.text : ℕ → Value D → Str
  | _, .null => "null".toList
  | _, .bool b => if b then "true".toList else "false".toList
  | _, .number n => n.text format
  | _, .string s => writeString s
  | _, .array [] => ['[', ']']
  | depth, .array (v :: es) =>
      '[' :: L.line (depth + 1) ++ v.text (depth + 1) ++ elementTexts (depth + 1) es ++ L.line depth ++ [']']
  | _, .object [] => ['{', '}']
  | depth, .object ((n, v) :: ms) =>
      '{' :: L.line (depth + 1) ++ writeString n ++ ':' :: L.colon ++ v.text (depth + 1) ++
        memberTexts (depth + 1) ms ++ L.line depth ++ ['}']

/-- Elements of an array, a comma before each. -/
def elementTexts : ℕ → List (Value D) → Str
  | _, [] => []
  | depth, v :: es => ',' :: L.line depth ++ v.text depth ++ elementTexts depth es

/-- Members of an object, a comma before each. -/
def memberTexts : ℕ → List (Str × Value D) → Str
  | _, [] => []
  | depth, (n, v) :: ms =>
      ',' :: L.line depth ++ writeString n ++ ':' :: L.colon ++ v.text depth ++ memberTexts depth ms

end

end Text

/-- The type that the prefix of a value is written for. -/
def Value.type : Value D → JsonType
  | .null => .null
  | .bool true => .true
  | .bool false => .false
  | .number _ => .number
  | .string _ => .string
  | .array _ => .array
  | .object _ => .object

/-! ### Numbers fit their buffers -/

theorem ofNat_eq_digitChar : ∀ d < 10, Char.ofNat (d + '0'.toNat) = Nat.digitChar d := by decide

/-- The digits of a number that the buffer has room for. -/
theorem fillDigits_eq {size u : ℕ} (h : u < 10 ^ size) (hsize : 0 < size) :
    Writer.fillDigits size u = some (Nat.toDigits 10 u).reverse := by
  induction size generalizing u with
  | zero => exact absurd hsize (Nat.lt_irrefl 0)
  | succ size ih =>
      have hdigit := ofNat_eq_digitChar (u % 10) (Nat.mod_lt _ (by decide))
      rw [Writer.fillDigits, Nat.toDigits_eq_if (by decide)]
      by_cases hu : u < 10
      · have hdiv : ¬ 0 < u / 10 := by omega
        rw [if_neg hdiv, if_pos hu, hdigit, Nat.mod_eq_of_lt hu]
        rfl
      · have hroom : 0 < size := by
          refine Nat.pos_of_ne_zero fun h0 => hu ?_
          rw [h0] at h
          exact h
        have hlt : u / 10 < 10 ^ size := by
          rw [Nat.div_lt_iff_lt_mul (by decide), ← pow_succ]
          exact h
        rw [if_pos (by omega), if_neg hu, ih hlt hroom, hdigit, List.reverse_append]
        rfl

theorem writeDigits_eq {size u : ℕ} (h : u < 10 ^ size) (hsize : 0 < size) :
    Writer.writeDigits size u = some (Nat.toDigits 10 u) := by
  rw [Writer.writeDigits, fillDigits_eq h hsize, Option.map_some, List.reverse_reverse]

theorem writeUint_eq (u : BitVec 32) : Writer.writeUint u = some (Nat.toDigits 10 u.toNat) :=
  writeDigits_eq (lt_trans u.isLt (by decide)) (by decide)

theorem writeUint64_eq (u64 : BitVec 64) : Writer.writeUint64 u64 = some (Nat.toDigits 10 u64.toNat) :=
  writeDigits_eq (lt_trans u64.isLt (by decide)) (by decide)

/-- The negation of a negative number, the least one included. -/
theorem toNat_neg_of_neg {w : ℕ} {x : BitVec w} (h : x.toInt < 0) : (-x).toNat = x.toInt.natAbs := by
  have hlt := x.isLt
  rw [BitVec.toInt_eq_toNat_cond] at h ⊢
  rw [BitVec.toNat_neg]
  split_ifs at h ⊢ with hmsb
  · omega
  · rw [Nat.mod_eq_of_lt (by omega)]
    omega

theorem toNat_of_nonneg {w : ℕ} {x : BitVec w} (h : ¬ x.toInt < 0) : x.toNat = x.toInt.natAbs := by
  have hlt := x.isLt
  rw [BitVec.toInt_eq_toNat_cond] at h ⊢
  split_ifs at h ⊢ <;> omega

theorem writeInt_eq (i : BitVec 32) : Writer.writeInt i = some (decimal i.toInt) := by
  rw [Writer.writeInt, decimal]
  split_ifs with h
  · rw [writeUint_eq, toNat_neg_of_neg h, Option.map_some]
  · rw [writeUint_eq, toNat_of_nonneg h]

theorem writeInt64_eq (i64 : BitVec 64) : Writer.writeInt64 i64 = some (decimal i64.toInt) := by
  rw [Writer.writeInt64, decimal]
  split_ifs with h
  · rw [writeUint64_eq, toNat_neg_of_neg h, Option.map_some]
  · rw [writeUint64_eq, toNat_of_nonneg h]

theorem decimal_natCast (n : ℕ) : decimal n = Nat.toDigits 10 n := by
  rw [decimal, if_neg (by omega), Int.natAbs_natCast]

section Numbers

variable {format : D → Str}

/-- **Every number is written,** in the room that its buffer has. -/
theorem writeNumber_eq (hformat : ∀ d, 1 ≤ (format d).length) (n : Number D) :
    Style.writeNumber format n = some (n.text format) := by
  cases n with
  | int i => exact writeInt_eq i
  | uint u => exact (writeUint_eq u).trans (congrArg some (decimal_natCast u.toNat).symm)
  | int64 i64 => exact writeInt64_eq i64
  | uint64 u64 => exact (writeUint64_eq u64).trans (congrArg some (decimal_natCast u64.toNat).symm)
  | double d => exact if_pos (hformat d)

/-- The text of an integer shows its value only. -/
theorem text_of_value {n : Number D} {z : ℤ} (h : n.value? = some z) : n.text format = decimal z := by
  cases n with
  | double d => cases h
  | _ => exact congrArg (fun o => decimal (Option.getD o 0)) h

/-- `Accept` does not change the text of a number. -/
theorem text_accept (n : Number D) : n.accept.text format = n.text format := by
  cases hn : n.value? with
  | none =>
      cases n with
      | double d => rfl
      | _ => cases hn
  | some z => rw [text_of_value hn, text_of_value (n.value?_accept.trans hn)]

end Numbers

/-! ### A writer that is told a value -/

section Runs

variable {S : Style} {L : Layout} {format : D → Str} {f : Number D → Number D}

namespace Style

theorem handleAll_append (w : Writer) (es fs : List (Event D)) :
    S.handleAll format w (es ++ fs) = (S.handleAll format w es).bind fun w => S.handleAll format w fs := by
  induction es generalizing w with
  | nil => rfl
  | cons e es ih =>
      rw [List.cons_append, handleAll, handleAll, Option.bind_assoc]
      exact Option.bind_congr fun w' _ => ih w'

theorem handleAll_cons (w : Writer) (e : Event D) (es : List (Event D)) :
    S.handleAll format w (e :: es) = (S.handle format w e).bind fun w => S.handleAll format w es := rfl

theorem handleAll_single (w : Writer) (e : Event D) : S.handleAll format w [e] = S.handle format w e := by
  rw [handleAll_cons]
  exact Option.bind_fun_some _

end Style

/-- The functions put out the white space of a layout. -/
structure Follows (S : Style) (L : Layout) : Prop where
  root : ∀ out type, S.putPrefix ⟨out, []⟩ type = if type = .object ∨ type = .array then some ⟨out, []⟩ else none
  element : ∀ out k ls type, S.putPrefix ⟨out, ⟨true, k⟩ :: ls⟩ type =
    some ⟨out ++ ((if 0 < k then [','] else []) ++ L.line (ls.length + 1)), ⟨true, k + 1⟩ :: ls⟩
  name : ∀ out k ls, S.putPrefix ⟨out, ⟨false, 2 * k⟩ :: ls⟩ .string =
    some ⟨out ++ ((if 0 < k then [','] else []) ++ L.line (ls.length + 1)), ⟨false, 2 * k + 1⟩ :: ls⟩
  named : ∀ out k ls type, S.putPrefix ⟨out, ⟨false, 2 * k + 1⟩ :: ls⟩ type =
    some ⟨out ++ ':' :: L.colon, ⟨false, 2 * (k + 1)⟩ :: ls⟩
  finish : ∀ out inArray k ls c, S.finish ⟨out, ⟨inArray, k⟩ :: ls⟩ inArray c =
    some ⟨out ++ (if 0 < k then L.line ls.length else []) ++ [c], ls⟩

theorem plain_follows : Follows plain compact := by
  have heven : ∀ k, 2 * k % 2 = 0 := fun k => by omega
  have hodd : ∀ k, (2 * k + 1) % 2 = 1 := fun k => by omega
  refine ⟨fun _ _ => rfl, fun out k ls type => ?_, fun out k ls => ?_, fun out k ls type => ?_,
    fun out inArray k ls c => ?_⟩
  · simp [plain, Writer.putPrefix, compact]
  · simp [plain, Writer.putPrefix, compact, heven]
  · simp [plain, Writer.putPrefix, compact, hodd, Nat.mul_succ]
  · simp [plain, Writer.finish, compact]

theorem pretty_follows (i : Indent) : Follows (pretty i) (indented i) := by
  have heven : ∀ k, 2 * k % 2 = 0 := fun k => by omega
  have hodd : ∀ k, (2 * k + 1) % 2 = 1 := fun k => by omega
  refine ⟨fun _ _ => rfl, fun out k ls type => ?_, fun out k ls => ?_, fun out k ls type => ?_,
    fun out inArray k ls c => ?_⟩
  · by_cases hk : 0 < k <;> simp [pretty, Indent.prettyPrefix, Indent.writeIndent, indented, hk]
  · by_cases hk : 0 < k <;> simp [pretty, Indent.prettyPrefix, Indent.writeIndent, indented, heven, hk]
  · simp [pretty, Indent.prettyPrefix, indented, hodd, Nat.mul_succ]
  · by_cases hk : k = 0
    · simp [pretty, Indent.prettyFinish, hk]
    · simp [pretty, Indent.prettyFinish, Indent.writeIndent, indented, hk, Nat.pos_of_ne_zero hk]

mutual

/-- **A value,** wherever it may stand: the prefix, and then its text. -/
theorem Value.writes (hS : Follows S L) (hformat : ∀ d, 1 ≤ (format d).length)
    (hf : ∀ n, (f n).text format = n.text format) (v : Value D) (w : Writer) :
    S.handleAll format w (v.events f) =
      (S.putPrefix w v.type).map fun w => w.put (v.text format L w.levels.length) := by
  match v with
  | .null => exact Style.handleAll_single w _
  | .bool true => exact Style.handleAll_single w _
  | .bool false => exact Style.handleAll_single w _
  | .string s => exact Style.handleAll_single w _
  | .number n =>
      rw [Value.events, Style.handleAll_single]
      show (S.putPrefix w .number).bind _ = (S.putPrefix w .number).map _
      rw [writeNumber_eq hformat, hf]
      cases S.putPrefix w .number <;> rfl
  | .array es =>
      rw [Value.events, List.cons_append, Style.handleAll_cons]
      show ((S.putPrefix w .array).map _).bind _ = (S.putPrefix w .array).map _
      cases S.putPrefix w .array with
      | none => rfl
      | some w =>
          show S.handleAll format ⟨w.out ++ ['['], ⟨true, 0⟩ :: w.levels⟩ _ = _
          rw [Style.handleAll_append, elements_write hS hformat hf es, Option.bind_some, Style.handleAll_single]
          show S.finish _ true ']' = some (Writer.mk _ _)
          rw [hS.finish]
          cases es <;> simp [Value.text, elementTexts]
  | .object ms =>
      rw [Value.events, List.cons_append, Style.handleAll_cons]
      show ((S.putPrefix w .object).map _).bind _ = (S.putPrefix w .object).map _
      cases S.putPrefix w .object with
      | none => rfl
      | some w =>
          show S.handleAll format ⟨w.out ++ ['{'], ⟨false, 2 * 0⟩ :: w.levels⟩ _ = _
          rw [Style.handleAll_append, members_write hS hformat hf ms, Option.bind_some, Style.handleAll_single]
          show S.finish _ false '}' = some (Writer.mk _ _)
          rw [hS.finish]
          cases ms <;> simp [Value.text, memberTexts]

/-- The elements of an array, behind `k` that have been written. -/
theorem elements_write (hS : Follows S L) (hformat : ∀ d, 1 ≤ (format d).length)
    (hf : ∀ n, (f n).text format = n.text format) (es : List (Value D)) (out : Str) (k : ℕ) (ls : List Level) :
    S.handleAll format ⟨out, ⟨true, k⟩ :: ls⟩ (elementEvents f es) =
      some ⟨out ++ (if 0 < k then elementTexts format L (ls.length + 1) es
        else (elementTexts format L (ls.length + 1) es).tail), ⟨true, k + es.length⟩ :: ls⟩ := by
  match es with
  | [] =>
      show some _ = some _
      simp [elementTexts]
  | v :: es =>
      rw [elementEvents, Style.handleAll_append, Value.writes hS hformat hf v, hS.element, Option.map_some,
        Option.bind_some, Writer.put, elements_write hS hformat hf es, if_pos (Nat.succ_pos k), elementTexts]
      congr 2
      · by_cases hk : 0 < k <;> simp [hk]
      · rw [List.length_cons, Nat.add_assoc, Nat.add_comm 1]

/-- The members of an object, behind `k` that have been written. -/
theorem members_write (hS : Follows S L) (hformat : ∀ d, 1 ≤ (format d).length)
    (hf : ∀ n, (f n).text format = n.text format) (ms : List (Str × Value D)) (out : Str) (k : ℕ) (ls : List Level) :
    S.handleAll format ⟨out, ⟨false, 2 * k⟩ :: ls⟩ (memberEvents f ms) =
      some ⟨out ++ (if 0 < k then memberTexts format L (ls.length + 1) ms
        else (memberTexts format L (ls.length + 1) ms).tail), ⟨false, 2 * (k + ms.length)⟩ :: ls⟩ := by
  match ms with
  | [] =>
      show some _ = some _
      simp [memberTexts]
  | (n, v) :: ms =>
      rw [memberEvents, List.cons_append, Style.handleAll_cons]
      show ((S.putPrefix _ .string).map _).bind _ = _
      rw [hS.name, Option.map_some, Option.bind_some, Writer.put, Style.handleAll_append, Value.writes hS hformat hf v,
        hS.named, Option.map_some, Option.bind_some, Writer.put, members_write hS hformat hf ms,
        if_pos (Nat.succ_pos k), memberTexts]
      congr 2
      · by_cases hk : 0 < k <;> simp [hk]
      · rw [List.length_cons, Nat.add_assoc, Nat.add_comm 1]

end

/-- A document, told to a new writer. -/
theorem accept_root (hS : Follows S L) (hformat : ∀ d, 1 ≤ (format d).length) (v : Value D) :
    S.handleAll format .new v.accept = if v.isContainer then some ⟨v.text format L 0, []⟩ else none := by
  rw [Value.accept, Value.writes hS hformat text_accept, Writer.new, hS.root]
  cases v with
  | bool b => cases b <;> rfl
  | _ => rfl

/-- A writer with this indentation, or without any. -/
def writer : Option Indent → Style
  | none => plain
  | some i => pretty i

/-- The layout of its texts. -/
def layout : Option Indent → Layout
  | none => compact
  | some i => indented i

theorem writer_follows : ∀ i, Follows (writer i) (layout i)
  | none => plain_follows
  | some i => pretty_follows i

/-- **A document and its text.**  What `Accept` tells of a value makes a new writer put out the text of the value, with
all levels closed, if the value is an array or an object; told anything else, the writer fails. -/
theorem accept_writes (i : Option Indent) (hformat : ∀ d, 1 ≤ (format d).length) (v : Value D) :
    (writer i).handleAll format .new v.accept =
      if v.isContainer then some ⟨v.text format (layout i) 0, []⟩ else none :=
  accept_root (writer_follows i) hformat v

/-- A member whose value has elements of every kind; there is one floating point number, and this is its text. -/
def mixed : Value Unit :=
  .object [("a\n".toList, .array [.null, .bool true, .number (.int (-2147483648)), .number (.double ()), .object []])]

theorem accept_writes_mixed :
    (writer none).handleAll (fun _ => "0.5".toList) .new mixed.accept =
      some ⟨"\x7b\"a\\n\":[null,true,-2147483648,0.5,\x7b\x7d]\x7d".toList, []⟩ :=
  accept_writes none (fun _ => by decide) mixed

example : (Value.array [.null, .object [(['a'], .number (.int 1))]]).text (fun _ : Unit => []) (indented .new) 0 =
    "[\n    null,\n    \x7b\n        \"a\": 1\n    \x7d\n]".toList := by decide

end Runs

/-! ### The replies of the command server -/

section Replies

mutual

/-- The document of a tree. -/
def ofJson : Json → Value D
  | .string s => .string s
  | .int64 i => .number (.int64 (BitVec.ofInt 64 i))
  | .array es => .array (ofElements es)
  | .object ms => .object (ofMembers ms)

def ofElements : List Json → List (Value D)
  | [] => []
  | j :: js => ofJson j :: ofElements js

def ofMembers : List (Str × Json) → List (Str × Value D)
  | [] => []
  | (n, j) :: ms => (n, ofJson j) :: ofMembers ms

end

mutual

/-- The integers of a tree are in the range of `int64_t`. -/
def InRange : Json → Prop
  | .string _ => True
  | .int64 i => -2 ^ 63 ≤ i ∧ i < 2 ^ 63
  | .array es => ElementsInRange es
  | .object ms => MembersInRange ms

def ElementsInRange : List Json → Prop
  | [] => True
  | j :: js => InRange j ∧ ElementsInRange js

def MembersInRange : List (Str × Json) → Prop
  | [] => True
  | (_, j) :: ms => InRange j ∧ MembersInRange ms

end

variable {format : D → Str}

/-- Without white space, what the first element has before it is a comma less. -/
theorem compact_array (depth : ℕ) (es : List (Value D)) : (Value.array es).text format compact depth =
    '[' :: (elementTexts format compact (depth + 1) es).tail ++ [']'] := by
  cases es <;> simp [Value.text, elementTexts, compact]

theorem compact_object (depth : ℕ) (ms : List (Str × Value D)) : (Value.object ms).text format compact depth =
    '{' :: (memberTexts format compact (depth + 1) ms).tail ++ ['}'] := by
  cases ms <;> simp [Value.text, memberTexts, compact]

mutual

/-- The text of a document is what is written for its tree. -/
theorem text_ofJson (j : Json) (h : InRange j) (depth : ℕ) :
    (ofJson j : Value D).text format compact depth = write j := by
  match j with
  | .string s => rfl
  | .int64 i =>
      show decimal (BitVec.ofInt 64 i).toInt = decimal i
      rw [BitVec.toInt_ofInt, Int.bmod_eq_of_le (by push_cast; exact h.1) (by push_cast; exact h.2)]
  | .array [] => rfl
  | .array (e :: es) =>
      rw [ofJson, compact_array, elementTexts_ofElements (e :: es) (List.cons_ne_nil e es) h, write]
      rfl
  | .object [] => rfl
  | .object (m :: ms) =>
      rw [ofJson, compact_object, memberTexts_ofMembers (m :: ms) (List.cons_ne_nil m ms) h, write]
      rfl

theorem elementTexts_ofElements (es : List Json) (hes : es ≠ []) (h : ElementsInRange es) (depth : ℕ) :
    elementTexts format compact depth (ofElements es : List (Value D)) = ',' :: writeElements es := by
  match es, h with
  | [], _ => exact absurd rfl hes
  | [e], h =>
      rw [ofElements, ofElements, elementTexts, elementTexts, text_ofJson e h.1, List.append_nil]
      rfl
  | e :: e' :: es, h =>
      rw [ofElements, elementTexts, text_ofJson e h.1,
        elementTexts_ofElements (e' :: es) (List.cons_ne_nil e' es) h.2]
      rfl

theorem memberTexts_ofMembers (ms : List (Str × Json)) (hms : ms ≠ []) (h : MembersInRange ms) (depth : ℕ) :
    memberTexts format compact depth (ofMembers ms : List (Str × Value D)) = ',' :: writeMembers ms := by
  match ms, h with
  | [], _ => exact absurd rfl hms
  | [(n, e)], h =>
      rw [ofMembers, ofMembers, memberTexts, memberTexts, text_ofJson e h.1, List.append_nil]
      simp [compact, writeMembers]
  | (n, e) :: m :: ms, h =>
      rw [ofMembers, memberTexts, text_ofJson e h.1, memberTexts_ofMembers (m :: ms) (List.cons_ne_nil m ms) h.2]
      simp [compact, writeMembers]

end

theorem membersInRange_append {ms ms' : List (Str × Json)} (h : MembersInRange ms) (h' : MembersInRange ms') :
    MembersInRange (ms ++ ms') := by
  induction ms with
  | nil => exact h'
  | cons m ms ih => exact ⟨h.1, ih h.2⟩

theorem elementsInRange_map {α : Type} {g : α → Json} {xs : List α} (h : ∀ x ∈ xs, InRange (g x)) :
    ElementsInRange (xs.map g) := by
  induction xs with
  | nil => trivial
  | cons x xs ih => exact ⟨h x List.mem_cons_self, ih fun y hy => h y (List.mem_cons_of_mem x hy)⟩

/-- A member that may be there. -/
theorem membersInRange_optional {b : Bool} {n : Str} {j : Json} (h : InRange j) :
    MembersInRange (if b then [(n, j)] else []) := by
  cases b with
  | true => exact ⟨h, trivial⟩
  | false => trivial

theorem membersInRange_reply {jb : ServerJsonBuilder}
    (hcounts : ∀ fc ∈ jb.counts, -2 ^ 63 ≤ fc.count ∧ fc.count < 2 ^ 63) : MembersInRange jb.members := by
  have hips : ∀ ij ∈ jb.ips, InRange (ServerJsonBuilder.ipObj ij) := fun ij _ =>
    ⟨trivial, membersInRange_optional trivial⟩
  exact membersInRange_append (membersInRange_append (membersInRange_append (membersInRange_append
    (membersInRange_append (membersInRange_append (membersInRange_optional trivial) (membersInRange_optional trivial))
      (membersInRange_optional trivial)) (membersInRange_optional trivial))
    (membersInRange_optional (elementsInRange_map fun fc hfc => ⟨trivial, hcounts fc hfc, trivial⟩)))
    (membersInRange_optional (elementsInRange_map fun _ _ => trivial)))
    (membersInRange_optional (elementsInRange_map hips))

/-- **The reply of a command** is what the writer makes of the document, event by event. -/
theorem toJson_writes (hformat : ∀ d, 1 ≤ (format d).length) {jb : ServerJsonBuilder}
    (hcounts : ∀ fc ∈ jb.counts, -2 ^ 63 ≤ fc.count ∧ fc.count < 2 ^ 63) :
    plain.handleAll format .new (ofJson (.object jb.members) : Value D).accept = some ⟨jb.toJson, []⟩ := by
  rw [accept_root plain_follows hformat, text_ofJson (.object jb.members) (membersInRange_reply hcounts)]
  rfl

end Replies

end Rapidjson

end GlbBackend
