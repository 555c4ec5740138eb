import GlbBackend.Rapidjson.Safety

/-!
# The document of `rapidjson`

`GenericDocument` is a handler of the reader: it puts every value on a stack, and at the end of an array or an object it
takes as many as the reader has counted off the stack and makes them the content of what is below.  `ParseStream` asserts
that one value is left, which becomes the root.

The assertions are about the stack, so they are about all the events that came before.  They hold because these are the
events of a value (`handleAll_events`) or, at an error, the first of them.
-/

namespace GlbBackend

open Text Text.Scanner

namespace Rapidjson

variable {D : Type}

/-- `GenericDocument`: the root, the stack with its top first, and the error of the last text. -/
structure Document (D : Type) where
  root : Value D
  stack : List (Value D)
  parseError : Option String
  errorOffset : ℕ

namespace Document

/-- A document into which nothing has been parsed. -/
def new : Document D := ⟨.null, [], none, 0⟩

/-- `Pop`: values in the order in which they have been pushed. -/
def pop (count : ℕ) (stack : List (Value D)) : Option (List (Value D) × List (Value D)) :=
  if count ≤ stack.length then some ((stack.take count).reverse, stack.drop count) else none

/-- Values as members: each is a name and a value, where names are strings. -/
def members? : List (Value D) → Option (List (Str × Value D))
  | [] => some []
  | .string n :: v :: vs => (members? vs).map fun ms => (n, v) :: ms
  | _ => none

/-- `Top`, on which a value is built. -/
def replaceTop (v : Value D) : List (Value D) → Option (List (Value D))
  | [] => none
  | _ :: stack => some (v :: stack)

/-- The functions of `Handler`. -/
def handle (stack : List (Value D)) : Event D → Option (List (Value D))
  | .null => some (.null :: stack)
  | .bool b => some (.bool b :: stack)
  | .number n => some (.number n :: stack)
  | .string s => some (.string s :: stack)
  | .startObject => some (.object [] :: stack)
  | .endObject memberCount => do
      let (vs, stack) ← pop (2 * memberCount) stack
      let ms ← members? vs
      replaceTop (.object ms) stack
  | .startArray => some (.array [] :: stack)
  | .endArray elementCount => do
      let (es, stack) ← pop elementCount stack
      replaceTop (.array es) stack

/-- One event after the other. -/
def handleAll (stack : List (Value D)) : List (Event D) → Option (List (Value D))
  | [] => some stack
  | e :: es => (handle stack e).bind fun stack => handleAll stack es

/-- `ParseStream`; an assertion that fails is `none`, as is what the reader does not do. -/
def parse (F : Doubles D) (doc : Document D) (memory : Str) : Option (Document D) :=
  match Reader.parse F memory with
  | .ok events => do
      let stack ← handleAll doc.stack events
      match stack with
      | [v] => some ⟨v, [], none, 0⟩
      | _ => none
  | .error (.error message offset events) => do
      let _ ← handleAll doc.stack events
      some ⟨.null, [], some message, offset⟩
  | .error _ => none

/-- One text after the other. -/
def parseAll (F : Doubles D) (doc : Document D) : List Str → Option (Document D)
  | [] => some doc
  | memory :: memories => (doc.parse F memory).bind fun doc => doc.parseAll F memories

/-! ### The stack -/

/-- What the members of an object are on the stack. -/
def flatten : List (Str × Value D) → List (Value D)
  | [] => []
  | (n, v) :: ms => .string n :: v :: flatten ms

theorem members?_flatten (ms : List (Str × Value D)) : members? (flatten ms) = some ms := by
  induction ms with
  | nil => rfl
  | cons m ms ih => rw [flatten, members?, ih, Option.map_some]

theorem length_flatten (ms : List (Str × Value D)) : (flatten ms).length = 2 * ms.length := by
  induction ms with
  | nil => rfl
  | cons m ms ih =>
      rw [flatten, List.length_cons, List.length_cons, ih, List.length_cons]
      omega

/-- What has been pushed is popped. -/
theorem pop_reverse (vs stack : List (Value D)) : pop vs.length (vs.reverse ++ stack) = some (vs, stack) := by
  have hlen : vs.reverse.length = vs.length := List.length_reverse
  rw [pop, if_pos (by rw [List.length_append, hlen]; exact Nat.le_add_right _ _), List.take_left' hlen,
    List.drop_left' hlen, List.reverse_reverse]

theorem handleAll_append (stack : List (Value D)) (es fs : List (Event D)) :
    handleAll stack (es ++ fs) = (handleAll stack es).bind fun stack => handleAll stack fs := by
  induction es generalizing stack with
  | nil => rfl
  | cons e es ih =>
      rw [List.cons_append, handleAll, handleAll, Option.bind_assoc]
      exact Option.bind_congr fun stack _ => ih stack

theorem handle_endArray (es stack : List (Value D)) (v : Value D) :
    handle (es.reverse ++ v :: stack) (.endArray es.length) = some (.array es :: stack) := by
  rw [handle, pop_reverse]
  rfl

theorem handle_endObject (ms : List (Str × Value D)) (stack : List (Value D)) (v : Value D) :
    handle ((flatten ms).reverse ++ v :: stack) (.endObject ms.length) = some (.object ms :: stack) := by
  rw [handle, ← length_flatten, pop_reverse]
  show (members? (flatten ms)).bind _ = _
  rw [members?_flatten]
  rfl

section Events

variable (f : Number D → Number D)

mutual

/-- **The events of a value** leave the value on the stack. -/
theorem handleAll_events (v : Value D) (stack : List (Value D)) :
    handleAll stack (v.events f) = some (v.map f :: stack) := by
  match v with
  | .null => rfl
  | .bool b => rfl
  | .number n => rfl
  | .string s => rfl
  | .array es =>
      rw [Value.events, List.cons_append, handleAll]
      show handleAll (.array [] :: stack) _ = _
      rw [handleAll_append, handleAll_elements es, Option.bind_some, handleAll, ← length_mapElements f es,
        handle_endArray]
      rfl
  | .object ms =>
      rw [Value.events, List.cons_append, handleAll]
      show handleAll (.object [] :: stack) _ = _
      rw [handleAll_append, handleAll_members ms, Option.bind_some, handleAll, ← length_mapMembers f ms,
        handle_endObject]
      rfl

theorem handleAll_elements (es stack : List (Value D)) :
    handleAll stack (elementEvents f es) = some ((mapElements f es).reverse ++ stack) := by
  match es with
  | [] => rfl
  | v :: es =>
      rw [elementEvents, handleAll_append, handleAll_events v, Option.bind_some, handleAll_elements es, mapElements,
        List.reverse_cons, List.append_assoc, List.singleton_append]

theorem handleAll_members (ms : List (Str × Value D)) (stack : List (Value D)) :
    handleAll stack (memberEvents f ms) = some ((flatten (mapMembers f ms)).reverse ++ stack) := by
  match ms with
  | [] => rfl
  | (n, v) :: ms =>
      rw [memberEvents, List.cons_append, handleAll]
      show handleAll (.string n :: stack) _ = _
      rw [handleAll_append, handleAll_events v, Option.bind_some, handleAll_members ms, mapMembers, flatten,
        List.reverse_cons, List.reverse_cons, List.append_assoc, List.append_assoc, List.singleton_append,
        List.singleton_append]

end

end Events

mutual

theorem map_id (v : Value D) : v.map id = v := by
  match v with
  | .null => rfl
  | .bool b => rfl
  | .number n => rfl
  | .string s => rfl
  | .array es => rw [Value.map, mapElements_id es]
  | .object ms => rw [Value.map, mapMembers_id ms]

theorem mapElements_id (es : List (Value D)) : mapElements id es = es := by
  match es with
  | [] => rfl
  | v :: es => rw [mapElements, map_id v, mapElements_id es]

theorem mapMembers_id (ms : List (Str × Value D)) : mapMembers id ms = ms := by
  match ms with
  | [] => rfl
  | (n, v) :: ms => rw [mapMembers, map_id v, mapMembers_id ms]

end

/-- What the reader has reported up to an error does not fail an assertion. -/
theorem handleAll_begins {events : List (Event D)} (h : Reader.Begins events) (stack : List (Value D)) :
    ∃ stack', handleAll stack events = some stack' := by
  obtain ⟨v, rest, hv⟩ := h
  have hall := handleAll_events id v stack
  rw [hv, handleAll_append] at hall
  cases hbegin : handleAll stack events with
  | none =>
      rw [hbegin] at hall
      cases hall
  | some stack' => exact ⟨stack', rfl⟩

/-! ### Parsing -/

section Parse

variable {F : Doubles D} {memory : Str}

/-- What there is after a text: the value whose events the reader has reported, or the error. -/
inductive Parsed (F : Doubles D) (memory : Str) : Document D → Prop
  | root {v : Value D} (hv : v.isContainer = true) (hevents : Reader.parse F memory = .ok (v.events id)) :
      Parsed F memory ⟨v, [], none, 0⟩
  | error {message : String} {offset : ℕ} {events : List (Event D)}
      (hstop : Reader.parse F memory = .error (.error message offset events))
      (hoffset : offset ≤ memory.idxOf '\x00' + 1) : Parsed F memory ⟨.null, [], some message, offset⟩

theorem Parsed.stack_eq {doc : Document D} (h : Parsed F memory doc) : doc.stack = [] := by
  cases h <;> rfl

/-- One text, when the stack is empty. -/
theorem parse_parsed (F : Doubles D) {memory : Str} (hnul : '\x00' ∈ memory) {doc : Document D} (hstack : doc.stack = []) :
    ∃ doc', doc.parse F memory = some doc' ∧ Parsed F memory doc' := by
  have hsettles : Settles (memory.idxOf '\x00' + 1) Reader.Begins (fun events => ∃ v : Value D, v.isContainer = true ∧
      events = v.events id) (Reader.parse F memory) :=
    Settles.map (Settles.mono (Reader.wp_parseRoot F hnul) fun _ hr => hr.imp fun _ h => ⟨h.1, h.2.reported⟩)
  generalize hread : Reader.parse F memory = r at hsettles
  cases hsettles with
  | ok h =>
      obtain ⟨v, hv, hevents⟩ := h
      refine ⟨⟨v, [], none, 0⟩, ?_, .root hv (hevents ▸ hread)⟩
      rw [parse, hread, hevents, hstack]
      show (handleAll [] (v.events id)).bind _ = _
      rw [handleAll_events, map_id]
      rfl
  | @error message offset events h hbegun =>
      refine ⟨⟨.null, [], some message, offset⟩, ?_, .error hread h⟩
      obtain ⟨stack, hbegin⟩ := handleAll_begins hbegun doc.stack
      rw [parse, hread]
      show (handleAll doc.stack events).bind _ = _
      rw [hbegin]
      rfl

/-- Only the stack of a document matters for the next text. -/
theorem parse_congr (F : Doubles D) (memory : Str) {doc doc' : Document D} (h : doc.stack = doc'.stack) :
    doc.parse F memory = doc'.parse F memory := by
  rw [parse, parse, h]

theorem parseAll_stack (F : Doubles D) {memories : List Str} (h : ∀ memory ∈ memories, '\x00' ∈ memory)
    {doc : Document D} (hstack : doc.stack = []) :
    ∃ doc', doc.parseAll F memories = some doc' ∧ doc'.stack = [] := by
  induction memories generalizing doc with
  | nil => exact ⟨doc, rfl, hstack⟩
  | cons memory memories ih =>
      obtain ⟨doc₁, hparse, hparsed⟩ := parse_parsed F (h memory List.mem_cons_self) hstack
      obtain ⟨doc', hall, hstack'⟩ := ih (fun m hm => h m (List.mem_cons_of_mem memory hm)) hparsed.stack_eq
      refine ⟨doc', ?_, hstack'⟩
      rw [parseAll, hparse, Option.bind_some, hall]

/-- **A document that is used again and again.**  Whatever texts have been parsed into it, with or without errors, the next
one comes out as in a new document: no assertion fails, and there is the value whose events the reader reports, or the
root is null and there is the reader's error. -/
theorem parseAll_parses (F : Doubles D) {memories : List Str} (h : ∀ memory ∈ memories, '\x00' ∈ memory) {memory : Str}
    (hnul : '\x00' ∈ memory) :
    ∃ doc doc', new.parseAll F memories = some doc ∧ doc.parse F memory = some doc' ∧
      new.parse F memory = some doc' ∧ Parsed F memory doc' := by
  obtain ⟨doc, hall, hstack⟩ := parseAll_stack F h (rfl : (new : Document D).stack = [])
  obtain ⟨doc', hparse, hparsed⟩ := parse_parsed F hnul hstack
  exact ⟨doc, doc', hall, hparse, (parse_congr F memory hstack.symm).trans hparse, hparsed⟩

theorem parseAll_parses_again :
    ∃ doc doc', new.parseAll Reader.numerals [Reader.unfinished] = some doc ∧
      doc.parse Reader.numerals "[true]\x00".toList = some doc' ∧
      new.parse Reader.numerals "[true]\x00".toList = some doc' ∧
      Parsed Reader.numerals "[true]\x00".toList doc' :=
  parseAll_parses Reader.numerals (List.forall_mem_singleton.mpr (by decide)) (by decide)

end Parse

end Document

end Rapidjson

end GlbBackend
