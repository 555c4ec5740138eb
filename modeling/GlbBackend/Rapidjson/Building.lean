import GlbBackend.Imperative.Blocks
import GlbBackend.Rapidjson.Writer

/-!
# Building a document of `rapidjson`

What `SetString`, `PushBack` and `AddMember` make.  A string that is set without an allocator is not copied: the value
holds a pointer into the string that it came from, and only `Accept` reads the characters, so that string must live until
then.  Arrays and objects have room for a number of elements, which grows when it is used up, and an element that is
stored must find room.

`Dom.value` is what `Accept` would find in the memory of the moment (`accept_eq`).  An assertion that fails is `stuck`.
-/

namespace GlbBackend

open Text Imperative Imperative.Blocks

namespace Rapidjson

/-- A value with the pointers that it holds. -/
inductive Dom
  | string (str length : ℕ)
  | int64 (i64 : BitVec 64)
  | array (elements : List Dom) (capacity : ℕ)
  | object (members : List (Str × Dom)) (capacity : ℕ)

/-- A value without floating point numbers. -/
abbrev Tree := Value Empty

namespace Dom

/-- `SetString(s)`: the pointer, and the length that `StrLen` finds. -/
def setString (p : ℕ) : Blocks Str Dom := do
  let s ← content p
  pure (.string p (cString s).length)

/-- The capacity when one more is to be stored. -/
def grow (capacity size : ℕ) : ℕ :=
  if capacity ≤ size then if capacity = 0 then 16 else capacity * 2 else capacity

/-- `PushBack`. -/
def pushBack (d v : Dom) : Except Fault Dom :=
  match d with
  | .array es capacity =>
      if es.length < grow capacity es.length then .ok (.array (es ++ [v]) (grow capacity es.length))
      else .error .outOfRange
  | _ => .error .stuck

/-- `AddMember`, where the name is a literal. -/
def addMember (d : Dom) (name : Str) (v : Dom) : Except Fault Dom :=
  match d with
  | .object ms capacity =>
      if ms.length < grow capacity ms.length then .ok (.object (ms ++ [(name, v)]) (grow capacity ms.length))
      else .error .outOfRange
  | _ => .error .stuck

section Value

variable (h : Heap Str)

mutual

/-- The value that there is in memory. -/
def value : Dom → Except Fault Tree
  | .string str length => do
      let s ← look h str
      pure (.string (s.take length))
  | .int64 i64 => pure (.number (.int64 i64))
  | .array es _ => do
      let vs ← elementValues es
      pure (.array vs)
  | .object ms _ => do
      let vs ← memberValues ms
      pure (.object vs)

def elementValues : List Dom → Except Fault (List Tree)
  | [] => pure []
  | d :: es => do
      let v ← d.value
      let vs ← elementValues es
      pure (v :: vs)

def memberValues : List (Str × Dom) → Except Fault (List (Str × Tree))
  | [] => pure []
  | (name, d) :: ms => do
      let v ← d.value
      let vs ← memberValues ms
      pure ((name, v) :: vs)

end

end Value

mutual

/-- `Accept`, which reads the characters of a string when it comes to it. -/
def accept : Dom → Blocks Str (List (Event Empty))
  | .string str length => do
      let s ← content str
      pure [.string (s.take length)]
  | .int64 i64 => pure [.number (Number.int64 i64).accept]
  | .array es _ => do
      let events ← acceptElements es
      pure (.startArray :: events ++ [.endArray es.length])
  | .object ms _ => do
      let events ← acceptMembers ms
      pure (.startObject :: events ++ [.endObject ms.length])

def acceptElements : List Dom → Blocks Str (List (Event Empty))
  | [] => pure []
  | d :: es => do
      let events ← d.accept
      let events' ← acceptElements es
      pure (events ++ events')

def acceptMembers : List (Str × Dom) → Blocks Str (List (Event Empty))
  | [] => pure []
  | (name, d) :: ms => do
      let events ← d.accept
      let events' ← acceptMembers ms
      pure (.string name :: events ++ events')

end

/-! ### What is read -/

section Read

variable {h : Heap Str}

/-- An element at a time. -/
theorem elementValues_cons {d : Dom} {es : List Dom} {vs : List Tree} (hvs : elementValues h (d :: es) = .ok vs) :
    ∃ v vs', vs = v :: vs' ∧ d.value h = .ok v ∧ elementValues h es = .ok vs' := by
  rw [elementValues] at hvs
  cases hv : d.value h with
  | error e =>
      rw [hv] at hvs
      cases hvs
  | ok v =>
      cases hvs' : elementValues h es with
      | error e =>
          rw [hv, hvs'] at hvs
          cases hvs
      | ok vs' =>
          rw [hv, hvs'] at hvs
          cases hvs
          exact ⟨v, vs', rfl, rfl, rfl⟩

theorem memberValues_cons {name : Str} {d : Dom} {ms : List (Str × Dom)} {vs : List (Str × Tree)}
    (hvs : memberValues h ((name, d) :: ms) = .ok vs) :
    ∃ v vs', vs = (name, v) :: vs' ∧ d.value h = .ok v ∧ memberValues h ms = .ok vs' := by
  rw [memberValues] at hvs
  cases hv : d.value h with
  | error e =>
      rw [hv] at hvs
      cases hvs
  | ok v =>
      cases hvs' : memberValues h ms with
      | error e =>
          rw [hv, hvs'] at hvs
          cases hvs
      | ok vs' =>
          rw [hv, hvs'] at hvs
          cases hvs
          exact ⟨v, vs', rfl, rfl, rfl⟩

theorem elementValues_length {es : List Dom} {vs : List Tree} (hvs : elementValues h es = .ok vs) :
    vs.length = es.length := by
  induction es generalizing vs with
  | nil =>
      cases hvs
      rfl
  | cons d es ih =>
      obtain ⟨v, vs', rfl, -, hvs'⟩ := elementValues_cons hvs
      rw [List.length_cons, List.length_cons, ih hvs']

theorem memberValues_length {ms : List (Str × Dom)} {vs : List (Str × Tree)} (hvs : memberValues h ms = .ok vs) :
    vs.length = ms.length := by
  induction ms generalizing vs with
  | nil =>
      cases hvs
      rfl
  | cons m ms ih =>
      obtain ⟨v, vs', rfl, -, hvs'⟩ := memberValues_cons hvs
      rw [List.length_cons, List.length_cons, ih hvs']

mutual

/-- **What `Accept` tells** is the value in memory, which stays as it is. -/
theorem accept_eq (d : Dom) : d.accept h = (d.value h).map fun v => (v.accept, h) := by
  match d with
  | .string str length =>
      rw [accept, value]
      cases hs : look h str with
      | ok s => exact bind_ok (content_live hs)
      | error e => exact bind_error (by rw [content, hs]; rfl)
  | .int64 i64 => rfl
  | .array es capacity =>
      rw [accept, value]
      have hes := acceptElements_eq es
      cases hvs : elementValues h es with
      | ok vs =>
          rw [hvs] at hes
          refine (bind_ok hes).trans ?_
          rw [← elementValues_length hvs]
          rfl
      | error e =>
          rw [hvs] at hes
          exact bind_error hes
  | .object ms capacity =>
      rw [accept, value]
      have hms := acceptMembers_eq ms
      cases hvs : memberValues h ms with
      | ok vs =>
          rw [hvs] at hms
          refine (bind_ok hms).trans ?_
          rw [← memberValues_length hvs]
          rfl
      | error e =>
          rw [hvs] at hms
          exact bind_error hms

theorem acceptElements_eq (es : List Dom) :
    acceptElements es h = (elementValues h es).map fun vs => (elementEvents Number.accept vs, h) := by
  match es with
  | [] => rfl
  | d :: es =>
      rw [acceptElements, elementValues]
      have hd := accept_eq d
      have hes := acceptElements_eq es
      cases hv : d.value h with
      | error e =>
          rw [hv] at hd
          exact bind_error hd
      | ok v =>
          rw [hv] at hd
          refine (bind_ok hd).trans ?_
          cases hvs : elementValues h es with
          | error e =>
              rw [hvs] at hes
              exact bind_error hes
          | ok vs =>
              rw [hvs] at hes
              exact bind_ok hes

theorem acceptMembers_eq (ms : List (Str × Dom)) :
    acceptMembers ms h = (memberValues h ms).map fun vs => (memberEvents Number.accept vs, h) := by
  match ms with
  | [] => rfl
  | (name, d) :: ms =>
      rw [acceptMembers, memberValues]
      have hd := accept_eq d
      have hms := acceptMembers_eq ms
      cases hv : d.value h with
      | error e =>
          rw [hv] at hd
          exact bind_error hd
      | ok v =>
          rw [hv] at hd
          refine (bind_ok hd).trans ?_
          cases hvs : memberValues h ms with
          | error e =>
              rw [hvs] at hms
              exact bind_error hms
          | ok vs =>
              rw [hvs] at hms
              exact bind_ok hms

end

section Append

variable (k : Heap Str)

mutual

/-- More blocks do not change what there is in memory. -/
theorem value_append {d : Dom} (hd : d.value h ≠ .error .outOfRange) : d.value (h ++ k) = d.value h := by
  match d with
  | .string str length =>
      rw [value] at hd
      rw [value, value]
      cases hs : look h str with
      | error e =>
          rw [hs] at hd
          rw [look_append k (by rw [hs]; intro he; cases he; exact hd rfl), hs]
      | ok s => rw [look_append k (by rw [hs]; simp), hs]
  | .int64 i64 => rfl
  | .array es capacity =>
      rw [value] at hd
      rw [value, value, elementValues_append]
      intro hes
      rw [hes] at hd
      exact hd rfl
  | .object ms capacity =>
      rw [value] at hd
      rw [value, value, memberValues_append]
      intro hms
      rw [hms] at hd
      exact hd rfl

theorem elementValues_append {es : List Dom} (hes : elementValues h es ≠ .error .outOfRange) :
    elementValues (h ++ k) es = elementValues h es := by
  match es with
  | [] => rfl
  | d :: es =>
      rw [elementValues] at hes
      rw [elementValues, elementValues]
      cases hv : d.value h with
      | error e =>
          rw [hv] at hes
          rw [value_append (by rw [hv]; intro he; cases he; exact hes rfl), hv]
          rfl
      | ok v =>
          rw [hv] at hes
          rw [value_append (by rw [hv]; simp), hv, elementValues_append]
          intro hvs
          rw [hvs] at hes
          exact hes rfl

theorem memberValues_append {ms : List (Str × Dom)} (hms : memberValues h ms ≠ .error .outOfRange) :
    memberValues (h ++ k) ms = memberValues h ms := by
  match ms with
  | [] => rfl
  | (name, d) :: ms =>
      rw [memberValues] at hms
      rw [memberValues, memberValues]
      cases hv : d.value h with
      | error e =>
          rw [hv] at hms
          rw [value_append (by rw [hv]; intro he; cases he; exact hms rfl), hv]
          rfl
      | ok v =>
          rw [hv] at hms
          rw [value_append (by rw [hv]; simp), hv, memberValues_append]
          intro hvs
          rw [hvs] at hms
          exact hms rfl

end

end Append

/-! ### Arrays and objects under construction -/

/-- One element behind others. -/
theorem elementValues_concat (es : List Dom) (d : Dom) : elementValues h (es ++ [d]) =
    (elementValues h es).bind fun vs => (d.value h).map fun v => vs ++ [v] := by
  induction es with
  | nil =>
      simp only [List.nil_append, elementValues]
      cases d.value h <;> rfl
  | cons e es ih =>
      rw [List.cons_append, elementValues, elementValues, ih]
      cases e.value h with
      | error _ => rfl
      | ok v => cases elementValues h es <;> cases d.value h <;> rfl

theorem memberValues_concat (ms : List (Str × Dom)) (name : Str) (d : Dom) : memberValues h (ms ++ [(name, d)]) =
    (memberValues h ms).bind fun vs => (d.value h).map fun v => vs ++ [(name, v)] := by
  induction ms with
  | nil =>
      simp only [List.nil_append, memberValues]
      cases d.value h <;> rfl
  | cons m ms ih =>
      rw [List.cons_append, memberValues, memberValues, ih]
      cases m.2.value h with
      | error _ => rfl
      | ok v => cases memberValues h ms <;> cases d.value h <;> rfl

/-- An array with the room that its size needs, and what there is in it. -/
inductive ArrayOf (h : Heap Str) (r : Except Fault (List Tree)) : Dom → Prop
  | mk {es : List Dom} {capacity : ℕ} (hroom : es.length ≤ capacity) (hes : elementValues h es = r) :
      ArrayOf h r (.array es capacity)

/-- An object with the room that its size needs, and what there is in it. -/
inductive ObjectOf (h : Heap Str) (r : Except Fault (List (Str × Tree))) : Dom → Prop
  | mk {ms : List (Str × Dom)} {capacity : ℕ} (hroom : ms.length ≤ capacity) (hms : memberValues h ms = r) :
      ObjectOf h r (.object ms capacity)

theorem arrayOf_new : ArrayOf h (.ok []) (.array [] 0) := .mk (Nat.le_refl 0) rfl

theorem objectOf_new : ObjectOf h (.ok []) (.object [] 0) := .mk (Nat.le_refl 0) rfl

theorem lt_grow {capacity size : ℕ} (hroom : size ≤ capacity) : size < grow capacity size := by
  rw [grow]
  split_ifs <;> omega

/-- **`PushBack` finds room.** -/
theorem ArrayOf.pushBack {r : Except Fault (List Tree)} {d : Dom} (hd : ArrayOf h r d) (v : Dom) :
    ∃ d', d.pushBack v = .ok d' ∧ ArrayOf h (r.bind fun vs => (v.value h).map fun v => vs ++ [v]) d' := by
  cases hd with
  | mk hroom hes =>
      refine ⟨_, if_pos (lt_grow hroom), .mk ?_ ?_⟩
      · rw [List.length_append]
        exact lt_grow hroom
      · rw [elementValues_concat, hes]

/-- **`AddMember` finds room.** -/
theorem ObjectOf.addMember {r : Except Fault (List (Str × Tree))} {d : Dom} (hd : ObjectOf h r d) (name : Str) (v : Dom) :
    ∃ d', d.addMember name v = .ok d' ∧ ObjectOf h (r.bind fun vs => (v.value h).map fun v => vs ++ [(name, v)]) d' := by
  cases hd with
  | mk hroom hms =>
      refine ⟨_, if_pos (lt_grow hroom), .mk ?_ ?_⟩
      · rw [List.length_append]
        exact lt_grow hroom
      · rw [memberValues_concat, hms]

theorem ArrayOf.value {r : Except Fault (List Tree)} {d : Dom} (hd : ArrayOf h r d) : d.value h = r.map .array := by
  cases hd with
  | mk _ hes =>
      rw [Dom.value, hes]
      cases r <;> rfl

theorem ObjectOf.value {r : Except Fault (List (Str × Tree))} {d : Dom} (hd : ObjectOf h r d) :
    d.value h = r.map .object := by
  cases hd with
  | mk _ hms =>
      rw [Dom.value, hms]
      cases r <;> rfl

theorem ArrayOf.append {r : Except Fault (List Tree)} {d : Dom} (hd : ArrayOf h r d) (hr : r ≠ .error .outOfRange)
    (k : Heap Str) : ArrayOf (h ++ k) r d := by
  cases hd with
  | mk hroom hes => exact .mk hroom ((elementValues_append k (by rw [hes]; exact hr)).trans hes)

theorem ObjectOf.append {r : Except Fault (List (Str × Tree))} {d : Dom} (hd : ObjectOf h r d)
    (hr : r ≠ .error .outOfRange) (k : Heap Str) : ObjectOf (h ++ k) r d := by
  cases hd with
  | mk hroom hms => exact .mk hroom ((memberValues_append k (by rw [hms]; exact hr)).trans hms)

/-- A string that is set. -/
theorem setString_live {p : ℕ} {s : Str} (hp : Live h p s) :
    setString p h = .ok (.string p (cString s).length, h) :=
  bind_ok (content_live hp)

/-- The value of a string, for as long as it lives. -/
theorem value_string {p : ℕ} {s : Str} (hp : Live h p s) :
    (Dom.string p (cString s).length).value h = .ok (.string (cString s)) := by
  have htake : s.take (cString s).length = cString s := by
    have hsplit : cString s ++ s.dropWhile (· ≠ '\x00') = s := List.takeWhile_append_dropWhile
    calc s.take (cString s).length = (cString s ++ s.dropWhile (· ≠ '\x00')).take (cString s).length := by rw [hsplit]
      _ = cString s := List.take_left
  rw [Dom.value, hp]
  show Except.ok (Value.string (s.take (cString s).length)) = _
  rw [htake]

/-- The value of a string that is gone. -/
theorem value_dead {p length : ℕ} (hp : look h p = .error .dangling) :
    (Dom.string p length).value h = .error .dangling := by
  rw [Dom.value, hp]
  rfl

end Read

end Dom

end Rapidjson

end GlbBackend
