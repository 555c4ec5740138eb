import GlbBackend.Rapidjson.Building
import GlbBackend.ReplyValues

/-!
# `toJson`, statement by statement

The strings of a `ServerJsonBuilder` are blocks of a heap, and the document that `toJson` builds holds pointers to them;
they are read when the document is written at the end.  For the entries of a snapshot the pointers are not taken from
the builder, but from `IpJson ij = *it`, a copy that is gone when its round of the loop is over.

Whether that matters depends on the strings.  Where a copy of a string shares the characters with the original until one
of them is changed, the builder keeps them alive; where every string has characters of its own, `Accept` reads memory
that was freed as soon as there is one entry (`toJson_memory`).
-/

namespace GlbBackend

open Text Imperative Imperative.Blocks Rapidjson

/-- An `FqdnCount` in memory. -/
structure StoredCount where
  fqdn : ℕ
  count : ℤ

/-- An `IpJson` in memory. -/
structure StoredIp where
  hasError : Bool
  error : ℕ
  ip : ℕ

/-- A `ServerJsonBuilder` in memory: its strings are blocks. -/
structure StoredBuilder where
  error : ℕ
  type : ℕ
  fqdn : ℕ
  status : ℕ
  counts : List StoredCount
  errors : List ℕ
  ips : List StoredIp
  hasError : Bool
  hasType : Bool
  hasFqdn : Bool
  hasStatus : Bool
  hasCounts : Bool
  hasErrors : Bool
  hasIps : Bool

namespace StoredBuilder

/-- What changes no memory. -/
def lift {α : Type} (r : Except Fault α) : Blocks Str α := fun h => r.map fun a => (a, h)

/-- `if (has) doc.AddMember(name, s.c_str(), aloc);` -/
def addString (has : Bool) (name : Str) (p : ℕ) (doc : Dom) : Blocks Str Dom :=
  if has then do
    let v ← Dom.setString p
    lift (doc.addMember name v)
  else pure doc

/-- The loop over `counts`. -/
def addCounts : List StoredCount → Dom → Blocks Str Dom
  | [], countArray => pure countArray
  | it :: rest, countArray => do
      let fqdnAsValue ← Dom.setString it.fqdn
      let countElement ← lift ((Dom.array [] 0).pushBack fqdnAsValue)
      let countElement ← lift (countElement.pushBack (.int64 (BitVec.ofInt 64 it.count)))
      let countArray ← lift (countArray.pushBack countElement)
      addCounts rest countArray

/-- The loop over `errors`. -/
def addErrors : List ℕ → Dom → Blocks Str Dom
  | [], jsonArray => pure jsonArray
  | it :: rest, jsonArray => do
      let errorMsg ← Dom.setString it
      let jsonArray ← lift (jsonArray.pushBack errorMsg)
      addErrors rest jsonArray

/-- A round of the loop over `ips`, by the strings of `ij`. -/
def addIjObj (hasError : Bool) (ijError ijIp : ℕ) (ipArray : Dom) : Blocks Str Dom := do
  let ip ← Dom.setString ijIp
  let ipObj ← lift ((Dom.object [] 0).addMember "ip".toList ip)
  let ipObj ← if hasError then do
      let error ← Dom.setString ijError
      lift (ipObj.addMember "error".toList error)
    else pure ipObj
  lift (ipArray.pushBack ipObj)

/-- `IpJson ij = *it;`, until the end of the round. -/
def addIp (shared : Bool) (it : StoredIp) (ipArray : Dom) : Blocks Str Dom :=
  withCopy shared it.error fun ijError => withCopy shared it.ip fun ijIp => addIjObj it.hasError ijError ijIp ipArray

/-- The loop over `ips`. -/
def addIps (shared : Bool) : List StoredIp → Dom → Blocks Str Dom
  | [], ipArray => pure ipArray
  | it :: rest, ipArray => do
      let ipArray ← addIp shared it ipArray
      addIps shared rest ipArray

/-- `if (has) { array.SetArray(); ...; doc.AddMember(name, array, aloc); }` -/
def addArray (has : Bool) (name : Str) (fill : Dom → Blocks Str Dom) (doc : Dom) : Blocks Str Dom :=
  if has then do
    let array ← fill (.array [] 0)
    lift (doc.addMember name array)
  else pure doc

/-- `doc.Accept(wr); return std::string(sb.GetString());` -/
def emit (doc : Dom) : Blocks Str Str := do
  let events ← doc.accept
  match plain.handleAll Empty.elim .new events with
  | some wr => pure (cString wr.out)
  | none => lift (.error .stuck)

/-- `toJson`; `shared` says whether the copy of a string shares its characters. -/
def toJson (shared : Bool) (sb : StoredBuilder) : Blocks Str Str := do
  let doc ← addString sb.hasType "type".toList sb.type (.object [] 0)
  let doc ← addString sb.hasFqdn "fqdn".toList sb.fqdn doc
  let doc ← addString sb.hasStatus "status".toList sb.status doc
  let doc ← addString sb.hasError "error".toList sb.error doc
  let doc ← addArray sb.hasCounts "counts".toList (addCounts sb.counts) doc
  let doc ← addArray sb.hasErrors "errors".toList (addErrors sb.errors) doc
  let doc ← addArray sb.hasIps "ips".toList (addIps shared sb.ips) doc
  emit doc

/-! ### What is in memory -/

/-- The builder in memory is this one. -/
structure Stores (h : Heap Str) (sb : StoredBuilder) (jb : ServerJsonBuilder) : Prop where
  error : Live h sb.error jb.error
  type : Live h sb.type jb.type
  fqdn : Live h sb.fqdn jb.fqdn
  status : Live h sb.status jb.status
  counts : List.Forall₂ (fun it fc => Live h it.fqdn fc.fqdn ∧ it.count = fc.count) sb.counts jb.counts
  errors : List.Forall₂ (Live h) sb.errors jb.errors
  ips : List.Forall₂ (fun it ij => it.hasError = ij.hasError ∧ Live h it.error ij.error ∧ Live h it.ip ij.ip) sb.ips jb.ips
  hasError : sb.hasError = jb.hasError
  hasType : sb.hasType = jb.hasType
  hasFqdn : sb.hasFqdn = jb.hasFqdn
  hasStatus : sb.hasStatus = jb.hasStatus
  hasCounts : sb.hasCounts = jb.hasCounts
  hasErrors : sb.hasErrors = jb.hasErrors
  hasIps : sb.hasIps = jb.hasIps

section Steps

variable {h : Heap Str} {ms : List (Str × Json)} {doc : Dom}

theorem lift_ok {α : Type} {r : Except Fault α} {a : α} (hr : r = .ok a) : lift r h = .ok (a, h) := by
  rw [hr]
  rfl

theorem ofMembers_append (ms ms' : List (Str × Json)) :
    (ofMembers (ms ++ ms') : List (Str × Tree)) = ofMembers ms ++ ofMembers ms' := by
  induction ms with
  | nil => rfl
  | cons m ms ih => rw [List.cons_append, ofMembers, ih, ofMembers, List.cons_append]

theorem ofElements_append (es es' : List Json) :
    (ofElements (es ++ es') : List Tree) = ofElements es ++ ofElements es' := by
  induction es with
  | nil => rfl
  | cons e es ih => rw [List.cons_append, ofElements, ih, ofElements, List.cons_append]

/-- An object with the members of a tree. -/
abbrev Holds (h : Heap Str) (ms : List (Str × Json)) (doc : Dom) : Prop := Dom.ObjectOf h (.ok (ofMembers ms)) doc

/-- An array with the elements of a tree. -/
abbrev Lists (h : Heap Str) (es : List Json) (array : Dom) : Prop := Dom.ArrayOf h (.ok (ofElements es)) array

theorem Holds.addMember (hdoc : Holds h ms doc) (name : Str) {j : Json} {v : Dom} (hv : v.value h = .ok (ofJson j)) :
    ∃ doc', doc.addMember name v = .ok doc' ∧ Holds h (ms ++ [(name, j)]) doc' := by
  obtain ⟨doc', hadd, hdoc'⟩ := Dom.ObjectOf.addMember hdoc name v
  refine ⟨doc', hadd, ?_⟩
  rw [hv] at hdoc'
  rw [Holds, ofMembers_append]
  exact hdoc'

theorem Lists.pushBack {es : List Json} {array : Dom} (harray : Lists h es array) {j : Json} {v : Dom}
    (hv : v.value h = .ok (ofJson j)) : ∃ array', array.pushBack v = .ok array' ∧ Lists h (es ++ [j]) array' := by
  obtain ⟨array', hpush, harray'⟩ := Dom.ArrayOf.pushBack harray v
  refine ⟨array', hpush, ?_⟩
  rw [hv] at harray'
  rw [Lists, ofElements_append]
  exact harray'

theorem Lists.value {es : List Json} {array : Dom} (harray : Lists h es array) :
    array.value h = .ok (ofJson (.array es)) :=
  Dom.ArrayOf.value harray

theorem addString_holds (hdoc : Holds h ms doc) (has : Bool) (name : Str) {p : ℕ} {s : Str} (hp : Live h p s) :
    ∃ doc', addString has name p doc h = .ok (doc', h) ∧
      Holds h (ms ++ if has then [(name, ServerJsonBuilder.cValue s)] else []) doc' := by
  cases has with
  | false => exact ⟨doc, rfl, by rw [if_neg Bool.false_ne_true, List.append_nil]; exact hdoc⟩
  | true =>
      obtain ⟨doc', hadd, hdoc'⟩ := hdoc.addMember name (j := ServerJsonBuilder.cValue s) (Dom.value_string hp)
      exact ⟨doc', (bind_ok (Dom.setString_live hp)).trans (lift_ok hadd), hdoc'⟩

theorem addArray_holds (hdoc : Holds h ms doc) (has : Bool) (name : Str) {fill : Dom → Blocks Str Dom} {es : List Json}
    (hfill : ∃ array, fill (.array [] 0) h = .ok (array, h) ∧ Lists h es array) :
    ∃ doc', addArray has name fill doc h = .ok (doc', h) ∧
      Holds h (ms ++ if has then [(name, .array es)] else []) doc' := by
  cases has with
  | false => exact ⟨doc, rfl, by rw [if_neg Bool.false_ne_true, List.append_nil]; exact hdoc⟩
  | true =>
      obtain ⟨array, hrun, harray⟩ := hfill
      obtain ⟨doc', hadd, hdoc'⟩ := hdoc.addMember name harray.value
      exact ⟨doc', (bind_ok hrun).trans (lift_ok hadd), hdoc'⟩

theorem addCounts_lists {its : List StoredCount} {fcs : List FqdnCount}
    (hits : List.Forall₂ (fun it fc => Live h it.fqdn fc.fqdn ∧ it.count = fc.count) its fcs) {es : List Json} {array : Dom}
    (harray : Lists h es array) :
    ∃ array', addCounts its array h = .ok (array', h) ∧
      Lists h (es ++ fcs.map ServerJsonBuilder.countElement) array' := by
  induction hits generalizing es array with
  | nil => exact ⟨array, rfl, by rw [List.map_nil, List.append_nil]; exact harray⟩
  | @cons it fc its fcs hit _ ih =>
      have hnone : Lists h [] (.array [] 0) := Dom.arrayOf_new
      obtain ⟨e₁, hpush₁, he₁⟩ := hnone.pushBack (j := ServerJsonBuilder.cValue fc.fqdn) (Dom.value_string hit.1)
      obtain ⟨e₂, hpush₂, he₂⟩ := he₁.pushBack (j := .int64 fc.count) (v := .int64 (BitVec.ofInt 64 it.count))
        (by rw [hit.2]; rfl)
      obtain ⟨array₁, hpush₃, harray₁⟩ := harray.pushBack he₂.value
      obtain ⟨array', hrest, harray'⟩ := ih harray₁
      refine ⟨array', ?_, ?_⟩
      · exact (bind_ok (Dom.setString_live hit.1)).trans ((bind_ok (lift_ok hpush₁)).trans ((bind_ok (lift_ok hpush₂)).trans
          ((bind_ok (lift_ok hpush₃)).trans hrest)))
      · rw [List.append_assoc] at harray'
        exact harray'

theorem addErrors_lists {its : List ℕ} {errors : List Str} (hits : List.Forall₂ (Live h) its errors) {es : List Json}
    {array : Dom} (harray : Lists h es array) :
    ∃ array', addErrors its array h = .ok (array', h) ∧ Lists h (es ++ errors.map ServerJsonBuilder.cValue) array' := by
  induction hits generalizing es array with
  | nil => exact ⟨array, rfl, by rw [List.map_nil, List.append_nil]; exact harray⟩
  | @cons it error its errors hit _ ih =>
      obtain ⟨array₁, hpush, harray₁⟩ := harray.pushBack (j := ServerJsonBuilder.cValue error) (Dom.value_string hit)
      obtain ⟨array', hrest, harray'⟩ := ih harray₁
      refine ⟨array', (bind_ok (Dom.setString_live hit)).trans ((bind_ok (lift_ok hpush)).trans hrest), ?_⟩
      rw [List.append_assoc] at harray'
      exact harray'

/-- What a round makes of an entry: its value, if it is read while the strings live; and if they do not, nothing. -/
theorem addIjObj_ok {ijError ijIp : ℕ} {ij : IpJson} (herror : Live h ijError ij.error) (hip : Live h ijIp ij.ip) :
    ∃ ipObj, (∀ {array array' : Dom}, array.pushBack ipObj = .ok array' →
        addIjObj ij.hasError ijError ijIp array h = .ok (array', h)) ∧
      (∀ h', Live h' ijError ij.error → Live h' ijIp ij.ip →
        ipObj.value h' = .ok (ofJson (ServerJsonBuilder.ipObj ij))) ∧
      ∀ h', look h' ijIp = .error .dangling → ipObj.value h' = .error .dangling := by
  obtain ⟨hasError, error, ip⟩ := ij
  have hdead : ∀ (h' : Heap Str) (ms : List (Str × Dom)) (length capacity : ℕ), look h' ijIp = .error .dangling →
      (Dom.object (("ip".toList, .string ijIp length) :: ms) capacity).value h' = .error .dangling := by
    intro h' ms length capacity hlook
    rw [Dom.value, Dom.memberValues, Dom.value_dead hlook]
    rfl
  cases hasError with
  | false =>
      refine ⟨.object [("ip".toList, .string ijIp (cString ip).length)] 16,
        fun hpush => (bind_ok (Dom.setString_live hip)).trans ((bind_ok (lift_ok rfl)).trans (lift_ok hpush)),
        fun h' _ hip' => ?_, fun h' hlook => hdead h' [] _ _ hlook⟩
      rw [Dom.value, Dom.memberValues, Dom.value_string hip']
      rfl
  | true =>
      refine ⟨.object [("ip".toList, .string ijIp (cString ip).length),
          ("error".toList, .string ijError (cString error).length)] 16,
        fun hpush => (bind_ok (Dom.setString_live hip)).trans ((bind_ok (lift_ok rfl)).trans
        ((bind_ok (Dom.setString_live herror)).trans ((bind_ok (lift_ok rfl)).trans (lift_ok hpush)))),
        fun h' herror' hip' => ?_, fun h' hlook => hdead h' [("error".toList, _)] _ _ hlook⟩
      rw [Dom.value, Dom.memberValues, Dom.value_string hip', Dom.memberValues, Dom.value_string herror']
      rfl

/-- An entry, where the copies share their characters with the originals. -/
theorem addIp_shared {it : StoredIp} {ij : IpJson} (hflag : it.hasError = ij.hasError) (herror : Live h it.error ij.error)
    (hip : Live h it.ip ij.ip) {es : List Json} {array : Dom} (harray : Lists h es array) :
    ∃ array', addIp true it array h = .ok (array', h) ∧ Lists h (es ++ [ServerJsonBuilder.ipObj ij]) array' := by
  obtain ⟨ipObj, hrun, hvalue, -⟩ :=
    addIjObj_ok ((herror.retain it.error).retain it.ip) ((hip.retain it.error).retain it.ip)
  obtain ⟨array', hpush, harray'⟩ := harray.pushBack (hvalue h herror hip)
  refine ⟨array', ?_, harray'⟩
  rw [addIp, hflag]
  exact withCopy_shared (withCopy_shared (hrun hpush))

theorem addIps_shared {its : List StoredIp} {ijs : List IpJson}
    (hits : List.Forall₂ (fun it ij => it.hasError = ij.hasError ∧ Live h it.error ij.error ∧ Live h it.ip ij.ip) its ijs)
    {es : List Json} {array : Dom} (harray : Lists h es array) :
    ∃ array', addIps true its array h = .ok (array', h) ∧ Lists h (es ++ ijs.map ServerJsonBuilder.ipObj) array' := by
  induction hits generalizing es array with
  | nil => exact ⟨array, rfl, by rw [List.map_nil, List.append_nil]; exact harray⟩
  | @cons it ij its ijs hit _ ih =>
      obtain ⟨array₁, hround, harray₁⟩ := addIp_shared hit.1 hit.2.1 hit.2.2 harray
      obtain ⟨array', hrest, harray'⟩ := ih harray₁
      refine ⟨array', (bind_ok hround).trans hrest, ?_⟩
      rw [List.append_assoc] at harray'
      exact harray'

/-- An entry, where the copies have characters of their own: what is in the array cannot be read any more. -/
theorem addIp_own {it : StoredIp} {ij : IpJson} (hflag : it.hasError = ij.hasError) (herror : Live h it.error ij.error)
    (hip : Live h it.ip ij.ip) {array : Dom}
    (harray : (∃ es, Dom.ArrayOf h (.ok es) array) ∨ Dom.ArrayOf h (.error .dangling) array) :
    ∃ array', addIp false it array h = .ok (array', h ++ [⟨ij.error, 0⟩, ⟨ij.ip, 0⟩]) ∧
      Dom.ArrayOf (h ++ [⟨ij.error, 0⟩, ⟨ij.ip, 0⟩]) (.error .dangling) array' := by
  have herror₁ : Live (h ++ [⟨ij.error, 1⟩]) h.length ij.error := live_new h ij.error
  have hip₁ : Live (h ++ [⟨ij.error, 1⟩]) it.ip ij.ip := hip.append _
  obtain ⟨ipObj, hrun, -, hdead⟩ := addIjObj_ok (herror₁.append [⟨ij.ip, 1⟩]) (live_new (h ++ [⟨ij.error, 1⟩]) ij.ip)
  have hgone : ipObj.value (h ++ [⟨ij.error, 0⟩, ⟨ij.ip, 0⟩]) = .error .dangling := by
    refine hdead _ ?_
    have hlook := look_dead (h ++ [⟨ij.error, 0⟩]) [] ij.ip
    rw [List.append_assoc, List.length_append] at hlook
    rw [List.length_append]
    exact hlook
  have hpush : ∃ array', array.pushBack ipObj = .ok array' ∧
      Dom.ArrayOf (h ++ [⟨ij.error, 0⟩, ⟨ij.ip, 0⟩]) (.error .dangling) array' := by
    cases harray with
    | inl hread =>
        obtain ⟨es, hes⟩ := hread
        obtain ⟨array', hpush, harray'⟩ := (hes.append (by simp) [⟨ij.error, 0⟩, ⟨ij.ip, 0⟩]).pushBack ipObj
        rw [hgone] at harray'
        exact ⟨array', hpush, harray'⟩
    | inr hes => exact (hes.append (by simp) [⟨ij.error, 0⟩, ⟨ij.ip, 0⟩]).pushBack ipObj
  obtain ⟨array', hpush, harray'⟩ := hpush
  refine ⟨array', ?_, harray'⟩
  rw [addIp, hflag]
  refine withCopy_own herror ?_
  rw [withCopy_own hip₁ (hrun hpush), List.append_assoc]
  rfl

/-- All entries, where the copies have characters of their own. -/
theorem addIps_own {its : List StoredIp} {ijs : List IpJson}
    (hits : List.Forall₂ (fun it ij => it.hasError = ij.hasError ∧ Live h it.error ij.error ∧ Live h it.ip ij.ip) its ijs)
    {array : Dom} (harray : Dom.ArrayOf h (.error .dangling) array) :
    ∃ array' k, addIps false its array h = .ok (array', h ++ k) ∧ Dom.ArrayOf (h ++ k) (.error .dangling) array' := by
  induction its generalizing h ijs array with
  | nil => exact ⟨array, [], by rw [List.append_nil]; rfl, by rw [List.append_nil]; exact harray⟩
  | cons it its ih =>
      cases hits with
      | @cons _ ij _ ijs hit hits =>
          obtain ⟨array₁, hround, harray₁⟩ := addIp_own hit.1 hit.2.1 hit.2.2 (.inr harray)
          obtain ⟨array', k, hrest, harray'⟩ :=
            ih (hits.imp fun _ _ h => ⟨h.1, h.2.1.append _, h.2.2.append _⟩) harray₁
          rw [List.append_assoc] at hrest harray'
          exact ⟨array', _, (bind_ok hround).trans hrest, harray'⟩

end Steps

/-! ### The reply -/

/-- What the writer puts out for a character. -/
theorem not_nul_escapeChar (c : Char) : '\x00' ∉ escapeChar c := by
  have hdigit : ∀ n, hexDigit n ≠ '\x00' := by
    intro n
    by_cases hn : n < 16
    · interval_cases n <;> decide
    · rw [hexDigit, List.getD_eq_default _ _ (by simpa using hn)]
      decide
  by_cases hc : c = '\x00'
  · rw [hc]
    decide
  have hhigh := hdigit (c.toNat / 16)
  have hlow := hdigit (c.toNat % 16)
  rw [escapeChar]
  split_ifs <;> simp_all [eq_comm]

theorem not_nul_writeString (s : Str) : '\x00' ∉ writeString s := by
  simp [writeString, not_nul_escapeChar]

mutual

/-- **A written value has no NUL**: `GetString` gives all of it. -/
theorem not_nul_write (j : Json) : '\x00' ∉ write j := by
  match j with
  | .string s => exact not_nul_writeString s
  | .int64 i =>
      intro hmem
      rcases mem_decimal hmem with hdigit | hminus
      · exact absurd hdigit (by decide)
      · exact absurd hminus (by decide)
  | .array es => simp [write, not_nul_writeElements es]
  | .object ms => simp [write, not_nul_writeMembers ms]

theorem not_nul_writeElements (es : List Json) : '\x00' ∉ writeElements es := by
  match es with
  | [] => simp [writeElements]
  | [e] => exact not_nul_write e
  | e :: e' :: es => simp [writeElements, not_nul_write e, not_nul_writeElements (e' :: es)]

theorem not_nul_writeMembers (ms : List (Str × Json)) : '\x00' ∉ writeMembers ms := by
  match ms with
  | [] => simp [writeMembers]
  | [(n, v)] => simp [writeMembers, not_nul_writeString n, not_nul_write v]
  | (n, v) :: m :: ms =>
      simp [writeMembers, not_nul_writeString n, not_nul_write v, not_nul_writeMembers (m :: ms)]

end

section Reply

variable {h : Heap Str} {sb : StoredBuilder} {jb : ServerJsonBuilder}

/-- The document is written if it can be read. -/
theorem emit_holds (hcounts : ∀ fc ∈ jb.counts, -2 ^ 63 ≤ fc.count ∧ fc.count < 2 ^ 63) {doc : Dom}
    (hdoc : Holds h jb.members doc) : emit doc h = .ok (jb.toJson, h) := by
  have haccept : doc.accept h = .ok ((ofJson (.object jb.members) : Tree).accept, h) := by
    rw [Dom.accept_eq, Dom.ObjectOf.value hdoc]
    rfl
  refine (bind_ok haccept).trans ?_
  rw [toJson_writes (fun d => d.elim) hcounts]
  have hnul : '\x00' ∉ jb.toJson := not_nul_write (.object jb.members)
  show Except.ok (cString jb.toJson, h) = _
  rw [cString_eq_self hnul]

/-- The document is not written if there is something in it that is gone. -/
theorem emit_gone {doc : Dom} (hdoc : Dom.ObjectOf h (.error .dangling) doc) : emit doc h = .error .dangling := by
  refine bind_error ?_
  rw [Dom.accept_eq, hdoc.value]
  rfl

/-- All but the last member. -/
theorem toJson_members (hsb : Stores h sb jb) (shared : Bool) :
    ∃ ms doc, sb.toJson shared h =
        (addArray sb.hasIps "ips".toList (addIps shared sb.ips) doc >>= emit : Blocks Str Str) h ∧
      Holds h ms doc ∧
      jb.members = ms ++ if jb.hasIps then [("ips".toList, .array (jb.ips.map ServerJsonBuilder.ipObj))] else [] := by
  have hnew : Holds h [] (.object [] 0) := Dom.objectOf_new
  have hnone : Lists h [] (.array [] 0) := Dom.arrayOf_new
  obtain ⟨d₁, h₁, hd₁⟩ := addString_holds hnew sb.hasType "type".toList hsb.type
  obtain ⟨d₂, h₂, hd₂⟩ := addString_holds hd₁ sb.hasFqdn "fqdn".toList hsb.fqdn
  obtain ⟨d₃, h₃, hd₃⟩ := addString_holds hd₂ sb.hasStatus "status".toList hsb.status
  obtain ⟨d₄, h₄, hd₄⟩ := addString_holds hd₃ sb.hasError "error".toList hsb.error
  obtain ⟨d₅, h₅, hd₅⟩ := addArray_holds hd₄ sb.hasCounts "counts".toList
    (addCounts_lists hsb.counts hnone)
  obtain ⟨d₆, h₆, hd₆⟩ := addArray_holds hd₅ sb.hasErrors "errors".toList
    (addErrors_lists hsb.errors hnone)
  rw [hsb.hasType, hsb.hasFqdn, hsb.hasStatus, hsb.hasError, hsb.hasCounts, hsb.hasErrors] at hd₆
  refine ⟨_, d₆, ?_, hd₆, rfl⟩
  exact (bind_ok h₁).trans ((bind_ok h₂).trans ((bind_ok h₃).trans ((bind_ok h₄).trans ((bind_ok h₅).trans (bind_ok h₆)))))

/-- A document whose last member are entries that can be read at the end. -/
theorem addIps_read (hcounts : ∀ fc ∈ jb.counts, -2 ^ 63 ≤ fc.count ∧ fc.count < 2 ^ 63) {ms : List (Str × Json)} {doc : Dom}
    (hdoc : Holds h ms doc) (hms : jb.members = ms ++ [("ips".toList, .array (jb.ips.map ServerJsonBuilder.ipObj))])
    {fill : Dom → Blocks Str Dom}
    (hfill : ∃ array, fill (.array [] 0) h = .ok (array, h) ∧ Lists h (jb.ips.map ServerJsonBuilder.ipObj) array) :
    (addArray true "ips".toList fill doc >>= emit : Blocks Str Str) h = .ok (jb.toJson, h) := by
  obtain ⟨doc', hadd, hdoc'⟩ := addArray_holds hdoc true "ips".toList hfill
  exact (bind_ok hadd).trans (emit_holds hcounts (hms ▸ hdoc'))

/-- A document whose last member are entries that are gone at the end. -/
theorem addIps_gone {ms : List (Str × Json)} {doc : Dom} (hdoc : Holds h ms doc) {its : List StoredIp} {ijs : List IpJson}
    (hits : List.Forall₂ (fun it ij => it.hasError = ij.hasError ∧ Live h it.error ij.error ∧ Live h it.ip ij.ip) its ijs)
    (hne : ijs ≠ []) :
    (addArray true "ips".toList (addIps false its) doc >>= emit : Blocks Str Str) h = .error .dangling := by
  cases hits with
  | nil => exact absurd rfl hne
  | cons hit hrest =>
      obtain ⟨array₁, hround, harray₁⟩ := addIp_own hit.1 hit.2.1 hit.2.2 (.inl ⟨[], Dom.arrayOf_new⟩)
      obtain ⟨array, k, hfill, harray⟩ :=
        addIps_own (hrest.imp fun _ _ h => ⟨h.1, h.2.1.append _, h.2.2.append _⟩) harray₁
      rw [List.append_assoc] at hfill harray
      obtain ⟨doc', hadd, hdoc'⟩ := (Dom.ObjectOf.append hdoc (by simp) _).addMember "ips".toList array
      rw [harray.value] at hdoc'
      exact (bind_ok ((bind_ok ((bind_ok hround).trans hfill)).trans (lift_ok hadd))).trans (emit_gone hdoc')

/-- **`toJson` and its memory.**  From the builder in memory comes the reply that `ServerJsonBuilder.toJson` says, and the
memory is left as it was, if the copies of strings share their characters or if there is no entry to write; where copies
have characters of their own, one entry is enough for `Accept` to read what is gone. -/
theorem toJson_memory (hsb : Stores h sb jb) (hcounts : ∀ fc ∈ jb.counts, -2 ^ 63 ≤ fc.count ∧ fc.count < 2 ^ 63)
    (shared : Bool) : sb.toJson shared h =
      if shared = true ∨ jb.hasIps = false ∨ jb.ips = [] then .ok (jb.toJson, h) else .error .dangling := by
  obtain ⟨ms, doc, hrun, hdoc, hms⟩ := toJson_members hsb shared
  have hnone : Lists h [] (.array [] 0) := Dom.arrayOf_new
  rw [hrun, hsb.hasIps]
  cases hips : jb.hasIps with
  | false =>
      rw [hips, if_neg Bool.false_ne_true, List.append_nil] at hms
      rw [if_pos (.inr (.inl rfl))]
      exact (bind_ok rfl).trans (emit_holds hcounts (hms ▸ hdoc))
  | true =>
      rw [hips, if_pos rfl] at hms
      cases shared with
      | true =>
          rw [if_pos (.inl rfl)]
          exact addIps_read hcounts hdoc hms (addIps_shared hsb.ips hnone)
      | false =>
          by_cases hijs : jb.ips = []
          · have hits := hsb.ips
            rw [hijs] at hits
            rw [if_pos (.inr (.inr hijs)), List.forall₂_nil_right_iff.mp hits]
            refine addIps_read hcounts hdoc hms ⟨_, rfl, ?_⟩
            rw [hijs]
            exact hnone
          · rw [if_neg (by simp [hijs])]
            exact addIps_gone hdoc hsb.ips hijs

end Reply

/-- Two strings, one of them empty. -/
def addressInMemory : Heap Str := [⟨[], 1⟩, ⟨"10.0.0.1".toList, 1⟩]

/-- A builder with an entry, in this memory. -/
def oneEntry : StoredBuilder :=
  { error := 0, type := 0, fqdn := 0, status := 0, counts := [], errors := [], ips := [⟨false, 0, 1⟩], hasError := false,
    hasType := false, hasFqdn := false, hasStatus := false, hasCounts := false, hasErrors := false, hasIps := true }

theorem oneEntry_stores :
    Stores addressInMemory oneEntry { ips := [⟨false, [], "10.0.0.1".toList⟩], hasIps := true } where
  error := rfl
  type := rfl
  fqdn := rfl
  status := rfl
  counts := .nil
  errors := .nil
  ips := .cons ⟨rfl, rfl, rfl⟩ .nil
  hasError := rfl
  hasType := rfl
  hasFqdn := rfl
  hasStatus := rfl
  hasCounts := rfl
  hasErrors := rfl
  hasIps := rfl

theorem toJson_memory_oneEntry :
    oneEntry.toJson true addressInMemory =
        .ok ("\x7b\"ips\":[\x7b\"ip\":\"10.0.0.1\"\x7d]\x7d".toList, addressInMemory) ∧
      oneEntry.toJson false addressInMemory = .error .dangling :=
  ⟨toJson_memory oneEntry_stores (List.forall_mem_nil _) true, toJson_memory oneEntry_stores (List.forall_mem_nil _) false⟩

end StoredBuilder

end GlbBackend
