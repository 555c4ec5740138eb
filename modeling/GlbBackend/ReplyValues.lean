import GlbBackend.JsonReader
import GlbBackend.ServerJsonBuilder

/-!
# What a reply says

A handler talks to its `ServerJsonBuilder` through eight setters.  `ReplyValues.of` reads off a sequence of
such calls what it says: the last type, name, status and error, and everything that was added, in order.
`ReplyValues.read` reads the same things out of a reply.

`build_eq` is the builder after any calls, and `read_toJson` what its text says: everything but the
name-server records, for which `toJson` has no member.  So the values can be read back exactly if no such
record was added (`values_read_iff`).
-/

namespace GlbBackend

open Text

/-! ### Calls and what they say -/

/-- A call of a setter. -/
inductive BuilderCall
  | setType (type : Str)
  | setFqdn (fqdn : Str)
  | setStatus (status : Str)
  | setError (error : Str)
  | addError (errorEntry : Str)
  | addCount (fqdn : Str) (count : ℤ)
  | addIp (ip error : Str)
  | addNSRecord (ns : Str)

namespace BuilderCall

/-- What the call does to the builder. -/
def apply (jb : ServerJsonBuilder) : BuilderCall → ServerJsonBuilder
  | setType type => jb.setType type
  | setFqdn fqdn => jb.setFqdn fqdn
  | setStatus status => jb.setStatus status
  | setError error => jb.setError error
  | addError errorEntry => jb.addError errorEntry
  | addCount fqdn count => jb.addCount fqdn count
  | addIp ip error => jb.addIp ip error
  | addNSRecord ns => jb.addNSRecord ns

/-- The strings a call passes. -/
def strings : BuilderCall → List Str
  | setType type => [type]
  | setFqdn fqdn => [fqdn]
  | setStatus status => [status]
  | setError error => [error]
  | addError errorEntry => [errorEntry]
  | addCount fqdn _ => [fqdn]
  | addIp ip error => [ip, error]
  | addNSRecord ns => [ns]

/-- No string of the call has a NUL in it. -/
def NulFree (c : BuilderCall) : Prop := ∀ s ∈ c.strings, '\x00' ∉ s

def type? : BuilderCall → Option Str
  | setType type => some type
  | _ => none

def fqdn? : BuilderCall → Option Str
  | setFqdn fqdn => some fqdn
  | _ => none

def status? : BuilderCall → Option Str
  | setStatus status => some status
  | _ => none

def error? : BuilderCall → Option Str
  | setError error => some error
  | _ => none

def errorEntry? : BuilderCall → Option Str
  | addError errorEntry => some errorEntry
  | _ => none

def count? : BuilderCall → Option FqdnCount
  | addCount fqdn count => some ⟨fqdn, count⟩
  | _ => none

/-- An entry that was reported, with its error. -/
def ip? : BuilderCall → Option (Str × Str)
  | addIp ip error => some (ip, error)
  | _ => none

def ns? : BuilderCall → Option Str
  | addNSRecord ns => some ns
  | _ => none

end BuilderCall

/-- A fresh builder after some calls. -/
def build (cs : List BuilderCall) : ServerJsonBuilder := cs.foldl BuilderCall.apply {}

/-- The last value that was set. -/
def lastSet (field : BuilderCall → Option Str) (cs : List BuilderCall) : Option Str :=
  (cs.filterMap field).getLast?

/-- An entry of the reply, with its error if it is not empty. -/
def reported (e : Str × Str) : Str × Option Str := (e.1, if e.2 = [] then none else some e.2)

/-- All that was added, if anything was. -/
def added {α : Type} (xs : List α) : Option (List α) := if xs = [] then none else some xs

/-- What a reply can say; `none` for what was never set or added. -/
structure ReplyValues where
  type : Option Str
  fqdn : Option Str
  status : Option Str
  error : Option Str
  counts : Option (List FqdnCount)
  errors : Option (List Str)
  ips : Option (List (Str × Option Str))
  nsRecords : Option (List Str)
  deriving DecidableEq

namespace ReplyValues

/-- What some calls say. -/
def of (cs : List BuilderCall) : ReplyValues where
  type := lastSet BuilderCall.type? cs
  fqdn := lastSet BuilderCall.fqdn? cs
  status := lastSet BuilderCall.status? cs
  error := lastSet BuilderCall.error? cs
  counts := added (cs.filterMap BuilderCall.count?)
  errors := added (cs.filterMap BuilderCall.errorEntry?)
  ips := added ((cs.filterMap BuilderCall.ip?).map reported)
  nsRecords := added (cs.filterMap BuilderCall.ns?)

/-! ### Reading a reply -/

def readString : Json → Option Str
  | .string s => some s
  | _ => none

def readCount : Json → Option FqdnCount
  | .array [.string fqdn, .int64 count] => some ⟨fqdn, count⟩
  | _ => none

/-- A member that need not be there; if it is, it must be readable. -/
def readMember {α : Type} (ms : List (Str × Json)) (name : Str) (value : Json → Option α) :
    Option (Option α) :=
  match ms.lookup name with
  | none => some none
  | some v => (value v).map some

def readIp : Json → Option (Str × Option Str)
  | .object ms =>
      ((ms.lookup "ip".toList).bind readString).bind fun ip =>
        (readMember ms "error".toList readString).map fun error => (ip, error)
  | _ => none

/-- The elements of an array, each read. -/
def readList {α : Type} (element : Json → Option α) : Json → Option (List α)
  | .array es => es.mapM element
  | _ => none

/-- What an object says, the name-server records looked up under `nsName`. -/
def read (nsName : Str) : Json → Option ReplyValues
  | .object ms => do
      let type ← readMember ms "type".toList readString
      let fqdn ← readMember ms "fqdn".toList readString
      let status ← readMember ms "status".toList readString
      let error ← readMember ms "error".toList readString
      let counts ← readMember ms "counts".toList (readList readCount)
      let errors ← readMember ms "errors".toList (readList readString)
      let ips ← readMember ms "ips".toList (readList readIp)
      let nsRecords ← readMember ms nsName (readList readString)
      some { type, fqdn, status, error, counts, errors, ips, nsRecords }
  | _ => none

end ReplyValues

/-- The member names of a reply. -/
def memberNames : List Str :=
  ["type".toList, "fqdn".toList, "status".toList, "error".toList, "counts".toList, "errors".toList,
    "ips".toList]

/-! ### The builder after some calls -/

theorem build_snoc (cs : List BuilderCall) (c : BuilderCall) : build (cs ++ [c]) = c.apply (build cs) :=
  List.foldl_concat _ _ _ _

theorem filterMap_snoc {α : Type} (field : BuilderCall → Option α) (cs : List BuilderCall)
    (c : BuilderCall) : (cs ++ [c]).filterMap field = cs.filterMap field ++ (field c).toList := by
  rw [List.filterMap_append]
  cases h : field c <;> simp [h]

theorem lastSet_snoc (field : BuilderCall → Option Str) (cs : List BuilderCall) (c : BuilderCall) :
    lastSet field (cs ++ [c]) = (field c).or (lastSet field cs) := by
  rw [lastSet, filterMap_snoc]
  cases field c <;> simp [lastSet]

theorem added_snoc {α : Type} (xs : List α) (x : α) : added (xs ++ [x]) = some (xs ++ [x]) :=
  if_neg (by simp)

/-- **The builder after some calls** holds what they say. -/
theorem build_eq (cs : List BuilderCall) :
    build cs =
      { error := (lastSet BuilderCall.error? cs).getD []
        type := (lastSet BuilderCall.type? cs).getD []
        fqdn := (lastSet BuilderCall.fqdn? cs).getD []
        status := (lastSet BuilderCall.status? cs).getD []
        counts := cs.filterMap BuilderCall.count?
        errors := cs.filterMap BuilderCall.errorEntry?
        ips := (cs.filterMap BuilderCall.ip?).map fun e => if e.2 = [] then ⟨false, [], e.1⟩ else ⟨true, e.2, e.1⟩
        nsRecords := cs.filterMap BuilderCall.ns?
        hasError := (lastSet BuilderCall.error? cs).isSome
        hasType := (lastSet BuilderCall.type? cs).isSome
        hasFqdn := (lastSet BuilderCall.fqdn? cs).isSome
        hasStatus := (lastSet BuilderCall.status? cs).isSome
        hasCounts := (added (cs.filterMap BuilderCall.count?)).isSome
        hasErrors := (added (cs.filterMap BuilderCall.errorEntry?)).isSome
        hasIps := (added (cs.filterMap BuilderCall.ip?)).isSome
        hasNsRecords := (added (cs.filterMap BuilderCall.ns?)).isSome } := by
  induction cs using List.reverseRecOn with
  | nil => rfl
  | append_singleton cs c ih =>
      rw [build_snoc, ih]
      simp only [filterMap_snoc, lastSet_snoc]
      cases c <;>
        simp [BuilderCall.apply, added_snoc, ServerJsonBuilder.setType, ServerJsonBuilder.setFqdn,
          ServerJsonBuilder.setStatus, ServerJsonBuilder.setError, ServerJsonBuilder.addError,
          ServerJsonBuilder.addCount, ServerJsonBuilder.addIp, ServerJsonBuilder.addNSRecord,
          BuilderCall.type?, BuilderCall.fqdn?, BuilderCall.status?, BuilderCall.error?,
          BuilderCall.errorEntry?, BuilderCall.count?, BuilderCall.ip?, BuilderCall.ns?]

/-! ### What its text says -/

/-- A member that is there if its flag is set. -/
theorem lookup_optional (has : Bool) (n k : Str) (v : Json) :
    (if has then [(n, v)] else []).lookup k = if k = n then (if has then some v else none) else none := by
  cases has with
  | false => simp
  | true =>
      by_cases hk : k = n
      · simp [hk]
      · have hbeq : (k == n) = false := by simpa using hk
        simp [List.lookup, hk, hbeq]

/-- The members of a reply, by name. -/
theorem lookup_members (jb : ServerJsonBuilder) :
    jb.members.lookup "type".toList
        = (if jb.hasType then some (ServerJsonBuilder.cValue jb.type) else none) ∧
      jb.members.lookup "fqdn".toList
        = (if jb.hasFqdn then some (ServerJsonBuilder.cValue jb.fqdn) else none) ∧
      jb.members.lookup "status".toList
        = (if jb.hasStatus then some (ServerJsonBuilder.cValue jb.status) else none) ∧
      jb.members.lookup "error".toList
        = (if jb.hasError then some (ServerJsonBuilder.cValue jb.error) else none) ∧
      jb.members.lookup "counts".toList
        = (if jb.hasCounts then some (.array (jb.counts.map ServerJsonBuilder.countElement)) else none) ∧
      jb.members.lookup "errors".toList
        = (if jb.hasErrors then some (.array (jb.errors.map ServerJsonBuilder.cValue)) else none) ∧
      jb.members.lookup "ips".toList
        = (if jb.hasIps then some (.array (jb.ips.map ServerJsonBuilder.ipObj)) else none) := by
  -- the seven names matter only in that they differ
  have hnames : memberNames.Pairwise fun n n' => ¬ n = n' ∧ ¬ n' = n := by decide
  rw [memberNames] at hnames
  simp only [ServerJsonBuilder.members, List.lookup_append, lookup_optional]
  generalize "type".toList = type, "fqdn".toList = fqdn, "status".toList = status,
    "error".toList = error, "counts".toList = counts, "errors".toList = errors, "ips".toList = ips at hnames ⊢
  simp only [List.pairwise_cons, List.forall_mem_cons] at hnames
  simp only [hnames, if_true, if_false, Option.or_none, Option.none_or, and_self]

/-- There are no other members. -/
theorem lookup_members_other (jb : ServerJsonBuilder) {k : Str} (hk : k ∉ memberNames) :
    jb.members.lookup k = none := by
  simp only [memberNames, List.mem_cons, not_or] at hk
  simp only [ServerJsonBuilder.members, List.lookup_append, lookup_optional, hk, if_false, Option.or_none]

/-- A member that is there if its flag is set is read if it is. -/
theorem readMember_optional {α : Type} {ms : List (Str × Json)} {name : Str} {value : Json → Option α}
    {has : Bool} {v : Json} (hlookup : ms.lookup name = if has then some v else none) {a : α}
    (hvalue : value v = some a) :
    ReplyValues.readMember ms name value = some (if has then some a else none) := by
  rw [ReplyValues.readMember, hlookup]
  cases has with
  | false => rfl
  | true =>
      simp only [if_true, hvalue]
      rfl

theorem cString_eq_self {s : Str} (h : '\x00' ∉ s) : cString s = s := by
  rw [cString, List.takeWhile_eq_self_iff]
  intro c hc
  simp only [ne_eq, decide_not, Bool.not_eq_eq_eq_not, Bool.not_true, decide_eq_false_iff_not]
  rintro rfl
  exact h hc

/-- An array whose elements can all be read back can be. -/
theorem readList_map {α : Type} {element : Json → Option α} {β : Type} {f : β → Json} {g : β → α}
    {xs : List β} (h : ∀ x ∈ xs, element (f x) = some (g x)) :
    ReplyValues.readList element (.array (xs.map f)) = some (xs.map g) := by
  show (xs.map f).mapM element = some (xs.map g)
  induction xs with
  | nil => rfl
  | cons x xs ih =>
      rw [List.map_cons, List.mapM_cons, h x List.mem_cons_self,
        ih fun y hy => h y (List.mem_cons_of_mem x hy)]
      rfl

theorem readString_cValue (s : Str) :
    ReplyValues.readString (ServerJsonBuilder.cValue s) = some (cString s) := rfl

theorem readCount_countElement (fc : FqdnCount) :
    ReplyValues.readCount (ServerJsonBuilder.countElement fc) = some ⟨cString fc.fqdn, fc.count⟩ := rfl

theorem readIp_ipObj (ij : IpJson) :
    ReplyValues.readIp (ServerJsonBuilder.ipObj ij)
      = some (cString ij.ip, if ij.hasError then some (cString ij.error) else none) := by
  obtain ⟨has, error, ip⟩ := ij
  cases has <;> rfl

/-- **What the text of a builder says**: every value whose flag is set, up to its first NUL, and nothing of
the name-server records. -/
theorem read_members {nsName : Str} (hns : nsName ∉ memberNames) (jb : ServerJsonBuilder) :
    ReplyValues.read nsName (.object jb.members) = some
      { type := if jb.hasType then some (cString jb.type) else none
        fqdn := if jb.hasFqdn then some (cString jb.fqdn) else none
        status := if jb.hasStatus then some (cString jb.status) else none
        error := if jb.hasError then some (cString jb.error) else none
        counts := if jb.hasCounts then some (jb.counts.map fun fc => ⟨cString fc.fqdn, fc.count⟩) else none
        errors := if jb.hasErrors then some (jb.errors.map cString) else none
        ips := if jb.hasIps then some (jb.ips.map fun ij =>
          (cString ij.ip, if ij.hasError then some (cString ij.error) else none)) else none
        nsRecords := none } := by
  obtain ⟨htype, hfqdn, hstatus, herror, hcounts, herrors, hips⟩ := lookup_members jb
  have hns' : ReplyValues.readMember jb.members nsName (ReplyValues.readList ReplyValues.readString)
      = some none := by
    rw [ReplyValues.readMember, lookup_members_other jb hns]
  rw [ReplyValues.read, hns',
    readMember_optional htype (readString_cValue _), readMember_optional hfqdn (readString_cValue _),
    readMember_optional hstatus (readString_cValue _), readMember_optional herror (readString_cValue _),
    readMember_optional hcounts (readList_map fun fc _ => readCount_countElement fc),
    readMember_optional herrors (readList_map fun s _ => readString_cValue s),
    readMember_optional hips (readList_map fun ij _ => readIp_ipObj ij)]
  rfl

/-! ### Reading back -/

section ReadBack

variable {cs cs' : List BuilderCall}

/-- What the argument passes is one of the strings of the call. -/
def Passes (field : BuilderCall → Option Str) : Prop := ∀ c s, field c = some s → s ∈ c.strings

theorem passes_fields : Passes BuilderCall.type? ∧ Passes BuilderCall.fqdn? ∧ Passes BuilderCall.status? ∧
    Passes BuilderCall.error? ∧ Passes BuilderCall.errorEntry? := by
  refine ⟨?_, ?_, ?_, ?_, ?_⟩ <;> intro c s h <;> cases c <;>
    simp_all [BuilderCall.type?, BuilderCall.fqdn?, BuilderCall.status?, BuilderCall.error?,
      BuilderCall.errorEntry?, BuilderCall.strings]

/-- The strings that calls without NULs pass in one argument. -/
theorem nul_not_mem_filterMap (hnul : ∀ c ∈ cs, c.NulFree) {field : BuilderCall → Option Str}
    (hfield : Passes field) : ∀ s ∈ cs.filterMap field, '\x00' ∉ s := by
  intro s hs
  obtain ⟨c, hc, hcs⟩ := List.mem_filterMap.mp hs
  exact hnul c hc s (hfield c s hcs)

theorem lastSet_readBack (hnul : ∀ c ∈ cs, c.NulFree) {field : BuilderCall → Option Str}
    (hfield : Passes field) :
    (if (lastSet field cs).isSome then some (cString ((lastSet field cs).getD [])) else none)
      = lastSet field cs := by
  cases hlast : lastSet field cs with
  | none => rfl
  | some s =>
      have hs := nul_not_mem_filterMap hnul hfield s (List.mem_of_getLast? hlast)
      exact congrArg some (cString_eq_self hs)

theorem added_readBack {α β : Type} {xs : List α} {f : α → β} {ys : List β} (h : xs.map f = ys) :
    (if (added xs).isSome then some (xs.map f) else none) = added ys := by
  subst h
  cases xs <;> rfl

/-- **The reply read back**: what the calls said, without the name-server records. -/
theorem read_toJson {nsName : Str} (hns : nsName ∉ memberNames) (hnul : ∀ c ∈ cs, c.NulFree) :
    (readJson (build cs).toJson).bind (ReplyValues.read nsName)
      = some { ReplyValues.of cs with nsRecords := none } := by
  obtain ⟨htype, hfqdn, hstatus, herror, hentry⟩ := passes_fields
  have hcounts : (cs.filterMap BuilderCall.count?).map (fun fc => (⟨cString fc.fqdn, fc.count⟩ : FqdnCount))
      = cs.filterMap BuilderCall.count? := by
    refine (List.map_congr_left fun fc hfc => ?_).trans (List.map_id _)
    obtain ⟨c, hc, hcs⟩ := List.mem_filterMap.mp hfc
    cases c <;> simp only [BuilderCall.count?, reduceCtorEq, Option.some.injEq] at hcs
    rw [← hcs, cString_eq_self (hnul _ hc _ (List.mem_singleton_self _))]
    rfl
  have herrors : (cs.filterMap BuilderCall.errorEntry?).map cString
      = cs.filterMap BuilderCall.errorEntry? := by
    refine (List.map_congr_left fun s hs => ?_).trans (List.map_id _)
    exact cString_eq_self (nul_not_mem_filterMap hnul hentry s hs)
  have hips : ((cs.filterMap BuilderCall.ip?).map fun e =>
        if e.2 = [] then (⟨false, [], e.1⟩ : IpJson) else ⟨true, e.2, e.1⟩).map
        (fun ij => (cString ij.ip, if ij.hasError then some (cString ij.error) else none))
      = (cs.filterMap BuilderCall.ip?).map reported := by
    rw [List.map_map]
    refine List.map_congr_left fun e he => ?_
    obtain ⟨c, hc, hcs⟩ := List.mem_filterMap.mp he
    cases c <;> simp only [BuilderCall.ip?, reduceCtorEq, Option.some.injEq] at hcs
    obtain ⟨hip, herr⟩ : '\x00' ∉ e.1 ∧ '\x00' ∉ e.2 := by
      simpa [← hcs, BuilderCall.NulFree, BuilderCall.strings] using hnul _ hc
    rw [Function.comp_apply, reported]
    split_ifs <;> simp_all [cString_eq_self]
  have hadded : (added (cs.filterMap BuilderCall.ip?)).isSome
      = (added ((cs.filterMap BuilderCall.ip?).map fun e =>
        if e.2 = [] then (⟨false, [], e.1⟩ : IpJson) else ⟨true, e.2, e.1⟩)).isSome := by
    cases cs.filterMap BuilderCall.ip? <;> rfl
  rw [ServerJsonBuilder.toJson, readJson_write, Option.bind_some, read_members hns, build_eq]
  simp only [lastSet_readBack hnul htype, lastSet_readBack hnul hfqdn, lastSet_readBack hnul hstatus,
    lastSet_readBack hnul herror, added_readBack hcounts, added_readBack herrors, hadded,
    added_readBack hips]
  rfl

theorem added_injective {α : Type} : Function.Injective (added : List α → Option (List α)) := by
  intro xs ys h
  cases xs with
  | nil =>
      cases ys with
      | nil => rfl
      | cons y ys => exact absurd h (by simp [added])
  | cons x xs =>
      cases ys with
      | nil => exact absurd h (by simp [added])
      | cons y ys => simpa [added] using h

/-- An entry as the builder keeps it, from what it reports. -/
theorem map_ips_eq
    (h : (cs.filterMap BuilderCall.ip?).map reported = (cs'.filterMap BuilderCall.ip?).map reported) :
    (build cs).ips = (build cs').ips := by
  have hkeep : ∀ cs : List BuilderCall, (build cs).ips = ((cs.filterMap BuilderCall.ip?).map reported).map
      fun r => (⟨r.2.isSome, r.2.getD [], r.1⟩ : IpJson) := by
    intro cs
    rw [build_eq, List.map_map]
    refine List.map_congr_left fun e _ => ?_
    rw [Function.comp_apply, reported]
    split_ifs <;> rfl
  rw [hkeep, hkeep, h]

/-- Builders that hold the same values but for the name-server records give the same reply. -/
theorem toJson_eq_of_values
    (h : { ReplyValues.of cs with nsRecords := none } = { ReplyValues.of cs' with nsRecords := none }) :
    (build cs).toJson = (build cs').toJson := by
  simp only [ReplyValues.of, ReplyValues.mk.injEq, and_true] at h
  obtain ⟨htype, hfqdn, hstatus, herror, hcounts, herrors, hips⟩ := h
  have hlist := map_ips_eq (added_injective hips)
  have hcount := added_injective hcounts
  have hentry := added_injective herrors
  have hhas : (added (cs.filterMap BuilderCall.ip?)).isSome
      = (added (cs'.filterMap BuilderCall.ip?)).isSome := by
    have hlen := congrArg List.length (added_injective hips)
    rw [List.length_map, List.length_map] at hlen
    cases hx : cs.filterMap BuilderCall.ip? <;> cases hy : cs'.filterMap BuilderCall.ip? <;> simp_all [added]
  rw [ServerJsonBuilder.toJson, ServerJsonBuilder.toJson, ServerJsonBuilder.members,
    ServerJsonBuilder.members, hlist]
  rw [build_eq, build_eq]
  simp only [htype, hfqdn, hstatus, herror, hcount, hentry, hhas]

/-- **What the reply loses.**  For every sequence of setter calls with NUL-free strings, parsing the reply
gives every value back, each list in the order it was added and no member for what was never set, if and
only if no name-server record was added, under whatever name these are looked for; and two builders give
the same reply exactly if they hold the same values but for the name-server records. -/
theorem values_read_iff {nsName : Str} (hns : nsName ∉ memberNames) {cs : List BuilderCall}
    (hnul : ∀ c ∈ cs, c.NulFree) :
    ((readJson (build cs).toJson).bind (ReplyValues.read nsName) = some (ReplyValues.of cs) ↔
        ∀ ns, BuilderCall.addNSRecord ns ∉ cs) ∧
      ∀ cs' : List BuilderCall, (∀ c ∈ cs', c.NulFree) →
        ((build cs).toJson = (build cs').toJson ↔
          { ReplyValues.of cs with nsRecords := none } = { ReplyValues.of cs' with nsRecords := none }) := by
  constructor
  · rw [read_toJson hns hnul, Option.some.injEq]
    have hlost : { ReplyValues.of cs with nsRecords := none } = ReplyValues.of cs ↔
        cs.filterMap BuilderCall.ns? = [] := by
      simp only [ReplyValues.of, ReplyValues.mk.injEq, true_and, added]
      cases cs.filterMap BuilderCall.ns? <;> simp
    rw [hlost, List.filterMap_eq_nil_iff]
    constructor
    · intro hnone ns hmem
      exact absurd (hnone _ hmem) (Option.some_ne_none ns)
    · intro hnone c hc
      cases c with
      | addNSRecord ns => exact absurd hc (hnone ns)
      | _ => rfl
  · intro cs' hnul'
    refine ⟨fun heq => ?_, toJson_eq_of_values⟩
    have hread := read_toJson hns hnul
    rw [heq, read_toJson hns hnul'] at hread
    exact (Option.some.inj hread).symm

end ReadBack

/-- The calls of a `SNAPSHOT` with one good and one bad entry. -/
def snapshotCalls : List BuilderCall :=
  [.setType "SNAPSHOT".toList, .setFqdn "a".toList, .addIp "4-60-1.1.1.1-x".toList [],
    .addIp "x".toList "-epected4Vals".toList, .setStatus "FAILED".toList]

theorem values_read_iff_snapshot :
    (readJson (build snapshotCalls).toJson).bind (ReplyValues.read "ns".toList)
        = some (ReplyValues.of snapshotCalls) ↔
      ∀ ns, BuilderCall.addNSRecord ns ∉ snapshotCalls :=
  (values_read_iff (by decide) (by
    intro c hc
    simp only [snapshotCalls, List.mem_cons, List.not_mem_nil, or_false] at hc
    rcases hc with rfl | rfl | rfl | rfl | rfl <;> unfold BuilderCall.NulFree <;> decide)).1

/-- The calls of a `SET_NS` with one record. -/
def setNSCalls (ns : Str) : List BuilderCall :=
  [.setType "SET_NS".toList, .addNSRecord ns, .setStatus "PASSED".toList]

/-- **The name-server records are lost**: two replies that differ in nothing else are the same text, so
nothing can read the records back. -/
theorem nsRecords_lost :
    ¬ ∃ decode : Str → ReplyValues, ∀ cs : List BuilderCall, (∀ c ∈ cs, c.NulFree) →
      decode (build cs).toJson = ReplyValues.of cs := by
  rintro ⟨decode, hdecode⟩
  have hfree : ∀ ns : Str, '\x00' ∉ ns → ∀ c ∈ setNSCalls ns, c.NulFree := by
    intro ns hns c hc
    simp only [setNSCalls, List.mem_cons, List.not_mem_nil, or_false] at hc
    rcases hc with rfl | rfl | rfl
    · unfold BuilderCall.NulFree
      decide
    · simpa [BuilderCall.NulFree, BuilderCall.strings] using hns
    · unfold BuilderCall.NulFree
      decide
  have h1 := hdecode _ (hfree "n1".toList (by decide))
  have h2 := hdecode _ (hfree "n2".toList (by decide))
  have hsame : (build (setNSCalls "n1".toList)).toJson = (build (setNSCalls "n2".toList)).toJson := rfl
  rw [hsame, h2] at h1
  exact absurd (congrArg ReplyValues.nsRecords h1) (by decide)

end GlbBackend
