import GlbBackend.JsonWriter

/-!
# `ServerJsonBuilder`: the reply of a command

The builder of `ServerJsonBuilder.cc`: optional members with their `has` flags, and `toJson`, which
puts the set ones into a document in a fixed order and writes it.  Strings reach the document through
`c_str()`, hence the `cString`.  The name-server records are collected by `addNSRecord` but `toJson`
does not write them, as in the source.
-/

namespace GlbBackend

open Text

/-- One `(fqdn, count)` pair of a `COUNTS` reply. -/
structure FqdnCount where
  fqdn : Str
  count : ℤ
  deriving DecidableEq

/-- One entry of a `SNAPSHOT` reply. -/
structure IpJson where
  hasError : Bool
  error : Str
  ip : Str
  deriving DecidableEq

/-- The reply under construction; a fresh builder has nothing set. -/
structure ServerJsonBuilder where
  error : Str := []
  type : Str := []
  fqdn : Str := []
  status : Str := []
  counts : List FqdnCount := []
  errors : List Str := []
  ips : List IpJson := []
  nsRecords : List Str := []
  hasError : Bool := false
  hasType : Bool := false
  hasFqdn : Bool := false
  hasStatus : Bool := false
  hasCounts : Bool := false
  hasErrors : Bool := false
  hasIps : Bool := false
  hasNsRecords : Bool := false
  deriving DecidableEq

namespace ServerJsonBuilder

def setFqdn (jb : ServerJsonBuilder) (fqdn : Str) : ServerJsonBuilder :=
  { jb with fqdn := fqdn, hasFqdn := true }

def setType (jb : ServerJsonBuilder) (type : Str) : ServerJsonBuilder :=
  { jb with type := type, hasType := true }

def setError (jb : ServerJsonBuilder) (error : Str) : ServerJsonBuilder :=
  { jb with error := error, hasError := true }

def addError (jb : ServerJsonBuilder) (errorEntry : Str) : ServerJsonBuilder :=
  { jb with errors := jb.errors ++ [errorEntry], hasErrors := true }

def setStatus (jb : ServerJsonBuilder) (status : Str) : ServerJsonBuilder :=
  { jb with status := status, hasStatus := true }

def addNSRecord (jb : ServerJsonBuilder) (ns : Str) : ServerJsonBuilder :=
  { jb with nsRecords := jb.nsRecords ++ [ns], hasNsRecords := true }

def addCount (jb : ServerJsonBuilder) (fqdn : Str) (count : ℤ) : ServerJsonBuilder :=
  { jb with counts := jb.counts ++ [⟨fqdn, count⟩], hasCounts := true }

def addIp (jb : ServerJsonBuilder) (ip error : Str) : ServerJsonBuilder :=
  let ij : IpJson := if error = [] then ⟨false, [], ip⟩ else ⟨true, error, ip⟩
  { jb with ips := jb.ips ++ [ij], hasIps := true }

/-- A string value made from a `const char *`. -/
def cValue (s : Str) : Json := .string (cString s)

/-- One `counts` element: the pair as a two-element array. -/
def countElement (fc : FqdnCount) : Json := .array [cValue fc.fqdn, .int64 fc.count]

/-- One `ips` element: the entry, with its error if it has one. -/
def ipObj (ij : IpJson) : Json :=
  .object (("ip".toList, cValue ij.ip) ::
    if ij.hasError then [("error".toList, cValue ij.error)] else [])

/-- The members `toJson` adds to its document, in order. -/
def members (jb : ServerJsonBuilder) : List (Str × Json) :=
  (if jb.hasType then [("type".toList, cValue jb.type)] else []) ++
  (if jb.hasFqdn then [("fqdn".toList, cValue jb.fqdn)] else []) ++
  (if jb.hasStatus then [("status".toList, cValue jb.status)] else []) ++
  (if jb.hasError then [("error".toList, cValue jb.error)] else []) ++
  (if jb.hasCounts then [("counts".toList, .array (jb.counts.map countElement))] else []) ++
  (if jb.hasErrors then [("errors".toList, .array (jb.errors.map cValue))] else []) ++
  (if jb.hasIps then [("ips".toList, .array (jb.ips.map ipObj))] else [])

/-- The text of the reply. -/
def toJson (jb : ServerJsonBuilder) : Str := write (.object jb.members)

theorem toJson_head (jb : ServerJsonBuilder) : jb.toJson.head? = some '{' :=
  write_object_head jb.members

theorem newline_not_mem_toJson (jb : ServerJsonBuilder) : '\n' ∉ jb.toJson :=
  newline_not_mem_write _

end ServerJsonBuilder

end GlbBackend
