import GlbBackend.CommandServer

/-!
# `GLBBackend`: `lookup` and `get`

The DNS side of `glbbackend.cc`.  PowerDNS calls `lookup` once per query and then `get` until it returns
false; between the calls the answer lives in the instance (`GLBBackend`), which is never reset as a whole.

`lookup` reads the shared state at up to four separate moments: the SOA pointer, the NS pointer, the map,
and the records of the container it found.  The block that searches the map is a scope without a lock:
line 102 of `glbbackend.cc`, `shared_lock<shared_mutex > (glbMapMutex);`, declares a
default-constructed lock *variable* named `glbMapMutex` and acquires nothing.
-/

namespace GlbBackend

open Text Concurrent Concurrent.Proc

/-! ### Query types and resource records -/

/-- A DNS type code. -/
abbrev QType := ℕ

namespace QType

def A : QType := 1
def NS : QType := 2
def SOA : QType := 6
def AAAA : QType := 28
def ANY : QType := 255

end QType

/-- The fields of PowerDNS's `DNSResourceRecord` that `get` sets. -/
structure DNSResourceRecord where
  content : Str
  ttl : ℤ
  qname : Str
  qtype : QType
  auth : Bool
  domain_id : ℤ
  deriving DecidableEq

/-- The state of a backend instance.  `nsIterator` is a position in the vector `nsRecords` points to. -/
structure GLBBackend where
  sendSOA : Bool
  sendNS : Bool
  ips : List IPRecord
  nsRecords : Option Ptr
  nsIterator : ℕ
  d_ourname : Str
  soaRecord : Str
  baseDomain : Str
  deriving DecidableEq

/-- An instance as its constructor leaves it: no vector yet, and no position in one. -/
def GLBBackend.new : GLBBackend := ⟨false, false, [], none, 0, [], [], []⟩

/-! ### The selection algorithms of a container -/

/-- The test of `getIPSNoneAlgo`. -/
def noneTest (ipType : ℤ) (r : IPRecord) : Bool := decide (0 < Int.land r.ipType ipType)

/-- `getIPSNoneAlgo`: the records of the asked families are pushed behind the deque. -/
def getIPSNoneAlgo (ips : List IPRecord) (dq : List IPRecord) (ipType : ℤ) : List IPRecord :=
  ips.foldl (fun dq r => if noneTest ipType r then dq ++ [r] else dq) dq

/-- The test of `getIPSRandomAlgo`: the mask is compared with zero first, and the result of that
comparison is what the type is tested against. -/
def randomTest (ipType : ℤ) (r : IPRecord) : Bool :=
  decide (Int.land r.ipType (if ipType ≠ 0 then 1 else 0) ≠ 0)

/-- The loop of `getIPSRandomAlgo` that collects the positions to serve. -/
def ipIndexes (ipType : ℤ) : ℕ → List IPRecord → List ℕ
  | _, [] => []
  | i, r :: rs => if randomTest ipType r then i :: ipIndexes ipType (i + 1) rs
      else ipIndexes ipType (i + 1) rs

/-- `getIPSRandomAlgo`: the collected positions are shuffled and the records there pushed behind the
deque; `none` is an access out of range. -/
def getIPSRandomAlgo {ρ : Type} (lib : RandomShuffle ρ) (gen : Generator ρ) (rng : ρ)
    (ips : List IPRecord) (dq : List IPRecord) (ipType : ℤ) : Option (List IPRecord) × ρ :=
  let ip_indexes := ipIndexes ipType 0 ips
  let r := lib.shuffle gen rng ip_indexes
  (r.1.foldl (fun dq i => dq.bind fun dq => ips[i]?.map fun r => dq ++ [r]) (some dq), r.2)

/-- `GlbContainer::getIPs`: the lookup is counted, then the algorithm fills the deque; an algorithm
without a case leaves it as it is. -/
def getIPs (rnd : Randomness) (glb : Ptr) (dq : List IPRecord) (ipType : ℤ) :
    Code (List IPRecord) := do
  incNLookups glb
  let g ← read
  let c ← expect (g.container glb)
  if c.glbType = GlbType.NONE then
    sharedLock (.glbMutex glb) <| scope .getIPs <| do
      let g ← read
      let c ← expect (g.container glb)
      ret (getIPSNoneAlgo c.ips dq ipType)
  else if c.glbType = GlbType.RANDOM then
    sharedLock (.glbMutex glb) <| scope .getIPs <| do
      let g ← read
      let c ← expect (g.container glb)
      let dq ← access fun g =>
        let r := getIPSRandomAlgo rnd.lib rnd.gen g.rng c.ips dq ipType
        (r.1, { g with rng := r.2 })
      expect dq
  else ret dq

/-! ### Lookup -/

/-- The debugging output of `lookup`, one line for each NS record. -/
def debugNS : List Str → Code Unit
  | [] => ret ()
  | _ :: ns => do
      debug
      debugNS ns

/-- The mask `lookup` passes to `getIPs`, if the query type asks for addresses at all. -/
def lookupMask (type : QType) : Option ℤ :=
  if type = QType.A then some IPRecordType.IPv4
  else if type = QType.AAAA then some IPRecordType.IPv6
  else if type = QType.ANY then some (Int.lor IPRecordType.IPv4 IPRecordType.IPv6)
  else none

/-- The first part of `lookup`: the SOA container is read, and its text loaded if the name is under its
base. -/
def lookupSOA (type : QType) (domainLowerCase : Str) (b : GLBBackend) : Code GLBBackend :=
  if type = QType.SOA ∨ type = QType.ANY ∨ type = QType.NS then do
    let localSOA ← getGlobalSOARecord
    let b := { b with baseDomain := localSOA.baseFQDN }
    if matchesBaseFqdn domainLowerCase b.baseDomain then do
      let b := { b with soaRecord := localSOA.soaRecord }
      debug
      ret b
    else ret b
  else ret b

/-- The second part of `lookup`: which authority records `get` is to send. -/
def lookupNS (type : QType) (domainLowerCase : Str) (b : GLBBackend) : Code GLBBackend := do
  let b := if type = QType.SOA then { b with sendSOA := true } else b
  if (type = QType.NS ∨ type = QType.ANY) ∧ matchesBaseFqdn domainLowerCase b.baseDomain then do
    debug
    let nsRecords ← getNSRecords
    let g ← read
    let recs ← expect (g.vector nsRecords)
    debugNS recs
    ret { b with nsRecords := some nsRecords, nsIterator := 0, sendNS := true }
  else ret b

/-- The third part of `lookup`: the map search, which holds no lock, and the copy of the records. -/
def lookupIPs (rnd : Randomness) (type : QType) (domainLowerCase : Str) (b : GLBBackend) :
    Code GLBBackend := do
  let glb ← scope .lookup <| do
    let g ← read
    ret (g.find domainLowerCase)
  match glb with
  | none => ret b
  | some glb =>
      match lookupMask type with
      | none => ret b
      | some ipType => do
          debug
          let ips ← getIPs rnd glb b.ips ipType
          ret { b with ips := ips }

/-- `GLBBackend::lookup`. -/
def lookup (rnd : Randomness) (type : QType) (qdomain : Str) (b : GLBBackend) :
    Code GLBBackend := do
  let b := { b with ips := [], d_ourname := qdomain, sendSOA := false, sendNS := false }
  debug
  let domainLowerCase := lower qdomain
  let b := { b with baseDomain := [] }
  let b ← lookupSOA type domainLowerCase b
  let b ← lookupNS type domainLowerCase b
  lookupIPs rnd type domainLowerCase b

/-! ### Get -/

/-- The last part of `get`: the first address record that is left.  The switch on its type has no
default case. -/
def getIP (rr : DNSResourceRecord) (b : GLBBackend) :
    Code (Bool × DNSResourceRecord × GLBBackend) :=
  match b.ips with
  | [] => ret (false, rr, b)
  | ipr :: ips => do
      let rr := if ipr.ipType = IPRecordType.IPv4 then { rr with qtype := QType.A }
        else if ipr.ipType = IPRecordType.IPv6 then { rr with qtype := QType.AAAA }
        else rr
      let rr := { rr with ttl := ipr.ttl, auth := true, content := ipr.ipAddress,
                          qname := b.d_ourname, domain_id := 1 }
      debug
      ret (true, rr, { b with ips := ips })

/-- `GLBBackend::get`: whether a record was put into `rr`. -/
def get (rr : DNSResourceRecord) (b : GLBBackend) :
    Code (Bool × DNSResourceRecord × GLBBackend) :=
  if b.sendSOA then do
    let rr : DNSResourceRecord :=
      { content := b.soaRecord, ttl := 60, qname := b.baseDomain, qtype := QType.SOA, auth := true,
        domain_id := 1 }
    debug
    ret (true, rr, { b with sendSOA := false })
  else if b.sendNS then do
    let nsRecords ← expect b.nsRecords
    let g ← read
    let recs ← expect (g.vector nsRecords)
    if b.nsIterator = recs.length then getIP rr { b with sendNS := false }
    else do
      let ns ← expect recs[b.nsIterator]?
      let rr : DNSResourceRecord :=
        { content := ns, ttl := 60, qname := "ns1.".toList ++ b.baseDomain, qtype := QType.NS,
          auth := true, domain_id := 1 }
      debug
      ret (true, rr, { b with nsIterator := b.nsIterator + 1 })
  else getIP rr b

/-- `n` calls of `get` with one record object, as PowerDNS makes them: what each call delivered, `none`
where it returned false. -/
def gets : ℕ → DNSResourceRecord → GLBBackend → Code (List (Option DNSResourceRecord) × GLBBackend)
  | 0, _, b => ret ([], b)
  | n + 1, rr, b => do
      let (ok, rr, b) ← get rr b
      let (rest, b) ← gets n rr b
      ret ((if ok then some rr else none) :: rest, b)

/-- A query: `lookup`, then `n` calls of `get`. -/
def query (rnd : Randomness) (type : QType) (qdomain : Str) (n : ℕ) (rr : DNSResourceRecord)
    (b : GLBBackend) : Code (List (Option DNSResourceRecord)) := do
  let b ← lookup rnd type qdomain b
  let r ← gets n rr b
  ret r.1

end GlbBackend
