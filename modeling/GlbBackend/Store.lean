import GlbBackend.Concurrent.Process
import GlbBackend.Text.Numeral

/-!
# The shared state: containers, the domain map, the SOA and the NS list

The globals of `GlbContainer.cc` and `SOAContainer.cc`.  Objects behind a `shared_ptr` live in heaps and
are named by their address: `containers` holds every `GlbContainer` ever published in the map (an erased
one stays, because another thread may still hold a pointer to it), `vectors` every vector ever published
as the NS list.  A `SOAContainer` has no setter, so its pointer is its value.

`boost::unordered_map` is Mathlib's `AList`; the order in which an iterator walks it is not specified by
the library and is a parameter (`MapOrder`), as are the random engine and `random_shuffle`
(`Randomness`).
-/

namespace GlbBackend

open Text Concurrent

/-! ### Records and containers -/

namespace IPRecordType

def NONE : ℤ := 0
def IPv4 : ℤ := 1
def IPv6 : ℤ := 2

end IPRecordType

namespace GlbType

def NONE : ℤ := 0
def RANDOM : ℤ := 1
def GEOIP : ℤ := 2
def WEIGHTED : ℤ := 3

end GlbType

/-- An address record. -/
structure IPRecord where
  ipType : ℤ
  ipAddress : Str
  ttl : ℤ
  deriving DecidableEq

def ipTypeToStr (ipt : ℤ) : Str :=
  if ipt = IPRecordType.IPv4 then "IPv4".toList
  else if ipt = IPRecordType.IPv6 then "IPv6".toList
  else "NONE".toList

def IPRecord.toString (r : IPRecord) : Str :=
  "\x7b ipType=".toList ++ ipTypeToStr r.ipType ++ ", ip=".toList ++ r.ipAddress
    ++ ", ttl=".toList ++ decimal r.ttl ++ "\x7d".toList

/-- The state of one balanced domain.  The weight vectors are never read or written and are left out. -/
structure GlbContainer where
  nLookups : ℤ
  glbType : ℤ
  cname : Str
  ips : List IPRecord
  deriving DecidableEq

/-- The code of an algorithm name, negative if there is none. -/
def strToGlbType (str : Str) : ℤ :=
  if str = "NONE".toList then GlbType.NONE
  else if str = "RANDOM".toList then GlbType.RANDOM
  else if str = "GEOIP".toList then GlbType.GEOIP
  else if str = "WEIGHTED".toList then GlbType.WEIGHTED
  else -1

def glbTypeToStr (gt : ℤ) : Str :=
  if gt = GlbType.NONE then "NONE".toList
  else if gt = GlbType.GEOIP then "GEOIP".toList
  else if gt = GlbType.RANDOM then "RANDOM".toList
  else if gt = GlbType.WEIGHTED then "WEIGHTED".toList
  else "NONE".toList

namespace GlbContainer

/-- A container as its constructor leaves it. -/
def new (cname : Str) (glbType : ℤ) : GlbContainer := ⟨0, glbType, cname, []⟩

/-- `to_string(bool)`, the text of one `DEBUG_DOMAINS` line after the key. -/
def toString (c : GlbContainer) (showIps : Bool) : Str :=
  "\x7b cname=".toList ++ c.cname ++ ", nsLookups=".toList ++ decimal c.nLookups
    ++ ", glbType=".toList ++ glbTypeToStr c.glbType ++ ", nIp=".toList ++ decimal c.ips.length
    ++ "\x7d".toList
    ++ (if showIps then c.ips.flatMap fun r => r.toString ++ " ".toList else [])

/-- `ips.push_back(r)` -/
def push (c : GlbContainer) (r : IPRecord) : GlbContainer := { c with ips := c.ips ++ [r] }

/-- The loop of `setIPs`: every record of the argument is pushed behind the stored ones. -/
def setIPs (c : GlbContainer) (ipsIn : List IPRecord) : GlbContainer := ipsIn.foldl push c

def clrNLookups (c : GlbContainer) : GlbContainer := { c with nLookups := 0 }

def incNLookups (c : GlbContainer) : GlbContainer := { c with nLookups := c.nLookups + 1 }

theorem setIPs_eq (c : GlbContainer) (ipsIn : List IPRecord) :
    c.setIPs ipsIn = { c with ips := c.ips ++ ipsIn } := by
  induction ipsIn generalizing c with
  | nil => simp [setIPs]
  | cons r rs ih =>
      have h : c.setIPs (r :: rs) = (c.push r).setIPs rs := rfl
      rw [h, ih]
      simp [push]

end GlbContainer

/-- Is `fqdn` the base domain or below it? -/
def matchesBaseFqdn (fqdn baseFqdn : Str) : Bool :=
  let dotBase := '.' :: baseFqdn
  if dotBase.isSuffixOf fqdn then true
  else if fqdn = baseFqdn then true
  else false

theorem matchesBaseFqdn_iff {fqdn base : Str} :
    matchesBaseFqdn fqdn base = true ↔ ('.' :: base) <:+ fqdn ∨ fqdn = base := by
  simp [matchesBaseFqdn]

/-! ### The globals -/

/-- The SOA text and the base domain it was set with. -/
structure SOAContainer where
  soaRecord : Str
  baseFQDN : Str
  deriving DecidableEq

/-- The address of an object in its heap. -/
abbrev Ptr := ℕ

/-- The shared state of the process. -/
structure Globals where
  /-- Heap of the containers that were ever in the map. -/
  containers : List GlbContainer
  /-- `glbMap`. -/
  glbMap : AList fun _ : Str => Ptr
  globalSOA : SOAContainer
  /-- Heap of the vectors that were ever the NS list. -/
  vectors : List (List Str)
  globalNsRecords : Ptr
  /-- The state of the random engine `rng`, its words read as one number. -/
  rng : ℕ

namespace Globals

/-- The state the static initialisers leave: no domain, an empty SOA and an empty NS list. -/
def init (seed : ℕ) : Globals := ⟨[], ∅, ⟨[], []⟩, [[]], 0, seed⟩

/-- `glbMap.find`. -/
def find (g : Globals) (fqdn : Str) : Option Ptr := g.glbMap.lookup fqdn

/-- `glbMap[fqdn] = glb`: the new container is published under the key. -/
def insert (g : Globals) (fqdn : Str) (glb : GlbContainer) : Globals :=
  { g with containers := g.containers ++ [glb], glbMap := g.glbMap.insert fqdn g.containers.length }

def erase (g : Globals) (fqdn : Str) : Globals := { g with glbMap := g.glbMap.erase fqdn }

def clear (g : Globals) : Globals := { g with glbMap := ∅ }

/-- What a pointer to a container points to. -/
def container (g : Globals) (p : Ptr) : Option GlbContainer := g.containers[p]?

/-- An update of the container behind a pointer. -/
def update (g : Globals) (p : Ptr) (f : GlbContainer → GlbContainer) : Globals :=
  { g with containers := g.containers.modify p f }

/-- `globalSOA = shared_ptr(new SOAContainer(...))`. -/
def setSOA (g : Globals) (soaValue baseFQDNValue : Str) : Globals :=
  { g with globalSOA := ⟨soaValue, baseFQDNValue⟩ }

/-- `globalNsRecords = newRecords`: the new vector is published. -/
def setNS (g : Globals) (recs : List Str) : Globals :=
  { g with vectors := g.vectors ++ [recs], globalNsRecords := g.vectors.length }

/-- What a pointer to an NS vector points to. -/
def vector (g : Globals) (v : Ptr) : Option (List Str) := g.vectors[v]?

/-- The container a name is mapped to. -/
def lookupContainer (g : Globals) (fqdn : Str) : Option GlbContainer :=
  (g.find fqdn).bind g.container

/-- The current NS list. -/
def nsList (g : Globals) : List Str := (g.vector g.globalNsRecords).getD []

/-! #### What each operation does to the map and to the heaps -/

@[simp] theorem find_init (seed : ℕ) (f : Str) : (init seed).find f = none := rfl

theorem find_insert (g : Globals) (fqdn : Str) (c : GlbContainer) (f : Str) :
    (g.insert fqdn c).find f = if f = fqdn then some g.containers.length else g.find f := by
  show (g.glbMap.insert fqdn g.containers.length).lookup f = _
  split_ifs with h
  · rw [h, AList.lookup_insert]
  · rw [AList.lookup_insert_ne h]
    rfl

theorem find_erase (g : Globals) (fqdn f : Str) :
    (g.erase fqdn).find f = if f = fqdn then none else g.find f := by
  show (g.glbMap.erase fqdn).lookup f = _
  split_ifs with h
  · rw [h, AList.lookup_erase]
  · rw [AList.lookup_erase_ne h]
    rfl

@[simp] theorem find_clear (g : Globals) (f : Str) : g.clear.find f = none := rfl

@[simp] theorem find_update (g : Globals) (p : Ptr) (u : GlbContainer → GlbContainer) (f : Str) :
    (g.update p u).find f = g.find f := rfl

@[simp] theorem find_setSOA (g : Globals) (v b f : Str) : (g.setSOA v b).find f = g.find f := rfl

@[simp] theorem find_setNS (g : Globals) (recs : List Str) (f : Str) :
    (g.setNS recs).find f = g.find f := rfl

theorem container_insert (g : Globals) (fqdn : Str) (c : GlbContainer) (p : Ptr) :
    (g.insert fqdn c).container p
      = if p = g.containers.length then some c else g.container p := by
  show (g.containers ++ [c])[p]? = _
  by_cases hp : p = g.containers.length
  · rw [if_pos hp, hp, List.getElem?_append_right (le_refl _), Nat.sub_self]
    rfl
  · rw [if_neg hp]
    rcases Nat.lt_or_gt_of_ne hp with hlt | hgt
    · exact List.getElem?_append_left hlt
    · rw [List.getElem?_eq_none (by rw [List.length_append, List.length_singleton]; omega)]
      exact (List.getElem?_eq_none (le_of_lt hgt)).symm

theorem container_lt {g : Globals} {p : Ptr} {c : GlbContainer} (h : g.container p = some c) :
    p < g.containers.length :=
  (List.getElem?_eq_some_iff.mp h).1

theorem container_update (g : Globals) (p q : Ptr) (u : GlbContainer → GlbContainer) :
    (g.update p u).container q = if q = p then (g.container q).map u else g.container q := by
  show (g.containers.modify p u)[q]? = _
  rw [List.getElem?_modify]
  split_ifs with h1 h2 h2
  · rfl
  · exact absurd h1.symm h2
  · exact absurd h2.symm h1
  · exact Option.map_id'

theorem update_update (g : Globals) (p : Ptr) (u v : GlbContainer → GlbContainer) :
    (g.update p u).update p v = g.update p (v ∘ u) :=
  congrArg (fun cs => { g with containers := cs }) (List.modify_modify_eq u v p g.containers)

theorem update_id (g : Globals) (p : Ptr) : g.update p id = g :=
  congrArg (fun cs => { g with containers := cs }) (List.modify_id p g.containers)

@[simp] theorem container_erase (g : Globals) (fqdn : Str) (p : Ptr) :
    (g.erase fqdn).container p = g.container p := rfl

@[simp] theorem container_clear (g : Globals) (p : Ptr) : g.clear.container p = g.container p := rfl

@[simp] theorem container_setSOA (g : Globals) (v b : Str) (p : Ptr) :
    (g.setSOA v b).container p = g.container p := rfl

@[simp] theorem container_setNS (g : Globals) (recs : List Str) (p : Ptr) :
    (g.setNS recs).container p = g.container p := rfl

@[simp] theorem vector_setNS (g : Globals) (recs : List Str) :
    (g.setNS recs).vector (g.setNS recs).globalNsRecords = some recs := by
  show (g.vectors ++ [recs])[g.vectors.length]? = some recs
  simp

end Globals

/-! ### What the libraries leave open -/

/-- The order in which an iterator walks `glbMap`: in every state some order of its entries. -/
structure MapOrder where
  traverse : Globals → List (Str × Ptr)
  traverse_perm : ∀ g, (traverse g).Perm (g.glbMap.entries.map fun e => (e.1, e.2))

/-- The order of the association list itself. -/
def MapOrder.entries : MapOrder where
  traverse g := g.glbMap.entries.map fun e => (e.1, e.2)
  traverse_perm _ := List.Perm.refl _

/-- A generator whose draw for `n` lies in `[0, n)`. -/
structure Generator (ρ : Type) where
  rn : ρ → ℕ → ℕ × ρ
  rn_lt : ∀ s n, 0 < n → (rn s n).1 < n

/-- `random_shuffle` on index vectors: with a generator as its only source of randomness it permutes
its range. -/
structure RandomShuffle (ρ : Type) where
  shuffle : Generator ρ → ρ → List ℕ → List ℕ × ρ
  shuffle_perm : ∀ gen s xs, (shuffle gen s xs).1.Perm xs

/-- The engine's generator `rn` and the library's shuffle. -/
structure Randomness where
  gen : Generator ℕ
  lib : RandomShuffle ℕ

/-! ### Locks and scopes -/

/-- The locks of the program; the last two are members of every container. -/
inductive LockId
  | glbMapMutex
  | soaMutex
  | debugMutex
  | glbMutex (p : Ptr)
  | nLookupsMutex (p : Ptr)
  deriving DecidableEq, Repr

/-- The blocks of the source that touch shared data, by the function they are in. -/
inductive Scope
  | addDomain
  | delDomain
  | clearDomains
  | snapshotDomain
  | getCounts
  | clearCounts
  | debugDomains
  | lookup
  | setGlobalSOARecord
  | getGlobalSOARecord
  | setNSRecords
  | getNSRecords
  | setIPs
  | getIPs
  deriving DecidableEq, Repr

/-- Code of this program. -/
abbrev Code (α : Type) := Proc LockId Scope Globals α

/-- `lock_guard<...> lock(l)` and what its scope holds. -/
def lockGuard {α : Type} (l : LockId) (body : Code α) : Code α := Proc.guarded l .exclusive body

/-- `shared_lock<shared_mutex> lock(l)` and what its scope holds. -/
def sharedLock {α : Type} (l : LockId) (body : Code α) : Code α := Proc.guarded l .shared body

/-- `if (DEBUG) { lock_guard<mutex> lock(debugMutex); cout << ...; }` with `DEBUG` true; what is
printed on the console is not modelled. -/
def debug : Code Unit := lockGuard .debugMutex (.ret ())

@[simp] theorem run_lockGuard {α : Type} (l : LockId) (p : Code α) (g : Globals) :
    (lockGuard l p).run g = p.run g := Proc.run_guarded l .exclusive p g

@[simp] theorem run_sharedLock {α : Type} (l : LockId) (p : Code α) (g : Globals) :
    (sharedLock l p).run g = p.run g := Proc.run_guarded l .shared p g

@[simp] theorem run_debug (g : Globals) : debug.run g = some ((), g) := rfl

end GlbBackend
