import GlbBackend.Backend
import GlbBackend.Concurrent.Policy

/-!
# What the code may do where

The rules that all code of the daemon observes, as a policy: under which lock each block of the source is
entered (`Scope.Under`), which locks are taken inside which (`LockId.At`), and which block makes which
change to the globals (`Scope.Writes`); everything else an access does leaves the zone alone
(`KeepsZone`).  `rules C` restricts the blocks that may be entered to those of `C`.

One lemma per function says that it observes the rules, and in which blocks.  What the other modules need of
the text of a function — that it is balanced, what it enters and what it changes — they read off.
-/

namespace GlbBackend

open Text Concurrent Concurrent.Proc Globals

/-! ### Accesses that leave the zone alone -/

/-- The two states serve the same data: what a query changes, the lookup counters and the engine, is left
out. -/
structure Globals.SameZone (g g' : Globals) : Prop where
  find : ∀ f, g'.find f = g.find f
  soa : g'.globalSOA = g.globalSOA
  ns : g'.nsList = g.nsList
  containers : ∀ p, (g'.container p).map (fun c => (c.glbType, c.ips))
    = (g.container p).map fun c => (c.glbType, c.ips)

theorem Globals.SameZone.refl (g : Globals) : g.SameZone g :=
  ⟨fun _ => rfl, rfl, rfl, fun _ => rfl⟩

theorem Globals.SameZone.trans {g₁ g₂ g₃ : Globals} (h₁ : g₁.SameZone g₂) (h₂ : g₂.SameZone g₃) :
    g₁.SameZone g₃ :=
  ⟨fun f => (h₂.find f).trans (h₁.find f), h₂.soa.trans h₁.soa, h₂.ns.trans h₁.ns,
    fun p => (h₂.containers p).trans (h₁.containers p)⟩

/-- Accesses that keep the zone. -/
abbrev KeepsZone (f : Globals → Globals) : Prop := ∀ g : Globals, g.SameZone (f g)

theorem keepsZone_id : KeepsZone id := Globals.SameZone.refl

/-- A change of a container that leaves its algorithm and its records alone. -/
theorem keepsZone_update (p : Ptr) {u : GlbContainer → GlbContainer}
    (hu : ∀ c, (u c).glbType = c.glbType ∧ (u c).ips = c.ips) : KeepsZone fun g => g.update p u := by
  intro g
  refine ⟨fun _ => rfl, rfl, rfl, fun q => ?_⟩
  rw [container_update]
  split_ifs
  · cases g.container q with
    | none => rfl
    | some c =>
        show some ((u c).glbType, (u c).ips) = some (c.glbType, c.ips)
        rw [(hu c).1, (hu c).2]
  · rfl

/-! ### The rules -/

/-- The frames under which a block is entered.  The block of `lookup` is entered without a lock. -/
def Scope.Under : Scope → List (Frame LockId Scope) → Prop
  | .addDomain, K => K = [.lock .glbMapMutex .exclusive]
  | .delDomain, K => K = [.lock .glbMapMutex .exclusive]
  | .clearDomains, K => K = [.lock .glbMapMutex .exclusive]
  | .snapshotDomain, K => K = [.lock .glbMapMutex .shared]
  | .getCounts, K => K = [.lock .glbMapMutex .shared]
  | .clearCounts, K => K = [.lock .glbMapMutex .shared]
  | .debugDomains, K => K = [.lock .glbMapMutex .shared]
  | .lookup, K => K = []
  | .setGlobalSOARecord, K => K = [.lock .soaMutex .exclusive]
  | .getGlobalSOARecord, K => K = [.lock .soaMutex .shared]
  | .setNSRecords, K => K = [.lock .soaMutex .exclusive]
  | .getNSRecords, K => K = [.lock .soaMutex .shared]
  | .setIPs, K => ∃ p, K = [.lock (.glbMutex p) .exclusive]
  | .getIPs, K => ∃ p, K = [.lock (.glbMutex p) .shared]

/-- The frames inside which a lock is taken: the first three outside everything, the locks of a container
also inside a block that reads the map. -/
def LockId.At : LockId → Mode → List (Frame LockId Scope) → Prop
  | .glbMapMutex, _, K => K = []
  | .soaMutex, _, K => K = []
  | .debugMutex, _, K => K = []
  | .glbMutex _, m, K =>
      K = [] ∨ m = .shared ∧ K = [.scope .debugDomains, .lock .glbMapMutex .shared]
  | .nLookupsMutex _, _, K =>
      K = [] ∨ ∃ c, (c = .getCounts ∨ c = .clearCounts) ∧ K = [.scope c, .lock .glbMapMutex .shared]

/-- What a block changes of the zone. -/
def Scope.Writes : Scope → (Globals → Globals) → Prop
  | .addDomain, f => ∃ fqdn glb, f = fun g => g.insert fqdn glb
  | .delDomain, f => ∃ fqdn, f = fun g => g.erase fqdn
  | .clearDomains, f => f = fun g => g.clear
  | .setIPs, f => ∃ p r, f = fun g => g.update p (·.push r)
  | .setGlobalSOARecord, f => ∃ soaValue base, f = fun g => g.setSOA soaValue base
  | .setNSRecords, f => ∃ recs, f = fun g => g.setNS recs
  | _, _ => False

/-- The rules, for code that enters only blocks of `C`. -/
def rules (C : Scope → Prop) : Policy LockId Scope Globals where
  admits K fr :=
    match fr with
    | .lock l m => l.At m K
    | .scope c => C c ∧ c.Under K
  allows K f := KeepsZone f ∨ ∃ c, .scope c ∈ K ∧ C c ∧ c.Writes f

/-- Blocks that write nothing. -/
def Scope.Quiet (c : Scope) : Prop := ∀ f, ¬ c.Writes f

/-- Code that enters only blocks which write nothing keeps the zone. -/
theorem keepsZone_of_rules {C : Scope → Prop} (hC : ∀ c, C c → c.Quiet) {α : Type}
    {K : List (Frame LockId Scope)} {p : Code α} (hp : (rules C).Keeps K p) : Accesses KeepsZone p := by
  refine Policy.Disciplined.accesses (fun K f hf => ?_) hp
  rcases hf with hf | ⟨c, -, hc, hwrites⟩
  · exact hf
  · exact absurd hwrites (hC c hc f)

theorem balanced_of_rules {α : Type} {p : Code α} (hp : (rules fun _ => True).Keeps [] p) : Balanced p :=
  hp.balanced

theorem enters_of_rules {C : Scope → Prop} {α : Type} {K : List (Frame LockId Scope)} {p : Code α}
    (hp : (rules C).Keeps K p) : Enters C p :=
  Policy.Disciplined.enters (P := rules C) (fun _ _ hc => hc.1) hp

/-! ### The functions of the source -/

section Functions

variable {C : Scope → Prop} {K : List (Frame LockId Scope)} {α : Type}

/-- A read, and what follows it. -/
theorem keeps_read_bind {q : Globals → Code α} (hq : ∀ g, (rules C).Keeps K (q g)) :
    (rules C).Keeps K (Proc.read.bind q) :=
  Policy.Keeps.atom (Or.inl keepsZone_id) hq

/-- A change that a block makes. -/
theorem keeps_write {f : Globals → Globals} {c : Scope} (hc : C c) (hf : c.Writes f) :
    (rules C).Keeps (.scope c :: K) (Proc.modify f) :=
  Policy.Keeps.modify (Or.inr ⟨c, List.mem_cons_self, hc, hf⟩)

/-- The lock of a block may be taken outside everything. -/
theorem Scope.Under.lockAt {c : Scope} {l : LockId} {m : Mode} (h : c.Under [.lock l m]) : l.At m [] := by
  cases l with
  | glbMutex p => exact Or.inl rfl
  | nLookupsMutex p => exact Or.inl rfl
  | _ => rfl

/-- A block under its lock. -/
theorem keeps_block {l : LockId} {m : Mode} {c : Scope} {p : Code α} (hc : C c)
    (hunder : c.Under [.lock l m]) (hp : (rules C).Keeps [.scope c, .lock l m] p) :
    (rules C).Keeps [] (guarded l m (scope c p)) :=
  Policy.Keeps.guarded hunder.lockAt (Policy.Keeps.scope ⟨hc, hunder⟩ hp)

theorem keeps_debug : (rules C).Keeps [] debug := Policy.Keeps.guarded rfl (Policy.Keeps.ret ())

/-! #### Counts and containers -/

theorem keeps_getNLookups {p : Ptr} (hK : (LockId.nLookupsMutex p).At .exclusive K) :
    (rules C).Keeps K (getNLookups p) := by
  refine Policy.Keeps.guarded hK (keeps_read_bind fun g => ?_)
  exact (Policy.Keeps.expect _).bind fun _ => Policy.Keeps.ret _

theorem keeps_clrNLookups {p : Ptr} (hK : (LockId.nLookupsMutex p).At .exclusive K) :
    (rules C).Keeps K (clrNLookups p) :=
  Policy.Keeps.guarded hK
    (Policy.Keeps.modify (Or.inl (keepsZone_update p fun _ => ⟨rfl, rfl⟩)))

theorem keeps_incNLookups (p : Ptr) : (rules C).Keeps [] (incNLookups p) :=
  Policy.Keeps.guarded (Or.inl rfl)
    (Policy.Keeps.modify (Or.inl (keepsZone_update p fun _ => ⟨rfl, rfl⟩)))

theorem keeps_pushIPs (hC : C .setIPs) (p : Ptr) (ips : List IPRecord) :
    (rules C).Keeps (.scope .setIPs :: K) (pushIPs p ips) := by
  induction ips with
  | nil => exact Policy.Keeps.ret _
  | cons r rest ih => exact (keeps_write hC ⟨p, r, rfl⟩).bind fun _ => ih

theorem keeps_setIPs (hC : C .setIPs) (p : Ptr) (ips : List IPRecord) :
    (rules C).Keeps [] (setIPs p ips) :=
  keeps_block hC ⟨p, rfl⟩ (keeps_pushIPs hC p ips)

/-! #### The handlers -/

theorem keeps_addDomain (hC : C .addDomain) (line : Str) : (rules C).Keeps [] (addDomain line) := by
  rw [addDomain]
  split_ifs
  · exact Policy.Keeps.ret _
  · refine (Policy.Keeps.expect _).bind fun fqdn => (Policy.Keeps.expect _).bind fun algoName => ?_
    simp only
    split_ifs
    · exact Policy.Keeps.ret _
    · refine (keeps_block hC rfl (keeps_read_bind fun g => ?_)).bind fun known => ?_
      · split_ifs
        · exact Policy.Keeps.ret _
        · exact (keeps_write hC ⟨fqdn, _, rfl⟩).bind fun _ => Policy.Keeps.ret _
      · split_ifs <;> exact Policy.Keeps.ret _

theorem keeps_delDomain (hC : C .delDomain) (line : Str) : (rules C).Keeps [] (delDomain line) := by
  rw [delDomain]
  refine (Policy.Keeps.expect _).bind fun fqdn => ?_
  split_ifs
  · exact Policy.Keeps.ret _
  · refine (keeps_block hC rfl (keeps_read_bind fun g => ?_)).bind fun found => ?_
    · split_ifs
      · exact Policy.Keeps.ret _
      · exact (keeps_write hC ⟨fqdn, rfl⟩).bind fun _ => Policy.Keeps.ret _
    · split_ifs <;> exact Policy.Keeps.ret _

theorem keeps_clearDomains (hC : C .clearDomains) (line : Str) :
    (rules C).Keeps [] (clearDomains line) :=
  keeps_debug.bind fun _ => (keeps_block hC rfl (keeps_write hC rfl)).bind fun _ => Policy.Keeps.ret _

theorem keeps_setSOA (hC : C .setGlobalSOARecord) (line : Str) : (rules C).Keeps [] (setSOA line) := by
  rw [setSOA]
  split_ifs
  · exact Policy.Keeps.ret _
  · refine (Policy.Keeps.expect _).bind fun base => Policy.Keeps.bind ?_ fun _ => Policy.Keeps.ret _
    exact keeps_block hC rfl (keeps_write hC ⟨_, base, rfl⟩)

theorem keeps_setNS (hC : C .setNSRecords) (line : Str) : (rules C).Keeps [] (setNS line) := by
  rw [setNS]
  split_ifs
  · exact Policy.Keeps.ret _
  · refine Policy.Keeps.bind ?_ fun _ => Policy.Keeps.ret _
    exact keeps_block hC rfl (keeps_write hC ⟨_, rfl⟩)

theorem keeps_snapshotDomain (hC : C .snapshotDomain) (hC' : C .setIPs) (line : Str) :
    (rules C).Keeps [] (snapshotDomain line) := by
  rw [snapshotDomain]
  split_ifs
  · exact Policy.Keeps.ret _
  · refine (Policy.Keeps.expect _).bind fun fqdn => (Policy.Keeps.expect _).bind fun r =>
      (keeps_block hC rfl (keeps_read_bind fun _ => Policy.Keeps.ret _)).bind fun glb => ?_
    cases glb with
    | none => exact Policy.Keeps.ret _
    | some p => exact (keeps_setIPs hC' p _).bind fun _ => Policy.Keeps.ret _

theorem keeps_countArgs (hC : C .getCounts) (args : List Str) (jb : ServerJsonBuilder) (failed : Bool) :
    (rules C).Keeps [] (countArgs args jb failed) := by
  induction args generalizing jb failed with
  | nil => exact Policy.Keeps.ret _
  | cons fqdn rest ih =>
      refine (keeps_block hC rfl (keeps_read_bind fun g => ?_)).bind fun r => ih r.1 r.2
      cases g.find fqdn with
      | none => exact Policy.Keeps.ret _
      | some p =>
          exact (keeps_getNLookups (Or.inr ⟨_, Or.inl rfl, rfl⟩)).bind fun _ => Policy.Keeps.ret _

theorem keeps_countAll (hK : ∀ p, (LockId.nLookupsMutex p).At .exclusive K)
    (entries : List (Str × Ptr)) (jb : ServerJsonBuilder) :
    (rules C).Keeps K (countAll entries jb) := by
  induction entries generalizing jb with
  | nil => exact Policy.Keeps.ret _
  | cons e rest ih => exact (keeps_getNLookups (hK e.2)).bind fun n => ih _

theorem keeps_getCounts (hC : C .getCounts) (ord : MapOrder) (line : Str) :
    (rules C).Keeps [] (getCounts ord line) := by
  rw [getCounts]
  split_ifs
  · exact (keeps_countArgs hC _ _ _).bind fun _ => Policy.Keeps.ret _
  · refine (keeps_block hC rfl (keeps_read_bind fun g => ?_)).bind fun _ => Policy.Keeps.ret _
    exact keeps_countAll (fun _ => Or.inr ⟨_, Or.inl rfl, rfl⟩) _ _

theorem keeps_clearArgs (hK : ∀ p, (LockId.nLookupsMutex p).At .exclusive K) (args : List Str)
    (jb : ServerJsonBuilder) (failed : Bool) : (rules C).Keeps K (clearArgs args jb failed) := by
  induction args generalizing jb failed with
  | nil => exact Policy.Keeps.ret _
  | cons fqdn rest ih =>
      refine keeps_read_bind fun g => ?_
      cases g.find fqdn with
      | none => exact ih _ true
      | some p => exact (keeps_clrNLookups (hK p)).bind fun _ => ih jb failed

theorem keeps_clearAll (hK : ∀ p, (LockId.nLookupsMutex p).At .exclusive K)
    (entries : List (Str × Ptr)) : (rules C).Keeps K (clearAll entries) := by
  induction entries with
  | nil => exact Policy.Keeps.ret _
  | cons e rest ih => exact (keeps_clrNLookups (hK e.2)).bind fun _ => ih

theorem keeps_clearCounts (hC : C .clearCounts) (ord : MapOrder) (line : Str) :
    (rules C).Keeps [] (clearCounts ord line) := by
  rw [clearCounts]
  split_ifs
  · refine (keeps_block hC rfl ?_).bind fun _ => Policy.Keeps.ret _
    exact keeps_clearArgs (fun _ => Or.inr ⟨_, Or.inr rfl, rfl⟩) _ _ _
  · refine (keeps_block hC rfl (keeps_read_bind fun g => ?_)).bind fun _ => Policy.Keeps.ret _
    exact keeps_clearAll (fun _ => Or.inr ⟨_, Or.inr rfl, rfl⟩) _

theorem keeps_debugPass (hK : ∀ p, (LockId.glbMutex p).At .shared K) (showFull : Bool)
    (entries : List (Str × Ptr)) : (rules C).Keeps K (debugPass showFull entries) := by
  induction entries with
  | nil => exact Policy.Keeps.ret _
  | cons e rest ih =>
      refine Policy.Keeps.bind ?_ fun val => ih.bind fun _ => Policy.Keeps.ret _
      refine Policy.Keeps.guarded (hK e.2) (keeps_read_bind fun g => ?_)
      exact (Policy.Keeps.expect _).bind fun _ => Policy.Keeps.ret _

theorem keeps_debugLoop (hK : ∀ p, (LockId.glbMutex p).At .shared K) (showFull : Bool)
    (entries : List (Str × Ptr)) (n : ℕ) : (rules C).Keeps K (debugLoop showFull entries n) := by
  induction n with
  | zero => exact Policy.Keeps.ret _
  | succ n ih =>
      exact (keeps_debugPass hK showFull entries).bind fun _ => ih.bind fun _ => Policy.Keeps.ret _

theorem keeps_debugDomains (hC : C .debugDomains) (ord : MapOrder) (line : Str) :
    (rules C).Keeps [] (debugDomains ord line) :=
  keeps_block hC rfl
    (keeps_read_bind fun _ => keeps_debugLoop (fun _ => Or.inr ⟨rfl, rfl⟩) _ _ _)

theorem keeps_unknownCommand (line : Str) : (rules C).Keeps [] (unknownCommand line) :=
  Policy.Keeps.ret _

/-- **Every command observes the rules.** -/
theorem keeps_dispatch (hC : ∀ c, C c) (ord : MapOrder) (line : Str) :
    (rules C).Keeps [] (dispatch ord line) := by
  rw [dispatch]
  split_ifs
  · exact keeps_debugDomains (hC _) ord line
  · exact keeps_addDomain (hC _) line
  · exact keeps_delDomain (hC _) line
  · exact keeps_snapshotDomain (hC _) (hC _) line
  · exact keeps_getCounts (hC _) ord line
  · exact keeps_clearCounts (hC _) ord line
  · exact keeps_setSOA (hC _) line
  · exact keeps_setNS (hC _) line
  · exact keeps_clearDomains (hC _) line
  · exact keeps_unknownCommand line

/-! #### Lookup and get -/

theorem keeps_getGlobalSOARecord (hC : C .getGlobalSOARecord) : (rules C).Keeps [] getGlobalSOARecord :=
  keeps_block hC rfl (keeps_read_bind fun _ => Policy.Keeps.ret _)

theorem keeps_getNSRecords (hC : C .getNSRecords) : (rules C).Keeps [] getNSRecords :=
  keeps_block hC rfl (keeps_read_bind fun _ => Policy.Keeps.ret _)

theorem keeps_debugNS (ns : List Str) : (rules C).Keeps [] (debugNS ns) := by
  induction ns with
  | nil => exact Policy.Keeps.ret _
  | cons n ns ih => exact keeps_debug.bind fun _ => ih

theorem keeps_getIPs (hC : C .getIPs) (rnd : Randomness) (p : Ptr) (dq : List IPRecord) (mask : ℤ) :
    (rules C).Keeps [] (getIPs rnd p dq mask) := by
  refine (keeps_incNLookups p).bind fun _ => keeps_read_bind fun g =>
    (Policy.Keeps.expect _).bind fun c => ?_
  split_ifs
  · exact keeps_block hC ⟨p, rfl⟩ (keeps_read_bind fun g =>
      (Policy.Keeps.expect _).bind fun c => Policy.Keeps.ret _)
  · refine keeps_block hC ⟨p, rfl⟩ (keeps_read_bind fun g =>
      (Policy.Keeps.expect _).bind fun c => Policy.Keeps.bind ?_ fun dq => Policy.Keeps.expect dq)
    -- the shuffle advances the random engine only
    have hrng : KeepsZone fun g : Globals =>
        { g with rng := (getIPSRandomAlgo rnd.lib rnd.gen g.rng c.ips dq mask).2 } :=
      fun _ => ⟨fun _ => rfl, rfl, rfl, fun _ => rfl⟩
    exact Policy.Keeps.atom (Or.inl hrng) fun _ => Policy.Keeps.ret _
  · exact Policy.Keeps.ret _

theorem keeps_lookupSOA (hC : C .getGlobalSOARecord) (type : QType) (name : Str) (b : GLBBackend) :
    (rules C).Keeps [] (lookupSOA type name b) := by
  rw [lookupSOA]
  split_ifs
  · refine (keeps_getGlobalSOARecord hC).bind fun soa => ?_
    simp only
    split_ifs
    · exact keeps_debug.bind fun _ => Policy.Keeps.ret _
    · exact Policy.Keeps.ret _
  · exact Policy.Keeps.ret _

theorem keeps_lookupNS (hC : C .getNSRecords) (type : QType) (name : Str) (b : GLBBackend) :
    (rules C).Keeps [] (lookupNS type name b) := by
  rw [lookupNS]
  generalize (if type = QType.SOA then { b with sendSOA := true } else b) = b₁
  split_ifs
  · refine keeps_debug.bind fun _ => (keeps_getNSRecords hC).bind fun _ => keeps_read_bind fun _ => ?_
    exact (Policy.Keeps.expect _).bind fun recs => (keeps_debugNS recs).bind fun _ => Policy.Keeps.ret _
  · exact Policy.Keeps.ret _

/-- The search of the map is a block of its own, and no lock is held around it. -/
theorem keeps_lookupIPs (hC : C .lookup) (hC' : C .getIPs) (rnd : Randomness) (type : QType) (name : Str)
    (b : GLBBackend) : (rules C).Keeps [] (lookupIPs rnd type name b) := by
  have hunder : Scope.Under .lookup [] := rfl
  refine Policy.Keeps.bind (Policy.Keeps.scope ⟨hC, hunder⟩ (keeps_read_bind fun _ =>
    Policy.Keeps.ret _)) fun glb => ?_
  cases glb with
  | none => exact Policy.Keeps.ret _
  | some p =>
      simp only
      split
      · exact Policy.Keeps.ret _
      · exact keeps_debug.bind fun _ => (keeps_getIPs hC' rnd p _ _).bind fun _ => Policy.Keeps.ret _

/-- The blocks of a lookup. -/
def Scope.OfLookup (c : Scope) : Prop :=
  c = .getGlobalSOARecord ∨ c = .getNSRecords ∨ c = .lookup ∨ c = .getIPs

theorem keeps_lookup (hC : ∀ c, Scope.OfLookup c → C c) (rnd : Randomness) (type : QType) (qdomain : Str)
    (b : GLBBackend) : (rules C).Keeps [] (lookup rnd type qdomain b) :=
  keeps_debug.bind fun _ => (keeps_lookupSOA (hC _ (Or.inl rfl)) _ _ _).bind fun b₁ =>
    (keeps_lookupNS (hC _ (Or.inr (Or.inl rfl))) _ _ b₁).bind fun b₂ =>
      keeps_lookupIPs (hC _ (Or.inr (Or.inr (Or.inl rfl)))) (hC _ (Or.inr (Or.inr (Or.inr rfl)))) _ _ _ b₂

theorem keeps_getIP (rr : DNSResourceRecord) (b : GLBBackend) : (rules C).Keeps [] (getIP rr b) := by
  rw [getIP]
  cases b.ips with
  | nil => exact Policy.Keeps.ret _
  | cons r ips => exact keeps_debug.bind fun _ => Policy.Keeps.ret _

theorem keeps_get (rr : DNSResourceRecord) (b : GLBBackend) : (rules C).Keeps [] (get rr b) := by
  rw [get]
  split_ifs
  · exact keeps_debug.bind fun _ => Policy.Keeps.ret _
  · refine (Policy.Keeps.expect _).bind fun v => keeps_read_bind fun g =>
      (Policy.Keeps.expect _).bind fun recs => ?_
    split_ifs
    · exact keeps_getIP rr _
    · exact (Policy.Keeps.expect _).bind fun _ => keeps_debug.bind fun _ => Policy.Keeps.ret _
  · exact keeps_getIP rr b

/-- The calls of `get` enter no block at all. -/
theorem keeps_gets (n : ℕ) (rr : DNSResourceRecord) (b : GLBBackend) :
    (rules C).Keeps [] (gets n rr b) := by
  induction n generalizing rr b with
  | zero => exact Policy.Keeps.ret _
  | succ n ih =>
      exact (keeps_get rr b).bind fun r => (ih r.2.1 r.2.2).bind fun _ => Policy.Keeps.ret _

/-- **Every query observes the rules**, in the blocks of a lookup. -/
theorem keeps_query (hC : ∀ c, Scope.OfLookup c → C c) (rnd : Randomness) (type : QType) (qdomain : Str)
    (n : ℕ) (rr : DNSResourceRecord) (b : GLBBackend) :
    (rules C).Keeps [] (query rnd type qdomain n rr b) :=
  (keeps_lookup hC rnd type qdomain b).bind fun b' =>
    (keeps_gets n rr b').bind fun _ => Policy.Keeps.ret _

/-- A lookup writes nothing that is served. -/
theorem Scope.OfLookup.quiet {c : Scope} (hc : c.OfLookup) : c.Quiet := by
  rcases hc with rfl | rfl | rfl | rfl <;> exact fun _ => id

end Functions

end GlbBackend
