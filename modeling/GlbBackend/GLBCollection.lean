import GlbBackend.Concurrent.Completion
import GlbBackend.Concurrent.Monitor
import GlbBackend.Store

/-!
# The collection

A `GLBCollection` keeps its containers in a map of its own.  `add` and `remove` take `glbMapMutex` exclusively, `get`
takes it shared; an exception leaves the function through the guard.  `operator[]` inserts a null pointer for a missing
key: in `add` it does, and what was to be added is assigned to the entry afterwards, while `get` has found the key under
the same lock.  Every thread of any number of them sees a map whose operations happen at once
(`collection_linearizable`); the null pointer never shows.

`size` is a function outside the class, over another `glbMap`, and has no part here.
-/

namespace GlbBackend

open Text Concurrent Concurrent.Proc

namespace GLBCollection

/-- `GLBNotFoundException` and `GLBExistsException`. -/
inductive CollectionException
  | notFound
  | exists
  deriving DecidableEq

/-- The member `glbMap`; `α` is `boost::shared_ptr<GlbContainer>`. -/
abbrev GlbMap (α : Type) := AList fun _ : Str => α

/-- Code of a member function. -/
abbrev Code (α β : Type) := Proc LockId Empty (GlbMap α) (Except CollectionException β)

section Members

variable {α : Type} (null : α) (cname : Str)

/-- `glbMap[cname]`, which inserts a null pointer if there is no such key. -/
def subscript (glbMap : GlbMap α) : α × GlbMap α :=
  match glbMap.lookup cname with
  | some glb => (glb, glbMap)
  | none => (null, glbMap.insert cname null)

/-- `glbMap[cname] = glb` makes the entry, and then assigns to it. -/
def add (glb : α) : Code α Unit :=
  guarded .glbMapMutex .exclusive do
    let glbMap ← read
    if (glbMap.lookup cname).isSome then ret (.error .exists)
    else do
      let _ ← access (subscript null cname)
      modify fun glbMap => glbMap.insert cname glb
      ret (.ok ())

def remove : Code α Unit :=
  guarded .glbMapMutex .exclusive do
    let glbMap ← read
    if (glbMap.lookup cname).isNone then ret (.error .notFound)
    else do
      modify fun glbMap => glbMap.erase cname
      ret (.ok ())

def get : Code α α :=
  guarded .glbMapMutex .shared do
    let glbMap ← read
    if (glbMap.lookup cname).isNone then ret (.error .notFound)
    else do
      let glb ← access (subscript null cname)
      ret (.ok glb)

end Members

/-- A call of a member function. -/
inductive Call (α : Type)
  | add (cname : Str) (glb : α)
  | remove (cname : Str)
  | get (cname : Str)

/-- What a call comes back with: an exception, or nothing, or the pointer that was found. -/
abbrev Outcome (α : Type) := Except CollectionException (Option α)

/-- The code of a call. -/
def Call.code {α : Type} (null : α) : Call α → Proc LockId Empty (GlbMap α) (Outcome α)
  | .add cname glb => (GLBCollection.add null cname glb).bind fun r => ret (r.map fun _ => none)
  | .remove cname => (GLBCollection.remove cname).bind fun r => ret (r.map fun _ => none)
  | .get cname => (GLBCollection.get null cname).bind fun r => ret (r.map some)

/-- Threads that share a collection. -/
def threads {T α : Type} (null : α) (program : T → List (Call α)) :
    System T (Call α) LockId Empty (GlbMap α) (Outcome α) :=
  ⟨Call.code null, program⟩

/-! ### What a collection is for -/

/-- Containers by name. -/
abbrev Registered (α : Type) := Str → Option α

/-- A name is added once, removed or got only if it is there, and getting changes nothing. -/
def Call.apply {α : Type} : Call α → Registered α → Outcome α × Registered α
  | .add cname glb, d =>
      if (d cname).isSome then (.error .exists, d) else (.ok none, Function.update d cname (some glb))
  | .remove cname, d =>
      if (d cname).isSome then (.ok none, Function.update d cname none) else (.error .notFound, d)
  | .get cname, d =>
      match d cname with
      | some glb => (.ok (some glb), d)
      | none => (.error .notFound, d)

/-- What the map stands for. -/
def registered {α : Type} (glbMap : GlbMap α) : Registered α := fun cname => glbMap.lookup cname

section Sections

variable {α : Type} {null : α} {cname : Str}

theorem registered_insert (glbMap : GlbMap α) (cname : Str) (glb : α) :
    registered (glbMap.insert cname glb) = Function.update (registered glbMap) cname (some glb) := by
  funext name
  by_cases h : name = cname
  · rw [h, Function.update_self]
    exact AList.lookup_insert glbMap
  · rw [Function.update_of_ne h]
    exact AList.lookup_insert_ne h

theorem registered_erase (glbMap : GlbMap α) (cname : Str) :
    registered (glbMap.erase cname) = Function.update (registered glbMap) cname none := by
  funext name
  by_cases h : name = cname
  · rw [h, Function.update_self]
    exact AList.lookup_erase cname glbMap
  · rw [Function.update_of_ne h]
    exact AList.lookup_erase_ne h

/-- The pointer that is there, when one is. -/
theorem subscript_of_some {glbMap : GlbMap α} {glb : α} (h : glbMap.lookup cname = some glb) :
    subscript null cname glbMap = (glb, glbMap) := by
  rw [subscript, h]

/-- The null pointer that is put there, when none is. -/
theorem subscript_of_none {glbMap : GlbMap α} (h : glbMap.lookup cname = none) :
    subscript null cname glbMap = (null, glbMap.insert cname null) := by
  rw [subscript, h]

/-- A member function that throws or goes on, as one section. -/
theorem search_section {β γ : Type} {m : Mode} {throws : GlbMap α → Bool} {e : Except CollectionException β}
    {p : Proc LockId Empty (GlbMap α) (Except CollectionException β)} (hp : Balanced p)
    {q : Except CollectionException β → Proc LockId Empty (GlbMap α) γ} {glbMap glbMap' : GlbMap α}
    {r : Except CollectionException β} (hrun : (if throws glbMap then ret e else p).run glbMap = some (r, glbMap')) :
    rest ((guarded .glbMapMutex m (Proc.read.bind fun glbMap => if throws glbMap then ret e else p)).bind q) glbMap =
        q r ∧
      (visit ((guarded .glbMapMutex m (Proc.read.bind fun glbMap => if throws glbMap then ret e else p)).bind q)
        glbMap).post = glbMap' := by
  have hbody : Balanced (Proc.read.bind fun glbMap => if throws glbMap then ret e else p) := by
    refine Balanced.read.bind fun glbMap => ?_
    cases throws glbMap with
    | true => exact Balanced.ret e
    | false => exact hp
  exact rest_guarded (l := .glbMapMutex) (m := m) hbody hrun q

/-- **A call is one section,** which does what the call is for. -/
theorem call_section (call : Call α) (glbMap : GlbMap α) :
    rest (call.code null) glbMap = ret (call.apply (registered glbMap)).1 ∧
      registered (visit (call.code null) glbMap).post = (call.apply (registered glbMap)).2 := by
  cases call with
  | add cname glb =>
      cases hfound : registered glbMap cname with
      | none =>
          obtain ⟨hrest, hpost⟩ : rest ((Call.add cname glb).code null) glbMap = ret (.ok none) ∧
              (visit ((Call.add cname glb).code null) glbMap).post = glbMap.insert cname glb :=
            search_section (r := .ok ()) (Balanced.atom fun _ => Balanced.atom fun _ => Balanced.ret _) (by
              rw [← registered, hfound]
              show some (Except.ok (), (subscript null cname glbMap).2.insert cname glb) = _
              rw [subscript_of_none hfound, AList.insert_insert])
          rw [hrest, hpost, registered_insert, Call.apply, hfound]
          exact ⟨rfl, rfl⟩
      | some old =>
          obtain ⟨hrest, hpost⟩ : rest ((Call.add cname glb).code null) glbMap = ret (.error .exists) ∧
              (visit ((Call.add cname glb).code null) glbMap).post = glbMap :=
            search_section (r := .error .exists) (Balanced.atom fun _ => Balanced.atom fun _ => Balanced.ret _)
              (by rw [← registered, hfound]; rfl)
          rw [hrest, hpost, Call.apply, hfound]
          exact ⟨rfl, rfl⟩
  | remove cname =>
      cases hfound : registered glbMap cname with
      | none =>
          obtain ⟨hrest, hpost⟩ : rest ((Call.remove cname).code null) glbMap = ret (.error .notFound) ∧
              (visit ((Call.remove cname).code null) glbMap).post = glbMap :=
            search_section (r := .error .notFound) (Balanced.atom fun _ => Balanced.ret _)
              (by rw [← registered, hfound]; rfl)
          rw [hrest, hpost, Call.apply, hfound]
          exact ⟨rfl, rfl⟩
      | some old =>
          obtain ⟨hrest, hpost⟩ : rest ((Call.remove cname).code null) glbMap = ret (.ok none) ∧
              (visit ((Call.remove cname).code null) glbMap).post = glbMap.erase cname :=
            search_section (r := .ok ()) (Balanced.atom fun _ => Balanced.ret _) (by rw [← registered, hfound]; rfl)
          rw [hrest, hpost, registered_erase, Call.apply, hfound]
          exact ⟨rfl, rfl⟩
  | get cname =>
      cases hfound : registered glbMap cname with
      | none =>
          obtain ⟨hrest, hpost⟩ : rest ((Call.get cname).code null) glbMap = ret (.error .notFound) ∧
              (visit ((Call.get cname).code null) glbMap).post = glbMap :=
            search_section (r := .error .notFound) (Balanced.atom fun _ => Balanced.ret _)
              (by rw [← registered, hfound]; rfl)
          rw [hrest, hpost, Call.apply, hfound]
          exact ⟨rfl, rfl⟩
      | some glb =>
          obtain ⟨hrest, hpost⟩ : rest ((Call.get cname).code null) glbMap = ret (.ok (some glb)) ∧
              (visit ((Call.get cname).code null) glbMap).post = glbMap :=
            search_section (r := .ok glb) (Balanced.atom fun _ => Balanced.ret _) (by
              rw [← registered, hfound]
              show some (Except.ok (subscript null cname glbMap).1, (subscript null cname glbMap).2) = _
              rw [subscript_of_some hfound])
          rw [hrest, hpost, Call.apply, hfound]
          exact ⟨rfl, rfl⟩

theorem monitor {T : Type} (program : T → List (Call α)) :
    Monitor (threads null program) Call.apply (fun _ => True) registered where
  active call := by cases call <;> rfl
  replies call glbMap _ := (call_section call glbMap).1
  post call glbMap _ := (call_section call glbMap).2
  inv _ _ _ := trivial

/-- `glbMapMutex` protects the map. -/
def protection (α : Type) : Protection LockId Empty (GlbMap α) := .whole .glbMapMutex fun _ => True

/-- A member function reads the map, and goes on where the map is as it was read. -/
theorem reduces_search {β : Type} {m : Mode} {throws : GlbMap α → Bool} {e : Except CollectionException β} {p : Code α β}
    (hp : ∀ known glbMap, throws glbMap = false → (∀ glbMap', known glbMap' → glbMap' = glbMap) →
      (protection α).ReducesTo (fun _ _ => True) (.before (.lock .glbMapMutex m) known) [.lock .glbMapMutex m]
        (p.bind fun r => release .glbMapMutex (ret r))) :
    (protection α).Reduces (guarded .glbMapMutex m
      (Proc.read.bind fun glbMap => if throws glbMap then ret e else p)) := by
  refine fun known => Or.inl ⟨rfl, fun glbMap _ => ⟨fun glbMap' h => by rw [h m rfl], ?_⟩⟩
  show (protection α).ReducesTo _ _ _ (Proc.bind (if throws glbMap then ret e else p) _)
  cases hthrows : throws glbMap with
  | true => exact ⟨_, [], rfl, rfl, _, rfl, trivial⟩
  | false => exact hp _ glbMap hthrows fun glbMap' h => h.2.1 m rfl

theorem reduces_code (call : Call α) : (protection α).Reduces (call.code null) := by
  have hheld : ∀ m : Mode, .lock .glbMapMutex m ∈ [(.lock .glbMapMutex m : Frame LockId Empty)] := fun m =>
    List.mem_singleton_self _
  cases call with
  | add cname glb =>
      refine Protection.Reduces.bind (reduces_search fun known glbMap _ _ => ?_) fun _ => Protection.Reduces.ret _
      -- the entry is made, and then assigned to
      refine Or.inr fun s _ => ⟨fun _ _ => rfl, Or.inl (hheld _), fun _ _ => rfl, fun s' _ => ⟨⟨rfl, trivial⟩, ?_⟩⟩
      exact ⟨_, [], rfl, rfl, _, rfl, trivial⟩
  | remove cname =>
      refine Protection.Reduces.bind (reduces_search fun known glbMap _ _ => ?_) fun _ => Protection.Reduces.ret _
      exact Or.inr fun s _ => ⟨fun _ _ => rfl, Or.inl (hheld _), _, [], rfl, rfl, _, rfl, trivial⟩
  | get cname =>
      refine Protection.Reduces.bind (reduces_search fun known glbMap hfound hsame => ?_) fun _ =>
        Protection.Reduces.ret _
      obtain ⟨glb, hglb⟩ := Option.isSome_iff_exists.mp (Option.isNone_eq_false_iff.mp hfound)
      refine Or.inr fun s hs => ⟨fun s' h => by rw [h .shared rfl], Or.inr ⟨⟨_, hheld _⟩, ?_⟩, ?_⟩
      · rw [hsame s hs]
        exact congrArg Prod.snd (subscript_of_some hglb)
      · exact ⟨_, [], rfl, rfl, _, rfl, trivial⟩

theorem oneLock_search {β : Type} {m : Mode} {throws : GlbMap α → Bool} {e : Except CollectionException β} {p : Code α β}
    (hp : OneLock [.lock .glbMapMutex m] (p.bind fun r => release .glbMapMutex (ret r))) :
    OneLock [] (guarded .glbMapMutex m (Proc.read.bind fun glbMap => if throws glbMap then ret e else p)) := by
  refine ⟨rfl, fun glbMap => ?_⟩
  show OneLock _ (Proc.bind (if throws glbMap then ret e else p) _)
  cases throws glbMap with
  | true => exact ⟨_, [], rfl, rfl⟩
  | false => exact hp

theorem oneLock_code (call : Call α) : OneLock [] (call.code null) := by
  cases call with
  | add cname glb => exact (oneLock_search fun _ _ => ⟨_, [], rfl, rfl⟩).bind fun _ => rfl
  | remove cname => exact (oneLock_search fun _ => ⟨_, [], rfl, rfl⟩).bind fun _ => rfl
  | get cname => exact (oneLock_search fun _ => ⟨_, [], rfl, rfl⟩).bind fun _ => rfl

end Sections

/-- **A collection is a map whose operations happen at once.**  However the single accesses of its threads interleave,
the run can be brought to its end; and a run at its end has an order of its calls, each with what it came back with,
that keeps every thread's order and real time and makes the calls do what they are for, one after the other, with the
map as it then is. -/
theorem collection_linearizable {T α : Type} [DecidableEq T] {ts : List T} (hts : ∀ t, t ∈ ts) {null : α}
    {program : T → List (Call α)} {glbMap : GlbMap α} {es : List (Event T (Call α) Empty (GlbMap α) (Outcome α))}
    {f : Fine T LockId Empty (GlbMap α) (Outcome α)}
    (hrun : FineRun (threads null program) (Fine.start glbMap) es f) :
    (∃ es' f', FineRun (threads null program) (Fine.start glbMap) (es ++ es') f' ∧
      ∀ t, f'.running t = none ∧ f'.finished t = (program t).length) ∧
    ((∀ t, f.running t = none ∧ f.finished t = (program t).length) →
      ∃ order, Linearization (threads null program) Call.apply (registered glbMap) es order (registered f.shared)) :=
  ⟨hrun.completes hts fun _ call _ => oneLock_code call,
    fun hdone => (monitor program).linearizes reduces_code trivial hrun hdone⟩

/-! #### Two threads register the same name -/

/-- One thread registers a name and removes it, the other registers it and looks it up. -/
def sameName : Bool → List (Call ℕ)
  | false => [.add "a".toList 1, .remove "a".toList]
  | true => [.add "a".toList 2, .get "a".toList]

theorem collection_linearizable_sameName :
    ∃ es f, FineRun (threads 0 sameName) (Fine.start (∅ : GlbMap ℕ)) es f ∧
      Event.respond true 0 (.error .exists) ∈ es ∧ Event.respond true 1 (.error .notFound) ∈ es ∧
      ∃ order, Linearization (threads 0 sameName) Call.apply (registered ∅) es order (registered f.shared) := by
  have hts : ∀ t, t ∈ [false, true] := fun t => by cases t <;> decide
  have hrun : FineRun (threads 0 sameName) (Fine.start (∅ : GlbMap ℕ)) _ _ :=
    fineSchedule_run hts ([false, false, false, false, true, true, false, false, false, true, true, true, true, false] ++
      [true, false, false, false, false, false, true, true, true, true, true]) FineRun.nil
  have hlin := (collection_linearizable hts hrun).2 fun t => by cases t <;> exact ⟨rfl, rfl⟩
  exact ⟨_, _, hrun, mem_of_replyOf rfl, mem_of_replyOf rfl, hlin⟩

end GLBCollection

end GlbBackend
