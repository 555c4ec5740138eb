import GlbBackend.Concurrent.Machine
import GlbBackend.Daemon
import GlbBackend.RandomAlgo

/-!
# Readers and writers of `glbMap`

Every thread of the daemon, one lock operation and one access at a time.  By the rules the blocks of the
command handlers that touch `glbMap` run under `glbMapMutex`, exclusively where they change the map and
shared where they read it, and `glbMap` is changed nowhere else (`glbMap_changed`); so they exclude each
other in every interleaving (`commands_excluded`).

The block of `lookup` that searches the map holds no lock: its statement declares a new, empty
`shared_lock` that is *named* `glbMapMutex`.  So it can run inside a section that changes the map
(`lookup_inside_addDomain`), and `map_exclusion_iff` says which runs are free of that.
-/

namespace GlbBackend

open Text Concurrent Concurrent.Proc Globals

/-! ### The sections of the map -/

namespace Scope

/-- The sections that change `glbMap`: the insert, the erase and the clear. -/
def ModifiesMap (c : Scope) : Prop := c = addDomain ∨ c = delDomain ∨ c = clearDomains

/-- The sections that read or change `glbMap`. -/
def TouchesMap (c : Scope) : Prop :=
  c.ModifiesMap ∨ c = snapshotDomain ∨ c = getCounts ∨ c = clearCounts ∨ c = debugDomains ∨ c = lookup

theorem ModifiesMap.under {c : Scope} (h : c.ModifiesMap) {K : List (Frame LockId Scope)}
    (hK : c.Under K) : K = [.lock .glbMapMutex .exclusive] := by
  rcases h with rfl | rfl | rfl <;> exact hK

/-- Every section of the map but `lookup`'s is entered under the map's lock. -/
theorem TouchesMap.under {c : Scope} (h : c.TouchesMap) {K : List (Frame LockId Scope)}
    (hK : c.Under K) : c = lookup ∨ ∃ m, K = [.lock .glbMapMutex m] := by
  rcases h with h | rfl | rfl | rfl | rfl | rfl
  · exact Or.inr ⟨_, h.under hK⟩
  · exact Or.inr ⟨_, hK⟩
  · exact Or.inr ⟨_, hK⟩
  · exact Or.inr ⟨_, hK⟩
  · exact Or.inr ⟨_, hK⟩
  · exact Or.inl rfl

/-- A block that writes, and is none of the three, leaves the map as it is. -/
theorem Writes.find {c : Scope} (h : ¬ c.ModifiesMap) {f : Globals → Globals} (hf : c.Writes f)
    (g : Globals) (name : Str) : (f g).find name = g.find name := by
  cases c with
  | addDomain => exact absurd (Or.inl rfl) h
  | delDomain => exact absurd (Or.inr (Or.inl rfl)) h
  | clearDomains => exact absurd (Or.inr (Or.inr rfl)) h
  | setIPs => obtain ⟨p, r, rfl⟩ := hf; rfl
  | setGlobalSOARecord => obtain ⟨soaValue, base, rfl⟩ := hf; rfl
  | setNSRecords => obtain ⟨recs, rfl⟩ := hf; rfl
  | _ => exact hf.elim

end Scope

/-! ### The threads of the daemon -/

/-- One thread: its requests, one after the other. -/
def serveAll (ord : MapOrder) (rnd : Randomness) : List Request → Code Unit
  | [] => ret ()
  | req :: reqs => (serve ord rnd req).bind fun _ => serveAll ord rnd reqs

/-- The rules, with every block allowed. -/
abbrev allRules : Policy LockId Scope Globals := rules fun _ => True

theorem keeps_serveAll (ord : MapOrder) (rnd : Randomness) (reqs : List Request) :
    allRules.Keeps [] (serveAll ord rnd reqs) := by
  induction reqs with
  | nil => exact Policy.Keeps.ret _
  | cons req reqs ih => exact (keeps_serve (fun _ => trivial) ord rnd req).bind fun _ => ih

/-- The daemon before any of its threads has done anything. -/
def threads {T : Type} (ord : MapOrder) (rnd : Randomness) (program : T → List Request)
    (g₀ : Globals) : Machine T LockId Scope Globals :=
  Machine.start g₀ fun t => serveAll ord rnd (program t)

section Runs

variable {T : Type}

/-- No thread is inside a section that changes `glbMap` while another is inside one that reads or
changes it. -/
def MapExclusive (x : Machine T LockId Scope Globals) : Prop :=
  x.Apart Scope.ModifiesMap Scope.TouchesMap

/-- Thread `t` is not about to enter `lookup`'s block while another thread is inside a section that
changes the map, nor such a section while another thread is inside `lookup`'s block. -/
def AvoidsLookup (x : Machine T LockId Scope Globals) (t : T) : Prop :=
  x.Respects Scope.ModifiesMap (fun c => c = Scope.lookup) t

/-- Thread `t` moves as if `lookup`'s block held `glbMapMutex` shared. -/
def LocksLookup (x : Machine T LockId Scope Globals) (t : T) : Prop :=
  Policy.Shares .glbMapMutex (fun c => c = Scope.lookup) x t

/-! #### What the rules give -/

section Orderly

variable {x : Machine T LockId Scope Globals} {t u : T} {c d : Scope}

/-- A thread inside a section that changes the map holds the map's lock exclusively. -/
theorem locked_of_modifies (h : allRules.Orderly x) (hc : .scope c ∈ (x.threads t).frames)
    (hmod : c.ModifiesMap) : .lock .glbMapMutex .exclusive ∈ (x.threads t).frames := by
  obtain ⟨K₀, hsuffix, hadm⟩ := (h.admitted t).mem hc
  rw [hmod.under hadm.2] at hsuffix
  exact hsuffix.subset (List.mem_singleton_self _)

/-- A thread inside any section of the map but `lookup`'s holds it in some mode. -/
theorem locked_of_touches (h : allRules.Orderly x) (hc : .scope c ∈ (x.threads t).frames)
    (htouch : c.TouchesMap) : c = .lookup ∨ ∃ m, .lock .glbMapMutex m ∈ (x.threads t).frames := by
  obtain ⟨K₀, hsuffix, hadm⟩ := (h.admitted t).mem hc
  rcases htouch.under hadm.2 with hlookup | ⟨m, hK⟩
  · exact Or.inl hlookup
  · rw [hK] at hsuffix
    exact Or.inr ⟨m, hsuffix.subset (List.mem_singleton_self _)⟩

/-- While one thread is inside a section that changes the map, all that another can be inside of is
`lookup`'s block. -/
theorem eq_lookup_of_modifies (h : allRules.Orderly x) (htu : t ≠ u)
    (hc : .scope c ∈ (x.threads t).frames) (hmod : c.ModifiesMap)
    (hd : .scope d ∈ (x.threads u).frames) (htouch : d.TouchesMap) : d = .lookup := by
  rcases locked_of_touches h hd htouch with hlookup | ⟨m, hm⟩
  · exact hlookup
  · exact absurd hm (h.exclusive t u _ m htu (locked_of_modifies h hc hmod))

theorem mapExclusive_iff (h : allRules.Orderly x) :
    MapExclusive x ↔ x.Apart Scope.ModifiesMap (fun c => c = Scope.lookup) := by
  constructor
  · intro hall t u htu c hc hmod d hd hlookup
    exact hall t u htu c hc hmod d hd (by simp [Scope.TouchesMap, hlookup])
  · intro happart t u htu c hc hmod d hd htouch
    exact happart t u htu c hc hmod d hd (eq_lookup_of_modifies h htu hc hmod hd htouch)

end Orderly

/-! #### Every run -/

variable [DecidableEq T] {ord : MapOrder} {rnd : Randomness} {program : T → List Request}
  {g₀ : Globals} {ms : List (Machine T LockId Scope Globals × T)}
  {x : Machine T LockId Scope Globals}

/-- In every interleaving every thread stands where the rules allow it. -/
theorem threads_orderly (hrun : Machine.Runs (threads ord rnd program g₀) ms x) :
    ∀ z ∈ Machine.reached ms x, allRules.Orderly z :=
  (Policy.orderly_start g₀ fun t => keeps_serveAll ord rnd (program t)).runs hrun

/-- **The commands exclude each other**: in every interleaving, no thread is inside a section that changes
the map while another is inside a section of a command that touches it. -/
theorem commands_excluded (hrun : Machine.Runs (threads ord rnd program g₀) ms x) :
    ∀ z ∈ Machine.reached ms x,
      z.Apart Scope.ModifiesMap fun c => c.TouchesMap ∧ c ≠ Scope.lookup := by
  intro z hz t u htu c hc hmod d hd htouch
  exact htouch.2 (eq_lookup_of_modifies (threads_orderly hrun z hz) htu hc hmod hd htouch.1)

/-- **`glbMap` is changed in three sections only**: in every interleaving, a thread whose next access
changes what some name finds is inside the section of `addDomain`, `delDomain` or `clearDomains`. -/
theorem glbMap_changed (hrun : Machine.Runs (threads ord rnd program g₀) ms x) :
    ∀ z ∈ Machine.reached ms x, ∀ t f k, (z.threads t).code = atom f k →
      (∃ (g : Globals) (name : Str), (f g).find name ≠ g.find name) →
      ∃ c, .scope c ∈ (z.threads t).frames ∧ c.ModifiesMap := by
  intro z hz t f k hcode ⟨g, name, hfind⟩
  rcases (threads_orderly hrun z hz).access hcode with hkeeps | ⟨c, hc, -, hwrites⟩
  · exact absurd ((hkeeps g).find name) hfind
  · refine ⟨c, hc, ?_⟩
    by_contra hmod
    exact hfind (Scope.Writes.find hmod hwrites g name)

/-- **Exclusion on `glbMap`.**  For any number of threads, any requests and any interleaving: no machine
reached has a thread inside a section that changes the map while another is inside a section that
touches it, if and only if no move lets `lookup`'s block and a section that changes the map overlap.  It is
enough that every move treats `lookup`'s block as a shared holder of `glbMapMutex`, which the source
meant it to be. -/
theorem map_exclusion_iff (hrun : Machine.Runs (threads ord rnd program g₀) ms x) :
    ((∀ z ∈ Machine.reached ms x, MapExclusive z) ↔ ∀ m ∈ ms, AvoidsLookup m.1 m.2) ∧
      ((∀ m ∈ ms, LocksLookup m.1 m.2) → ∀ z ∈ Machine.reached ms x, MapExclusive z) := by
  have horderly := threads_orderly hrun
  constructor
  · refine Iff.trans ?_ (hrun.apart_iff (Machine.start_apart _ _))
    exact forall₂_congr fun z hz => mapExclusive_iff (horderly z hz)
  · intro hlocks z hz
    rw [mapExclusive_iff (horderly z hz)]
    have halone : Policy.Alone .glbMapMutex (fun c => c = Scope.lookup) z :=
      Policy.Alone.runs (fun _ _ _ hheld => absurd hheld List.not_mem_nil) hrun hlocks z hz
    intro t u htu c hc hmod
    exact halone t u htu (locked_of_modifies (horderly z hz) hc hmod)

omit [DecidableEq T] in
/-- A move made while the other threads are outside every section lets nothing overlap. -/
theorem avoidsLookup_of_outside {t : T} (hout : ∀ u, u ≠ t → (x.threads u).frames = []) :
    AvoidsLookup x t := by
  intro c k _ u hu d hd
  rw [hout u hu] at hd
  exact absurd hd List.not_mem_nil

theorem avoiding_snoc {x₀ y : Machine T LockId Scope Globals} {t : T}
    (h : ∃ ms, Machine.Runs x₀ ms x ∧ ∀ m ∈ ms, AvoidsLookup m.1 m.2) (hmove : x.Moves t y)
    (hout : ∀ u, u ≠ t → (x.threads u).frames = []) :
    ∃ ms, Machine.Runs x₀ ms y ∧ ∀ m ∈ ms, AvoidsLookup m.1 m.2 := by
  obtain ⟨ms, hrun, havoid⟩ := h
  refine ⟨ms ++ [(x, t)], hrun.snoc hmove, fun m hm => ?_⟩
  rcases List.mem_append.mp hm with hm | hm
  · exact havoid m hm
  · rw [List.mem_singleton.mp hm]
    exact avoidsLookup_of_outside hout

end Runs

/-! #### A query and an insert -/

/-- One client adds a domain, and a query asks for it. -/
def addAndAsk : Bool → List Request
  | false => [.command "ADD_DOMAIN a NONE".toList]
  | true => [.query QType.A "a".toList 1 ⟨[], 0, [], 0, false, 0⟩ GLBBackend.new]

/-- The two threads before they do anything. -/
def addAndAskStart : Machine Bool LockId Scope Globals :=
  threads MapOrder.entries Randomness.counting addAndAsk (init 0)

/-- Up to its search, the query takes and releases the console's lock. -/
theorem addAndAsk_query : ∃ k k', (addAndAskStart.threads true).code =
    acquire .debugMutex .exclusive (release .debugMutex (enter .lookup (atom id k))) ∧
      k (init 0) = leave .lookup k' :=
  ⟨_, _, rfl, rfl⟩

/-- Up to its insert, the command takes the map's lock and looks for the name. -/
theorem addAndAsk_command : ∃ k f k', (addAndAskStart.threads false).code =
    acquire .glbMapMutex .exclusive (enter .addDomain (atom id k)) ∧
      k (init 0) = atom f k' ∧ (f (init 0)).find "a".toList = some 0 :=
  ⟨_, _, _, rfl, rfl, rfl⟩

/-- The query searches the map before the command takes the lock: nothing overlaps. -/
theorem map_exclusion_iff_askThenAdd :
    ∃ ms x, Machine.Runs addAndAskStart ms x ∧ .scope .addDomain ∈ (x.threads false).frames ∧
      ∀ z ∈ Machine.reached ms x, MapExclusive z := by
  obtain ⟨k, k', hask, hleave⟩ := addAndAsk_query
  obtain ⟨k₁, -, -, hadd, -⟩ := addAndAsk_command
  have hout : ∀ {x : Machine Bool LockId Scope Globals} {t : Bool}, (x.threads (!t)).frames = [] →
      ∀ u, u ≠ t → (x.threads u).frames = [] := by
    intro x t h u hu
    rw [Bool.eq_not_of_ne hu]
    exact h
  have hrun : ∃ ms, Machine.Runs addAndAskStart ms addAndAskStart ∧ ∀ m ∈ ms, AvoidsLookup m.1 m.2 :=
    ⟨[], Machine.Runs.nil, fun m hm => absurd hm List.not_mem_nil⟩
  have hrun := avoiding_snoc hrun (Machine.Moves.acquire hask fun _ _ => List.not_mem_nil) (hout rfl)
  have hrun := avoiding_snoc hrun (Machine.Moves.release (t := true) rfl) (hout rfl)
  have hrun := avoiding_snoc hrun (Machine.Moves.enter (t := true) rfl) (hout rfl)
  have hrun := avoiding_snoc hrun (Machine.Moves.access (t := true) rfl) (hout rfl)
  have hrun := avoiding_snoc hrun (Machine.Moves.leave (t := true) hleave) (hout rfl)
  have hrun := avoiding_snoc hrun (Machine.Moves.acquire (t := false) hadd (by
    intro t m
    cases t <;> exact List.not_mem_nil)) (hout rfl)
  obtain ⟨ms, hrun, havoid⟩ :=
    avoiding_snoc hrun (Machine.Moves.enter (t := false) rfl) (hout rfl)
  exact ⟨ms, _, hrun, List.mem_cons_self, (map_exclusion_iff hrun).1.mpr havoid⟩

/-- **`lookup` searches the map while `addDomain` is inserting into it**: the query takes no lock before
its search, so the command can be about to insert while the query is inside its block. -/
theorem lookup_inside_addDomain :
    ∃ ms x, Machine.Runs addAndAskStart ms x ∧ ¬ MapExclusive x ∧
      ∃ f k, (x.threads false).code = atom f k ∧ (f x.shared).glbMap ≠ x.shared.glbMap := by
  obtain ⟨k, -, hask, -⟩ := addAndAsk_query
  obtain ⟨k₁, f, k₂, hadd, hinsert, hf⟩ := addAndAsk_command
  have hrun := Machine.Runs.snoc Machine.Runs.nil
    (Machine.Moves.acquire hask fun _ _ => List.not_mem_nil)
  have hrun := hrun.snoc (Machine.Moves.release (t := true) rfl)
  have hrun := hrun.snoc (Machine.Moves.enter (t := true) rfl)
  have hrun := hrun.snoc (Machine.Moves.acquire (t := false) hadd (by
    intro t m
    cases t with
    | false => exact List.not_mem_nil
    | true => exact fun h => absurd (List.mem_singleton.mp h) (by simp)))
  have hrun := hrun.snoc (Machine.Moves.enter (t := false) rfl)
  have hrun := hrun.snoc (Machine.Moves.access (t := false) rfl)
  refine ⟨_, _, hrun, ?_, f, k₂, hinsert, ?_⟩
  · intro hall
    exact hall false true Bool.false_ne_true .addDomain List.mem_cons_self (Or.inl rfl) .lookup
      List.mem_cons_self (by simp [Scope.TouchesMap])
  · intro heq
    have hlookup : (f (init 0)).find "a".toList = (init 0).find "a".toList :=
      congrArg (AList.lookup _) heq
    rw [hf] at hlookup
    exact absurd hlookup (by decide)

end GlbBackend
