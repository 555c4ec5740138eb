import GlbBackend.Backend
import GlbBackend.Entries

/-!
# The invariant of the shared state

`Globals.WellFormed` is what holds of the shared state in every run: every mapped pointer leads to a
container that carries its key as its name, every container is valid, and the NS pointer is published.
`Globals.Grows` is what no thread ever undoes: a container keeps its name and its algorithm, a published
NS vector keeps its contents.

Every handler, `lookup` and `get` are `Safe` for this pair: they keep the invariant and the guarantee at
every access, whatever other threads do in between, and never fault.  Sequential runs and interleavings
both take their invariants from these lemmas.
-/

namespace GlbBackend

open Text Concurrent Concurrent.Proc

/-! ### The invariant and the guarantee -/

/-- A container as the handlers build and keep it. -/
structure GlbContainer.Valid (c : GlbContainer) : Prop where
  lookups_nonneg : 0 ≤ c.nLookups
  algorithm : c.glbType = GlbType.NONE ∨ c.glbType = GlbType.RANDOM ∨ c.glbType = GlbType.GEOIP ∨
    c.glbType = GlbType.WEIGHTED
  cname_ne : c.cname ≠ []
  cname_word : Word c.cname
  records : ∀ r ∈ c.ips, r.Valid

namespace Globals

/-- **The invariant.** -/
structure WellFormed (g : Globals) : Prop where
  mapped : ∀ f p, g.find f = some p → ∃ c, g.container p = some c ∧ c.cname = f
  valid : ∀ p c, g.container p = some c → c.Valid
  published : ∃ recs, g.vector g.globalNsRecords = some recs

/-- **The guarantee.** -/
structure Grows (g g' : Globals) : Prop where
  containers : ∀ p c, g.container p = some c →
    ∃ c', g'.container p = some c' ∧ c'.glbType = c.glbType ∧ c'.cname = c.cname
  vectors : ∀ v recs, g.vector v = some recs → g'.vector v = some recs

theorem Grows.refl (g : Globals) : g.Grows g :=
  ⟨fun _ c hc => ⟨c, hc, rfl, rfl⟩, fun _ _ h => h⟩

theorem Grows.trans {g₁ g₂ g₃ : Globals} (h₁ : g₁.Grows g₂) (h₂ : g₂.Grows g₃) : g₁.Grows g₃ := by
  refine ⟨fun p c hc => ?_, fun v recs hv => h₂.vectors v recs (h₁.vectors v recs hv)⟩
  obtain ⟨c', hc', ht', hn'⟩ := h₁.containers p c hc
  obtain ⟨c'', hc'', ht'', hn''⟩ := h₂.containers p c' hc'
  exact ⟨c'', hc'', ht''.trans ht', hn''.trans hn'⟩

/-- An operation that leaves both heaps as they are. -/
theorem Grows.of_heaps {g g' : Globals} (hc : ∀ p, g'.container p = g.container p)
    (hv : ∀ v, g'.vector v = g.vector v) : g.Grows g' :=
  ⟨fun p c h => ⟨c, (hc p).trans h, rfl, rfl⟩, fun v _ h => (hv v).trans h⟩

theorem wellFormed_init (seed : ℕ) : (init seed).WellFormed :=
  ⟨fun _ _ h => by simp at h, fun _ _ h => by simp [init, container] at h, [], rfl⟩

/-! ### Each operation keeps both -/

variable {g : Globals}

theorem WellFormed.insert (hg : g.WellFormed) {fqdn : Str} {c : GlbContainer} (hc : c.Valid)
    (hname : c.cname = fqdn) : (g.insert fqdn c).WellFormed := by
  refine ⟨fun f p hf => ?_, fun p c' hp => ?_, hg.published⟩
  · rw [find_insert] at hf
    rw [container_insert]
    split_ifs at hf with hff
    · rw [if_pos (Option.some.inj hf).symm]
      exact ⟨c, rfl, hname.trans hff.symm⟩
    · obtain ⟨c', hc', hn⟩ := hg.mapped f p hf
      rw [if_neg (ne_of_lt (container_lt hc'))]
      exact ⟨c', hc', hn⟩
  · rw [container_insert] at hp
    split_ifs at hp
    · rw [← Option.some.inj hp]
      exact hc
    · exact hg.valid p c' hp

theorem grows_insert (g : Globals) (fqdn : Str) (c : GlbContainer) : g.Grows (g.insert fqdn c) := by
  refine ⟨fun p c' hp => ⟨c', ?_, rfl, rfl⟩, fun _ _ h => h⟩
  rw [container_insert, if_neg (ne_of_lt (container_lt hp))]
  exact hp

theorem WellFormed.erase (hg : g.WellFormed) (fqdn : Str) : (g.erase fqdn).WellFormed := by
  refine ⟨fun f p hf => ?_, hg.valid, hg.published⟩
  rw [find_erase] at hf
  split_ifs at hf
  exact hg.mapped f p hf

theorem WellFormed.clear (hg : g.WellFormed) : g.clear.WellFormed :=
  ⟨fun _ _ h => by simp at h, hg.valid, hg.published⟩

theorem WellFormed.update (hg : g.WellFormed) (p : Ptr) {u : GlbContainer → GlbContainer}
    (hu : ∀ c, c.Valid → (u c).Valid ∧ (u c).cname = c.cname) : (g.update p u).WellFormed := by
  refine ⟨fun f q hf => ?_, fun q c hq => ?_, hg.published⟩
  · obtain ⟨c, hc, hn⟩ := hg.mapped f q hf
    rw [container_update]
    split_ifs
    · exact ⟨u c, by rw [hc]; rfl, ((hu c (hg.valid q c hc)).2).trans hn⟩
    · exact ⟨c, hc, hn⟩
  · rw [container_update] at hq
    split_ifs at hq
    · obtain ⟨c', hc', rfl⟩ := Option.map_eq_some_iff.mp hq
      exact (hu c' (hg.valid q c' hc')).1
    · exact hg.valid q c hq

theorem grows_update (g : Globals) (p : Ptr) {u : GlbContainer → GlbContainer}
    (hu : ∀ c, (u c).glbType = c.glbType ∧ (u c).cname = c.cname) : g.Grows (g.update p u) := by
  refine ⟨fun q c hq => ?_, fun _ _ h => h⟩
  rw [container_update]
  split_ifs
  · exact ⟨u c, by rw [hq]; rfl, hu c⟩
  · exact ⟨c, hq, rfl, rfl⟩

theorem WellFormed.setNS (hg : g.WellFormed) (recs : List Str) : (g.setNS recs).WellFormed :=
  ⟨hg.mapped, hg.valid, recs, vector_setNS g recs⟩

theorem grows_setNS (g : Globals) (recs : List Str) : g.Grows (g.setNS recs) := by
  refine ⟨fun _ c hc => ⟨c, hc, rfl, rfl⟩, fun v recs' hv => ?_⟩
  show (g.vectors ++ [recs])[v]? = some recs'
  rw [List.getElem?_append_left (List.getElem?_eq_some_iff.mp hv).1]
  exact hv

end Globals

open Globals

theorem GlbContainer.valid_new {fqdn : Str} (hne : fqdn ≠ []) (hw : Word fqdn) {algo : Str}
    (ht : ¬ strToGlbType algo < 0) : (GlbContainer.new fqdn (strToGlbType algo)).Valid := by
  refine ⟨le_refl 0, ?_, hne, hw, fun _ h => absurd h List.not_mem_nil⟩
  show strToGlbType algo = _ ∨ strToGlbType algo = _ ∨ strToGlbType algo = _ ∨ strToGlbType algo = _
  rw [strToGlbType] at ht ⊢
  split_ifs at ht ⊢
  · exact Or.inl rfl
  · exact Or.inr (Or.inl rfl)
  · exact Or.inr (Or.inr (Or.inl rfl))
  · exact Or.inr (Or.inr (Or.inr rfl))
  · exact absurd (by decide) ht

theorem GlbContainer.Valid.push {c : GlbContainer} (hc : c.Valid) {r : IPRecord} (hr : r.Valid) :
    (c.push r).Valid ∧ (c.push r).cname = c.cname := by
  refine ⟨⟨hc.lookups_nonneg, hc.algorithm, hc.cname_ne, hc.cname_word, fun r' hr' => ?_⟩, rfl⟩
  rcases List.mem_append.mp hr' with hr' | hr'
  · exact hc.records r' hr'
  · rw [List.mem_singleton.mp hr']
    exact hr

theorem GlbContainer.Valid.clrNLookups {c : GlbContainer} (hc : c.Valid) :
    c.clrNLookups.Valid ∧ c.clrNLookups.cname = c.cname :=
  ⟨⟨le_refl 0, hc.algorithm, hc.cname_ne, hc.cname_word, hc.records⟩, rfl⟩

theorem GlbContainer.Valid.incNLookups {c : GlbContainer} (hc : c.Valid) :
    c.incNLookups.Valid ∧ c.incNLookups.cname = c.cname := by
  refine ⟨⟨?_, hc.algorithm, hc.cname_ne, hc.cname_word, hc.records⟩, rfl⟩
  have := hc.lookups_nonneg
  show 0 ≤ c.nLookups + 1
  omega

/-! ### Safety of the building blocks -/

/-- Safety for the invariant and the guarantee of this program. -/
abbrev SafeCode {α : Type} (Q : α → Globals → Prop) (h : Globals) (p : Code α) : Prop :=
  Safe WellFormed Grows Q h p

section SafeCode

variable {α β : Type} {Q : α → Globals → Prop} {h : Globals}

theorem safe_lockGuard {p : Code α} (hp : SafeCode Q h p) (l : LockId) :
    SafeCode Q h (lockGuard l p) := Safe.guarded hp l .exclusive

theorem safe_sharedLock {p : Code α} (hp : SafeCode Q h p) (l : LockId) :
    SafeCode Q h (sharedLock l p) := Safe.guarded hp l .shared

theorem safe_read {Q : Globals → Globals → Prop} (hQ : ∀ g, g.WellFormed → h.Grows g → Q g g) :
    SafeCode Q h (read : Code Globals) := Safe.read Grows.refl hQ

/-- A read, then the rest. -/
theorem safe_read_bind {q : Globals → Code α} (hq : ∀ g, g.WellFormed → h.Grows g → SafeCode Q g (q g)) :
    SafeCode Q h (read.bind q) :=
  Safe.bind (safe_read (Q := fun a h' => a = h' ∧ a.WellFormed ∧ h.Grows a)
    fun _ hg hG => ⟨rfl, hg, hG⟩) fun a _ ⟨heq, hg, hG⟩ => heq ▸ hq a hg hG

theorem safe_modify {f : Globals → Globals} {Q : Unit → Globals → Prop}
    (hf : ∀ g, g.WellFormed → h.Grows g → (f g).WellFormed ∧ g.Grows (f g) ∧ Q () (f g)) :
    SafeCode Q h (modify f : Code Unit) := hf

theorem safe_update {p : Ptr} {u : GlbContainer → GlbContainer} {Q : Unit → Globals → Prop}
    (hv : ∀ c, c.Valid → (u c).Valid ∧ (u c).cname = c.cname)
    (hu : ∀ c, (u c).glbType = c.glbType ∧ (u c).cname = c.cname)
    (hQ : ∀ g, h.Grows g → Q () (g.update p u)) :
    SafeCode Q h (modify fun g => g.update p u) :=
  safe_modify fun g hg hG => ⟨hg.update p hv, grows_update g p hu, hQ g hG⟩

theorem safe_debug {Q : Unit → Globals → Prop} (hQ : Q () h) : SafeCode Q h debug :=
  safe_lockGuard (p := .ret ()) hQ .debugMutex

end SafeCode

/-- A pointer that leads to a container. -/
def Live (p : Ptr) (g : Globals) : Prop := ∃ c, g.container p = some c

theorem Live.grows {p : Ptr} {g g' : Globals} (h : Live p g) (hG : g.Grows g') : Live p g' := by
  obtain ⟨c, hc⟩ := h
  obtain ⟨c', hc', -⟩ := hG.containers p c hc
  exact ⟨c', hc'⟩

theorem live_of_find {g : Globals} (hg : g.WellFormed) {f : Str} {p : Ptr} (h : g.find f = some p) :
    Live p g := by
  obtain ⟨c, hc, -⟩ := hg.mapped f p h
  exact ⟨c, hc⟩

/-- The entries an iterator visits are the entries of the map. -/
theorem find_of_mem_traverse (ord : MapOrder) {g : Globals} {f : Str} {p : Ptr}
    (h : (f, p) ∈ ord.traverse g) : g.find f = some p := by
  have hmem := (ord.traverse_perm g).subset h
  obtain ⟨e, he, heq⟩ := List.mem_map.mp hmem
  obtain ⟨rfl, rfl⟩ := Prod.mk.inj heq
  exact AList.mem_lookup_iff.mpr he

end GlbBackend
