import GlbBackend.Imperative.Memory

/-!
# Blocks with owners

A heap of blocks that are counted: a block lives as long as something owns it, and its content must not be looked at any
more when nothing does.  A copy (`copy`) either becomes one more owner of the same block or gets a block of its own; which
of the two it is shows when a pointer that was taken from the copy is used after the copy is gone (`withCopy`).
-/

namespace Imperative

/-- A block, and how many own it. -/
structure Block (α : Type) where
  content : α
  owners : ℕ

abbrev Heap (α : Type) := List (Block α)

/-- Code that works on a heap. -/
abbrev Blocks (α β : Type) := StateT (Heap α) (Except Fault) β

namespace Blocks

variable {α β γ : Type}

/-- A new block. -/
def make (x : α) : Blocks α ℕ := fun h => .ok (h.length, h ++ [⟨x, 1⟩])

/-- What there is in a block at all. -/
def look (h : Heap α) (p : ℕ) : Except Fault α :=
  match h[p]? with
  | none => .error .outOfRange
  | some b => if 0 < b.owners then .ok b.content else .error .dangling

/-- The content of a block. -/
def content (p : ℕ) : Blocks α α := fun h => (look h p).map fun x => (x, h)

/-- The number of owners changes. -/
def own (f : ℕ → ℕ) (p : ℕ) : Blocks α Unit := fun h => .ok ((), h.modify p fun b => { b with owners := f b.owners })

/-- A copy of what owns a block. -/
def copy (shared : Bool) (p : ℕ) : Blocks α ℕ :=
  if shared then do
    own (· + 1) p
    pure p
  else do
    let x ← content p
    make x

/-- The end of an owner. -/
def destroy (p : ℕ) : Blocks α Unit := own (· - 1) p

/-- Code with a copy that is local to it. -/
def withCopy (shared : Bool) (p : ℕ) (body : ℕ → Blocks α β) : Blocks α β := do
  let q ← copy shared p
  let r ← body q
  destroy q
  pure r

/-- A live block. -/
def Live (h : Heap α) (p : ℕ) (x : α) : Prop := look h p = .ok x

section Rules

variable {h h' k : Heap α} {p q : ℕ} {x : α} {r : β}

theorem bind_ok {c : Blocks α β} {f : β → Blocks α γ} (hc : c h = .ok (r, h')) : (c >>= f) h = f r h' := by
  show (c h >>= fun r => f r.1 r.2) = _
  rw [hc]
  rfl

theorem bind_error {c : Blocks α β} {f : β → Blocks α γ} {e : Fault} (hc : c h = .error e) : (c >>= f) h = .error e := by
  show (c h >>= fun r => f r.1 r.2) = _
  rw [hc]
  rfl

theorem content_live (hp : Live h p x) : content p h = .ok (x, h) := by
  rw [content, hp]
  rfl

theorem Live.getElem? (hp : Live h p x) : ∃ owners, h[p]? = some ⟨x, owners + 1⟩ := by
  rw [Live, look] at hp
  cases hb : h[p]? with
  | none =>
      rw [hb] at hp
      cases hp
  | some b =>
      rw [hb] at hp
      dsimp only at hp
      split_ifs at hp with howners
      cases hp
      exact ⟨b.owners - 1, by rw [Nat.sub_add_cancel howners]⟩

theorem live_of_getElem? (owners : ℕ) (hp : h[p]? = some ⟨x, owners + 1⟩) : Live h p x := by
  rw [Live, look, hp]
  exact if_pos (Nat.succ_pos owners)

/-- A block that is new. -/
theorem live_new (h : Heap α) (x : α) : Live (h ++ [⟨x, 1⟩]) h.length x :=
  live_of_getElem? 0 (by rw [List.getElem?_append_right (Nat.le_refl _), Nat.sub_self]; rfl)

/-- More blocks do not matter for those that there are. -/
theorem look_append (k : Heap α) (hp : look h p ≠ .error .outOfRange) : look (h ++ k) p = look h p := by
  have hlt : p < h.length := by
    by_contra hle
    exact hp (by rw [look, List.getElem?_eq_none (Nat.le_of_not_lt hle)])
  rw [look, look, List.getElem?_append_left hlt]

theorem Live.append (hp : Live h p x) (k : Heap α) : Live (h ++ k) p x := by
  rw [Live] at hp ⊢
  rw [look_append k (by rw [hp]; simp), hp]

/-- A new owner of one block does not matter for the others. -/
theorem Live.retain (hq : Live h q x) (p : ℕ) :
    Live (h.modify p fun b => { b with owners := b.owners + 1 }) q x := by
  obtain ⟨owners, hb⟩ := hq.getElem?
  by_cases hpq : p = q
  · exact live_of_getElem? (owners + 1) (by rw [List.getElem?_modify, hb]; simp [hpq])
  · exact live_of_getElem? owners (by rw [List.getElem?_modify, hb]; simp [hpq])

/-- One owner more and one less. -/
theorem modify_retain (h : Heap α) (p : ℕ) :
    (h.modify p fun b => { b with owners := b.owners + 1 }).modify p (fun b => { b with owners := b.owners - 1 }) = h := by
  refine List.ext_getElem? fun i => ?_
  rw [List.getElem?_modify, List.getElem?_modify]
  by_cases hi : p = i
  · cases h[i]? <;> simp [hi]
  · cases h[i]? <;> simp [hi]

/-- **A shared copy leaves no trace.** -/
theorem withCopy_shared {body : ℕ → Blocks α β}
    (hbody : body p (h.modify p fun b => { b with owners := b.owners + 1 }) =
      .ok (r, h.modify p fun b => { b with owners := b.owners + 1 })) :
    withCopy true p body h = .ok (r, h) := by
  refine (bind_ok rfl).trans ((bind_ok hbody).trans ((bind_ok rfl).trans ?_))
  show Except.ok (r, (h.modify p _).modify p _) = _
  rw [modify_retain]

theorem modify_length (h k : Heap α) (b : Block α) (f : Block α → Block α) :
    (h ++ b :: k).modify h.length f = h ++ f b :: k := by
  induction h with
  | nil => rfl
  | cons a h ih => exact congrArg (a :: ·) ih

/-- **A copy with a block of its own** leaves the block behind, and nothing may be read from it. -/
theorem withCopy_own {body : ℕ → Blocks α β} (hp : Live h p x)
    (hbody : body h.length (h ++ [⟨x, 1⟩]) = .ok (r, h ++ ⟨x, 1⟩ :: k)) :
    withCopy false p body h = .ok (r, h ++ ⟨x, 0⟩ :: k) := by
  have hcopy : (copy false p : Blocks α ℕ) h = .ok (h.length, h ++ [⟨x, 1⟩]) := (bind_ok (content_live hp)).trans rfl
  refine (bind_ok hcopy).trans ((bind_ok hbody).trans ((bind_ok rfl).trans ?_))
  show Except.ok (r, (h ++ ⟨x, 1⟩ :: k).modify h.length _) = _
  rw [modify_length]
  rfl

/-- The block of a copy that is gone. -/
theorem look_dead (h k : Heap α) (x : α) : look (h ++ ⟨x, 0⟩ :: k) h.length = .error .dangling := by
  rw [look, List.getElem?_append_right (Nat.le_refl _), Nat.sub_self]
  rfl

end Rules

end Blocks

end Imperative
