import GlbBackend.Imperative.Memory
import Mathlib.Algebra.Order.Group.Nat
import Mathlib.Data.Int.ModEq

/-!
# Queues in the cells of an array

`Holds cells h q` says that the array, read cyclically from index `h` on, starts with the queue `q`.  Taking
elements off its head moves `h` (`Holds.drop`), storing into the slot behind its end appends (`Holds.push`),
and an array that has the same cells under the queue holds it too (`Holds.of_cells`).  The loops that walk a
ring with `ri = (ri + 1) % size` are settled by what they do to the queue: `copyStep` copies it out
(`copy_loop`), `fillStep` appends to it (`fill_loop`), `scanStep` folds it (`scan_loop`), `mirrorStep` carries
it to another array at the same place (`mirror_loop`).
-/

namespace Imperative

variable {α σ : Type}

/-- The array holds the queue from index `h` on, cyclically. -/
structure Holds (cells : Cells α) (h : ℕ) (q : List α) : Prop where
  fits : q.length ≤ cells.length
  head : h = 0 ∨ h < cells.length
  cell : ∀ (j : ℕ) x, q[j]? = some x → cells[(h + j) % cells.length]? = some (some x)

/-- `out[i] = data[ri]; ri = (ri + 1) % size;` on `ri` and `out`. -/
def copyStep (data : Cells α) (size : ℤ) (i : ℕ) (s : ℤ × Cells α) : Except Fault (ℤ × Cells α) := do
  let c ← peek data s.1
  let out ← poke s.2 i c
  let ri ← cmod (s.1 + 1) size
  pure (ri, out)

/-- `data[ri] = src[i]; ri = (ri + 1) % size;` on `ri` and `data`. -/
def fillStep (src : Cells α) (size : ℤ) (i : ℕ) (s : ℤ × Cells α) : Except Fault (ℤ × Cells α) := do
  let c ← peek src i
  let data ← poke s.2 s.1 c
  let ri ← cmod (s.1 + 1) size
  pure (ri, data)

/-- `acc = f(data[ri], acc); ri = (ri + 1) % size;` on `ri` and `acc`. -/
def scanStep (data : Cells α) (size : ℤ) (f : α → σ → σ) (_i : ℕ) (s : ℤ × σ) : Except Fault (ℤ × σ) := do
  let x ← load data s.1
  let ri ← cmod (s.1 + 1) size
  pure (ri, f x s.2)

/-- `abs_i = (h + i) % size; data[abs_i] = src[abs_i];` -/
def mirrorStep (src : Cells α) (h size : ℤ) (i : ℕ) (data : Cells α) : Except Fault (Cells α) := do
  let abs_i ← cmod (h + i) size
  let c ← peek src abs_i
  poke data abs_i c

theorem slot_inj {h i j size : ℕ} (hi : i < size) (hj : j < size) (heq : (h + i) % size = (h + j) % size) :
    i = j := by
  have hmod : i % size = j % size := Nat.ModEq.add_left_cancel' h heq
  rwa [Nat.mod_eq_of_lt hi, Nat.mod_eq_of_lt hj] at hmod

section Queue

variable {cells : Cells α} {h : ℕ} {q : List α}

theorem Holds.size_pos (hq : Holds cells h q) (hne : q ≠ []) : 0 < cells.length :=
  Nat.lt_of_lt_of_le (List.length_pos_iff.mpr hne) hq.fits

theorem Holds.nil (hh : h = 0 ∨ h < cells.length) : Holds cells h [] :=
  ⟨Nat.zero_le _, hh, fun _ _ hx => by cases hx⟩

/-- Elements leave at the head. -/
theorem Holds.drop (hq : Holds cells h q) (hpos : 0 < cells.length) (n : ℕ) :
    Holds cells ((h + n) % cells.length) (q.drop n) where
  fits := by
    rw [List.length_drop]
    exact Nat.le_trans (Nat.sub_le _ _) hq.fits
  head := Or.inr (Nat.mod_lt _ hpos)
  cell j x hx := by
    rw [List.getElem?_drop] at hx
    rw [Nat.mod_add_mod, Nat.add_assoc]
    exact hq.cell _ x hx

/-- An element comes in behind the end. -/
theorem Holds.push (hq : Holds cells h q) (hlt : q.length < cells.length) (x : α) :
    Holds (cells.set ((h + q.length) % cells.length) (some x)) h (q ++ [x]) where
  fits := by
    rw [List.length_append, List.length_set]
    exact hlt
  head := by
    rw [List.length_set]
    exact hq.head
  cell j y hy := by
    rw [List.length_set]
    have hj : j < q.length + 1 := by
      have hbound := (List.getElem?_eq_some_iff.mp hy).1
      rwa [List.length_append] at hbound
    rcases Nat.lt_or_ge j q.length with hlt' | hge
    · have hne : (h + q.length) % cells.length ≠ (h + j) % cells.length := fun heq => by
        have := slot_inj hlt (by omega) heq
        omega
      rw [List.getElem?_append_left hlt'] at hy
      rw [List.getElem?_set_ne hne]
      exact hq.cell j y hy
    · obtain rfl : j = q.length := by omega
      rw [List.getElem?_append_right (Nat.le_refl _), Nat.sub_self] at hy
      cases hy
      exact List.getElem?_set_self (Nat.mod_lt _ (by omega))

/-- Another array with the same cells under the queue holds it too. -/
theorem Holds.of_cells (hq : Holds cells h q) {cells' : Cells α} (hlen : cells'.length = cells.length)
    (hcell : ∀ j < q.length, cells'[(h + j) % cells.length]? = cells[(h + j) % cells.length]?) :
    Holds cells' h q where
  fits := hlen ▸ hq.fits
  head := hlen ▸ hq.head
  cell j x hx := by
    rw [hlen, hcell j (List.getElem?_eq_some_iff.mp hx).1]
    exact hq.cell j x hx

/-- An array that starts with the queue holds it from index 0 on. -/
theorem Holds.of_take (hfits : q.length ≤ cells.length)
    (hcell : ∀ (j : ℕ) x, q[j]? = some x → cells[j]? = some (some x)) : Holds cells 0 q where
  fits := hfits
  head := Or.inl rfl
  cell j x hx := by
    rw [Nat.zero_add, Nat.mod_eq_of_lt (Nat.lt_of_lt_of_le (List.getElem?_eq_some_iff.mp hx).1 hfits)]
    exact hcell j x hx

/-! ### Walking along the ring -/

theorem Holds.head_lt {x : α} (hq : Holds cells h (x :: q)) : h < cells.length := by
  have hpos := hq.size_pos (List.cons_ne_nil x q)
  rcases hq.head with rfl | hlt
  · exact hpos
  · exact hlt

theorem Holds.head_cell {x : α} (hq : Holds cells h (x :: q)) : cells[h]? = some (some x) := by
  have hcell := hq.cell 0 x rfl
  rwa [Nat.add_zero, Nat.mod_eq_of_lt hq.head_lt] at hcell

theorem Holds.tail {x : α} (hq : Holds cells h (x :: q)) : Holds cells ((h + 1) % cells.length) q :=
  hq.drop (hq.size_pos (List.cons_ne_nil x q)) 1

/-- `ri = (ri + 1) % size`. -/
theorem cmod_succ (i : ℕ) {size : ℕ} (hpos : 0 < size) :
    cmod ((i : ℤ) + 1) size = .ok (((i + 1) % size : ℕ) : ℤ) :=
  cmod_natCast (i + 1) hpos

theorem copyStep_eq {ri i : ℕ} {c : Option α} {out : Cells α} (hc : cells[ri]? = some c)
    (hi : i < out.length) :
    copyStep cells cells.length i (ri, out) = .ok ((((ri + 1) % cells.length : ℕ) : ℤ), out.set i c) := by
  have hri : ri < cells.length := (List.getElem?_eq_some_iff.mp hc).1
  rw [copyStep, peek_of_getElem? hc]
  show (poke out i c).bind _ = _
  rw [poke_of_lt hi]
  show (cmod ((ri : ℤ) + 1) cells.length).bind _ = _
  rw [cmod_succ ri (by omega)]
  rfl

theorem fillStep_eq {ri i : ℕ} {c : Option α} {src : Cells α} (hc : src[i]? = some c)
    (hri : ri < cells.length) :
    fillStep src cells.length i (ri, cells) =
      .ok ((((ri + 1) % cells.length : ℕ) : ℤ), cells.set ri c) := by
  rw [fillStep, peek_of_getElem? hc]
  show (poke cells ri c).bind _ = _
  rw [poke_of_lt hri]
  show (cmod ((ri : ℤ) + 1) cells.length).bind _ = _
  rw [cmod_succ ri (by omega)]
  rfl

/-- **A loop that copies the ring out reads the queue in its order.** -/
theorem copy_loop (hq : Holds cells h q) {n i : ℕ} {out : Cells α} (hn : n ≤ q.length)
    (hout : i + n ≤ out.length) :
    ∃ ri, forLoop (copyStep cells cells.length) n i (h, out) =
      .ok (ri, out.take i ++ ((q.take n).map some ++ out.drop (i + n))) := by
  induction n generalizing h q i out with
  | zero =>
      refine ⟨h, ?_⟩
      rw [List.take_zero, List.map_nil, List.nil_append, Nat.add_zero, List.take_append_drop]
      rfl
  | succ n ih =>
      obtain ⟨x, q, rfl⟩ := List.exists_cons_of_length_pos (Nat.lt_of_lt_of_le (Nat.succ_pos n) hn)
      have hi : i < out.length := by omega
      have hlen : i + 1 + n ≤ (out.set i (some x)).length := by
        rw [List.length_set]
        omega
      obtain ⟨ri, hrest⟩ := ih hq.tail (Nat.le_of_succ_le_succ hn) hlen
      refine ⟨ri, ?_⟩
      show (copyStep cells cells.length i (h, out)).bind _ = _
      rw [copyStep_eq hq.head_cell hi]
      show forLoop _ n (i + 1) _ = _
      rw [hrest, List.take_succ_cons, List.map_cons, List.drop_set_of_lt (by omega),
        List.take_add_one, List.take_set_of_le (Nat.le_refl i), List.getElem?_set_self hi,
        show i + 1 + n = i + (n + 1) by omega]
      simp

theorem Holds.unrolled (q : List α) (spare : ℕ) :
    Holds (q.map some ++ List.replicate spare none) 0 q := by
  refine Holds.of_take ?_ fun j x hx => getElem?_stored _ hx
  rw [List.length_append, List.length_map]
  omega

/-- **Copied into a fresh array the queue starts at index 0.** -/
theorem unroll_loop (hq : Holds cells h q) {size : ℕ} (hsize : q.length ≤ size) :
    ∃ ri, forLoop (copyStep cells cells.length) q.length 0 (h, List.replicate size none) =
      .ok (ri, q.map some ++ List.replicate (size - q.length) none) := by
  have hout : 0 + q.length ≤ (List.replicate size (none : Option α)).length := by
    rw [List.length_replicate]
    omega
  obtain ⟨ri, hloop⟩ := copy_loop hq (Nat.le_refl _) hout
  rw [List.take_zero, List.nil_append, List.take_length, Nat.zero_add, List.drop_replicate] at hloop
  exact ⟨ri, hloop⟩

/-- **A loop that fills the ring from behind its end appends to the queue.** -/
theorem fill_loop (hq : Holds cells h q) {src : Cells α} {xs : List α} {i : ℕ}
    (hfree : q.length + xs.length ≤ cells.length)
    (hsrc : ∀ (j : ℕ) x, xs[j]? = some x → src[i + j]? = some (some x)) :
    ∃ ri cells', forLoop (fillStep src cells.length) xs.length i
        ((((h + q.length) % cells.length : ℕ) : ℤ), cells) = .ok (ri, cells') ∧
      Holds cells' h (q ++ xs) ∧ cells'.length = cells.length := by
  induction xs generalizing q cells i with
  | nil => exact ⟨_, cells, rfl, by rwa [List.append_nil], rfl⟩
  | cons x xs ih =>
      have hlt : q.length < cells.length := by
        rw [List.length_cons] at hfree
        omega
      have hslot : (h + q.length) % cells.length < cells.length := Nat.mod_lt _ (by omega)
      have hset : (cells.set ((h + q.length) % cells.length) (some x)).length = cells.length :=
        List.length_set
      have hpush : (q ++ [x]).length = q.length + 1 := List.length_append
      have hfree' : (q ++ [x]).length + xs.length ≤
          (cells.set ((h + q.length) % cells.length) (some x)).length := by
        rw [hset, hpush]
        rw [List.length_cons] at hfree
        omega
      have hsrc' : ∀ (j : ℕ) y, xs[j]? = some y → src[i + 1 + j]? = some (some y) := fun j y hy => by
        rw [Nat.add_assoc, Nat.add_comm 1 j]
        exact hsrc (j + 1) y hy
      obtain ⟨ri, cells', hrest, hholds, hlen⟩ := ih (hq.push hlt x) hfree' hsrc'
      refine ⟨ri, cells', ?_, ?_, hlen.trans hset⟩
      · show (fillStep src cells.length i _).bind _ = _
        have hx : src[i]? = some (some x) := hsrc 0 x rfl
        rw [fillStep_eq hx hslot, Nat.mod_add_mod]
        rw [hset, hpush] at hrest
        exact hrest
      · rwa [List.append_assoc] at hholds

/-- **A loop that looks at the ring folds the queue.** -/
theorem scan_loop (hq : Holds cells h q) (f : α → σ → σ) (i : ℕ) (acc : σ) :
    ∃ ri, forLoop (scanStep cells cells.length f) q.length i (h, acc) =
      .ok (ri, q.foldl (fun acc x => f x acc) acc) := by
  induction q generalizing h i acc with
  | nil => exact ⟨h, rfl⟩
  | cons x q ih =>
      obtain ⟨ri, hrest⟩ := ih hq.tail (i + 1) (f x acc)
      refine ⟨ri, ?_⟩
      show (scanStep cells cells.length f i (h, acc)).bind _ = _
      rw [scanStep, load_of_getElem? hq.head_cell]
      show ((cmod ((h : ℤ) + 1) _).bind _).bind _ = _
      rw [cmod_succ h (hq.size_pos (List.cons_ne_nil x q))]
      exact hrest

/-- **A loop that copies slot by slot carries the queue to the other array.** -/
theorem mirror_loop (hq : Holds cells h q) {data : Cells α} (hdata : data.length = cells.length) {n : ℕ}
    (hn : q.length ≤ n) (hsize : n ≤ cells.length) :
    ∃ data', forLoop (mirrorStep cells h cells.length) n 0 data = .ok data' ∧
      data'.length = cells.length ∧ Holds data' h q := by
  have hstep : ∀ i (d : Cells α), 0 ≤ i → i < 0 + n →
      (d.length = cells.length ∧
        ∀ j < i, d[(h + j) % cells.length]? = cells[(h + j) % cells.length]?) →
      ∃ d', mirrorStep cells h cells.length i d = .ok d' ∧ d'.length = cells.length ∧
        ∀ j < i + 1, d'[(h + j) % cells.length]? = cells[(h + j) % cells.length]? := by
    rintro i d - hi ⟨hlen, hsame⟩
    have hpos : 0 < cells.length := by omega
    have hslot : (h + i) % cells.length < cells.length := Nat.mod_lt _ hpos
    refine ⟨d.set ((h + i) % cells.length) cells[(h + i) % cells.length], ?_, ?_, ?_⟩
    · rw [mirrorStep, ← Int.natCast_add, cmod_natCast (h + i) hpos]
      show (peek cells _).bind _ = _
      rw [peek_of_getElem? (List.getElem?_eq_getElem hslot)]
      exact poke_of_lt (by omega) _
    · rw [List.length_set, hlen]
    · intro j hj
      rcases Nat.lt_or_eq_of_le (Nat.le_of_lt_succ hj) with hlt | rfl
      · have hne : (h + i) % cells.length ≠ (h + j) % cells.length := fun heq => by
          have := slot_inj (by omega) (by omega) heq
          omega
        rw [List.getElem?_set_ne hne, hsame j hlt]
      · rw [List.getElem?_set_self (by omega), List.getElem?_eq_getElem hslot]
  obtain ⟨data', hloop, hlen, hsame⟩ := forLoop_inv
    (fun i (d : Cells α) => d.length = cells.length ∧
      ∀ j < i, d[(h + j) % cells.length]? = cells[(h + j) % cells.length]?)
    ⟨hdata, fun j hj => absurd hj (Nat.not_lt_zero j)⟩ hstep
  exact ⟨data', hloop, hlen, hq.of_cells hlen fun j hj => hsame j (by omega)⟩

end Queue

end Imperative
