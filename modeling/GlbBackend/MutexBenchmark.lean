import Mathlib.Data.BitVec
import Mathlib.Algebra.BigOperators.Fin
import GlbBackend.Concurrent.Atomicity
import GlbBackend.Concurrent.Completion

/-!
# The mutex benchmark

`mutex.cpp` measures how long its threads take to increment counters that they draw at random, each counter under a
mutex of its own, and prints their sum.  An increment reads the counter and then writes it, so two threads could lose
one; here nothing between two accesses is taken for atomic.

No increment is lost (`increments_counted`): whatever is in the memory that `new long[nMutexes]` returns, at the end the
sum is larger by the number of threads times the number of iterations.  Every thread has its own copy of the engine, so
all of them draw the same counters.  And no run is stuck on the way there (`benchmark_completes`).
-/

namespace GlbBackend

open Concurrent Concurrent.Proc

namespace MutexBenchmark

/-- `long *counters` -/
abbrev Counters := ℕ → BitVec 64

/-- Code of a thread; the lock of a counter is `(*mutexes)[mi]`. -/
abbrev Code := Proc ℕ Empty Counters

/-- `cmd`: which kind of mutexes the threads take. -/
inductive Cmd
  | mutex
  | shared_mutex
  deriving DecidableEq

section Threads

variable {ρ : Type} (dist : ρ → ℕ × ρ) (nMutexes : ℕ)

/-- `m->lock(); counters[mi]++; m->unlock();` -/
def increment (mi : ℕ) : Code Unit :=
  guarded mi .exclusive do
    let counters ← read
    modify fun s => Function.update s mi (counters mi + 1)

/-- The loop of `mutexThread`, and that of `sharedMutexThread`, with the iterations left. -/
def incrementLoop : ℕ → ρ → Code Unit
  | 0, _ => ret ()
  | n + 1, rng => do
      let (mi, rng) := dist rng
      let m ← expect (if mi < nMutexes then some mi else none)
      increment m
      incrementLoop n rng

def mutexThread (nIterations : ℤ) (rng : ρ) : Code Unit := incrementLoop dist nMutexes nIterations.toNat rng

/-- `lock` takes a `shared_mutex` exclusively too. -/
def sharedMutexThread (nIterations : ℤ) (rng : ρ) : Code Unit := incrementLoop dist nMutexes nIterations.toNat rng

/-- The threads that `main` starts and joins. -/
def threads (cmd : Cmd) (nThreads : ℕ) (nIterations : ℤ) (rng : ρ) :
    System (Fin nThreads) Unit ℕ Empty Counters Unit :=
  ⟨fun _ =>
    match cmd with
    | .mutex => mutexThread dist nMutexes nIterations rng
    | .shared_mutex => sharedMutexThread dist nMutexes nIterations rng, fun _ => [()]⟩

/-- How often a counter is drawn. -/
def drawn : ℕ → ρ → ℕ → ℕ
  | 0, _, _ => 0
  | n + 1, rng, mi => (if (dist rng).1 = mi then 1 else 0) + drawn n (dist rng).2 mi

/-- The sum that `main` prints. -/
def sum (counters : Counters) : BitVec 64 :=
  (List.range nMutexes).foldl (fun sum i => sum + counters i) 0

end Threads

/-- Either command makes the same run. -/
theorem threads_code {ρ : Type} (dist : ρ → ℕ × ρ) (nMutexes : ℕ) (cmd : Cmd) (nThreads : ℕ) (nIterations : ℤ)
    (rng : ρ) (op : Unit) :
    (threads dist nMutexes cmd nThreads nIterations rng).code op = incrementLoop dist nMutexes nIterations.toNat rng := by
  cases cmd <;> rfl

/-! ### The locks -/

/-- The lock of a counter protects it. -/
def counterProtection : Protection ℕ Empty Counters := .ofViews fun mi counters => counters mi

section Locks

variable {ρ : Type} {dist : ρ → ℕ × ρ} {nMutexes : ℕ}

theorem reduces_increment (mi : ℕ) : counterProtection.Reduces (increment mi) := by
  refine fun known => Or.inl ⟨rfl, fun s _ => ⟨fun s' h => ?_, Or.inr fun s' _ => ⟨fun _ _ => rfl, fun mj => ?_, ?_⟩⟩⟩
  · have h : s' mi = s mi := h
    show (Proc.modify fun counters : Counters => Function.update counters mi (s mi + 1)).bind _ =
      (Proc.modify fun counters : Counters => Function.update counters mi (s' mi + 1)).bind _
    rw [h]
  · by_cases hmj : mj = mi
    · rw [hmj]
      exact Or.inr (List.mem_singleton_self _)
    · exact Or.inl (Function.update_of_ne hmj _ _)
  · exact ⟨_, [], rfl, rfl, _, rfl, trivial⟩

theorem oneLock_increment (mi : ℕ) : OneLock [] (increment mi) :=
  ⟨rfl, fun _ _ => ⟨_, [], rfl, rfl⟩⟩

/-- One iteration of a thread whose draws are in range. -/
theorem incrementLoop_succ (hdist : ∀ rng, (dist rng).1 < nMutexes) (n : ℕ) (rng : ρ) :
    incrementLoop dist nMutexes (n + 1) rng =
      (increment (dist rng).1).bind fun _ => incrementLoop dist nMutexes n (dist rng).2 := by
  show (expect (if (dist rng).1 < nMutexes then some (dist rng).1 else none)).bind _ = _
  rw [if_pos (hdist rng)]
  rfl

theorem reduces_incrementLoop (hdist : ∀ rng, (dist rng).1 < nMutexes) (n : ℕ) (rng : ρ) :
    counterProtection.Reduces (incrementLoop dist nMutexes n rng) := by
  induction n generalizing rng with
  | zero => exact Protection.Reduces.ret ()
  | succ n ih =>
      rw [incrementLoop_succ hdist]
      exact (reduces_increment _).bind fun _ => ih _

theorem oneLock_incrementLoop (hdist : ∀ rng, (dist rng).1 < nMutexes) (n : ℕ) (rng : ρ) :
    OneLock [] (incrementLoop dist nMutexes n rng) := by
  induction n generalizing rng with
  | zero => exact rfl
  | succ n ih =>
      rw [incrementLoop_succ hdist]
      exact (oneLock_increment _).bind fun _ => ih _

end Locks

/-! ### Section by section -/

section Counting

variable {ρ : Type} {dist : ρ → ℕ × ρ} {nMutexes nThreads : ℕ} {cmd : Cmd} {nIterations : ℤ} {rng : ρ} {s₀ : Counters}

/-- The increments that a thread still owes, in a configuration. -/
inductive Owes (dist : ρ → ℕ × ρ) (nMutexes : ℕ) (nIterations : ℤ) (rng : ρ) :
    Option (Code Unit) → ℕ → (ℕ → ℕ) → Prop
  | waiting : Owes dist nMutexes nIterations rng none 0 (drawn dist nIterations.toNat rng)
  | running (n : ℕ) (r : ρ) : Owes dist nMutexes nIterations rng (some (incrementLoop dist nMutexes n r)) 0 (drawn dist n r)
  | finished : Owes dist nMutexes nIterations rng none 1 fun _ => 0

/-- What the counters have got and what they are owed is what they get in all. -/
structure Counted (dist : ρ → ℕ × ρ) (nMutexes : ℕ) (nIterations : ℤ) (rng : ρ) (s₀ : Counters)
    (c : Config (Fin nThreads) ℕ Empty Counters Unit) (owed : Fin nThreads → ℕ → ℕ) : Prop where
  owes : ∀ t, Owes dist nMutexes nIterations rng (c.running t) (c.finished t) (owed t)
  total : ∀ mi, c.shared mi + ((∑ t, owed t mi : ℕ) : BitVec 64) =
    s₀ mi + ((nThreads * drawn dist nIterations.toNat rng mi : ℕ) : BitVec 64)

/-- One thread owes something else. -/
theorem sum_update (owed : Fin nThreads → ℕ → ℕ) (t : Fin nThreads) (x : ℕ → ℕ) (mi : ℕ) :
    ∑ u, Function.update owed t x u mi + owed t mi = ∑ u, owed u mi + x mi := by
  have hothers : ∑ u ∈ Finset.univ.erase t, Function.update owed t x u mi = ∑ u ∈ Finset.univ.erase t, owed u mi :=
    Finset.sum_congr rfl fun u hu => by rw [Function.update_of_ne (Finset.ne_of_mem_erase hu)]
  rw [← Finset.add_sum_erase _ _ (Finset.mem_univ t), ← Finset.add_sum_erase _ (fun u => owed u mi) (Finset.mem_univ t),
    Function.update_self, hothers]
  omega

/-- One thread owes one less of a counter. -/
theorem sum_draw {owed : Fin nThreads → ℕ → ℕ} {t : Fin nThreads} {x : ℕ → ℕ} {i : ℕ}
    (h : ∀ mi, owed t mi = (if i = mi then 1 else 0) + x mi) (mi : ℕ) :
    ∑ u, owed u mi = ∑ u, Function.update owed t x u mi + if i = mi then 1 else 0 := by
  have hsum := sum_update owed t x mi
  have howed := h mi
  split_ifs at howed ⊢ <;> omega

/-- The critical section increments its counter. -/
theorem increment_section (mi : ℕ) (q : Unit → Code Unit) (s : Counters) :
    rest ((increment mi).bind q) s = q () ∧
      (visit ((increment mi).bind q) s).post = Function.update s mi (s mi + 1) :=
  rest_guarded (Balanced.bind Balanced.read fun _ => Balanced.atom fun _ => Balanced.ret ()) rfl q

variable {c : Config (Fin nThreads) ℕ Empty Counters Unit} {owed : Fin nThreads → ℕ → ℕ} {t : Fin nThreads}

theorem Owes.update {owes : Fin nThreads → Option (Code Unit)} {finished : Fin nThreads → ℕ} {x : ℕ → ℕ}
    {o : Option (Code Unit)} {k : ℕ}
    (h : ∀ u, Owes dist nMutexes nIterations rng (owes u) (finished u) (owed u))
    (hx : Owes dist nMutexes nIterations rng o k x) (u : Fin nThreads) :
    Owes dist nMutexes nIterations rng (Function.update owes t o u) (Function.update finished t k u)
      (Function.update owed t x u) := by
  by_cases hut : u = t
  · rw [hut, Function.update_self, Function.update_self, Function.update_self]
    exact hx
  · rw [Function.update_of_ne hut, Function.update_of_ne hut, Function.update_of_ne hut]
    exact h u

/-- **One step** keeps the account. -/
theorem Counted.step (hdist : ∀ rng, (dist rng).1 < nMutexes)
    (h : Counted dist nMutexes nIterations rng s₀ c owed) {e : Event (Fin nThreads) Unit Empty Counters Unit}
    {c' : Config (Fin nThreads) ℕ Empty Counters Unit}
    (hstep : Step (threads dist nMutexes cmd nThreads nIterations rng) c e c') :
    ∃ owed', Counted dist nMutexes nIterations rng s₀ c' owed' := by
  cases hstep with
  | @invoke t op hidle hop =>
      have howes := h.owes t
      have hfirst : c.finished t = 0 := by
        have hlt : c.finished t < 1 := (List.getElem?_eq_some_iff.mp hop).1
        omega
      rw [hidle, hfirst] at howes
      have hsame : owed t = drawn dist nIterations.toNat rng := by
        generalize owed t = x at howes
        cases howes
        rfl
      refine ⟨owed, fun u => ?_, h.total⟩
      have hupdate := Owes.update (t := t) h.owes (hsame ▸ Owes.running nIterations.toNat rng) u
      rw [Function.update_eq_self, ← hfirst, Function.update_eq_self, ← threads_code dist nMutexes cmd] at hupdate
      exact hupdate
  | @«section» t p hrun hact =>
      have howes := h.owes t
      rw [hrun] at howes
      generalize hk : c.finished t = k at howes
      generalize hx : owed t = x at howes
      cases howes with
      | running n r =>
          cases n with
          | zero => cases hact
          | succ n =>
              obtain ⟨hrest, hpost⟩ :=
                increment_section (dist r).1 (fun _ => incrementLoop dist nMutexes n (dist r).2) c.shared
              rw [← incrementLoop_succ hdist] at hrest hpost
              refine ⟨Function.update owed t (drawn dist n (dist r).2), fun u => ?_, fun mi => ?_⟩
              · have hupdate := Owes.update (t := t) h.owes (Owes.running n (dist r).2) u
                rw [← hk, Function.update_eq_self] at hupdate
                show Owes _ _ _ _ (Function.update c.running t (some (rest _ c.shared)) u) _ _
                rw [hrest]
                exact hupdate
              · have howed : ∀ mi, owed t mi = (if (dist r).1 = mi then 1 else 0) + drawn dist n (dist r).2 mi := by
                  intro mi
                  rw [hx]
                  rfl
                rw [Config.advanced_shared, hpost, ← h.total mi, sum_draw howed mi]
                by_cases hmi : (dist r).1 = mi
                · rw [if_pos hmi, hmi, Function.update_self, Nat.cast_add, Nat.cast_one, add_right_comm, add_assoc]
                · rw [if_neg hmi, Nat.add_zero, Function.update_of_ne (Ne.symm hmi)]
  | @respond t r hrun =>
      have howes := h.owes t
      rw [hrun] at howes
      obtain ⟨hk, hx⟩ : c.finished t = 0 ∧ owed t = fun _ => 0 := by
        generalize hq : (some (ret r) : Option (Code Unit)) = q at howes
        generalize hk : c.finished t = k at howes
        generalize hx : owed t = x at howes
        cases howes with
        | waiting => cases hq
        | running n r' =>
            cases n with
            | zero => exact ⟨rfl, rfl⟩
            | succ n =>
                rw [incrementLoop_succ hdist] at hq
                cases hq
        | finished => cases hq
      refine ⟨owed, fun u => ?_, h.total⟩
      have hupdate := Owes.update (t := t) h.owes (hx ▸ Owes.finished) u
      rw [Function.update_eq_self] at hupdate
      show Owes _ _ _ _ (Function.update c.running t none u) (Function.update c.finished t (c.finished t + 1) u) _
      rw [hk]
      exact hupdate

/-- **Every run keeps the account.** -/
theorem counted_run (hdist : ∀ rng, (dist rng).1 < nMutexes)
    {es : List (Event (Fin nThreads) Unit Empty Counters Unit)}
    (hrun : Run (threads dist nMutexes cmd nThreads nIterations rng) (Config.start s₀) es c) :
    ∃ owed, Counted dist nMutexes nIterations rng s₀ c owed := by
  induction hrun with
  | nil =>
      refine ⟨fun _ => drawn dist nIterations.toNat rng, fun t => Owes.waiting, fun mi => ?_⟩
      rw [Finset.sum_const, Finset.card_univ, Fintype.card_fin, smul_eq_mul]
      rfl
  | snoc _ hstep ih =>
      obtain ⟨owed, h⟩ := ih
      exact h.step hdist hstep

/-- The draws of a thread are in range. -/
theorem sum_drawn (hdist : ∀ rng, (dist rng).1 < nMutexes) (n : ℕ) (r : ρ) :
    ∑ mi ∈ Finset.range nMutexes, drawn dist n r mi = n := by
  induction n generalizing r with
  | zero => exact Finset.sum_const_zero
  | succ n ih =>
      show ∑ mi ∈ Finset.range nMutexes, ((if (dist r).1 = mi then 1 else 0) + drawn dist n (dist r).2 mi) = n + 1
      rw [Finset.sum_add_distrib, ih, Finset.sum_ite_eq, if_pos (Finset.mem_range.mpr (hdist r)), Nat.add_comm]

theorem sum_eq (counters : Counters) : sum nMutexes counters = ∑ mi ∈ Finset.range nMutexes, counters mi := by
  rw [sum]
  induction nMutexes with
  | zero => rfl
  | succ n ih => rw [List.range_succ, List.foldl_append, ih, Finset.sum_range_succ]; rfl

end Counting

/-! ### Access by access -/

section Results

variable {ρ : Type} {dist : ρ → ℕ × ρ} {nMutexes nThreads : ℕ}

/-- **No increment is lost.**  However the single accesses of the threads interleave: when all have been joined, each
counter is larger than it was by the number of threads times how often one of them draws it, and the sum that is
printed by the number of threads times the number of iterations. -/
theorem increments_counted (hdist : ∀ rng, (dist rng).1 < nMutexes) (cmd : Cmd) (nIterations : ℤ) (rng : ρ) (s₀ : Counters)
    {es : List (Event (Fin nThreads) Unit Empty Counters Unit)} {f : Fine (Fin nThreads) ℕ Empty Counters Unit}
    (hrun : FineRun (threads dist nMutexes cmd nThreads nIterations rng) (Fine.start s₀) es f)
    (hdone : ∀ t, f.running t = none ∧ f.finished t = 1) :
    (∀ mi, f.shared mi = s₀ mi + ((nThreads * drawn dist nIterations.toNat rng mi : ℕ) : BitVec 64)) ∧
      sum nMutexes f.shared = sum nMutexes s₀ + ((nThreads * nIterations.toNat : ℕ) : BitVec 64) := by
  have hcode : ∀ op, counterProtection.Reduces ((threads dist nMutexes cmd nThreads nIterations rng).code op) := by
    intro op
    rw [threads_code]
    exact reduces_incrementLoop hdist nIterations.toNat rng
  obtain ⟨-, es', c, _, hsections, -, hsim⟩ :=
    hrun.sections counterProtection (fun _ _ => trivial) fun _ op _ => hcode op fun _ => True
  obtain ⟨owed, hcounted⟩ := counted_run hdist hsections
  have hnothing : ∀ t, owed t = fun _ => 0 := by
    intro t
    have howes := hcounted.owes t
    rw [(hsim.idle t (hdone t).1).1, hsim.finished, (hdone t).2] at howes
    generalize owed t = x at howes
    cases howes
    rfl
  have heach : ∀ mi, f.shared mi = s₀ mi + ((nThreads * drawn dist nIterations.toNat rng mi : ℕ) : BitVec 64) := by
    intro mi
    rw [← hcounted.total mi, hsim.settled fun t => (hdone t).1]
    simp only [hnothing, Finset.sum_const_zero]
    exact (add_zero _).symm
  refine ⟨heach, ?_⟩
  rw [sum_eq, sum_eq, ← sum_drawn hdist nIterations.toNat rng, Finset.mul_sum, Nat.cast_sum, ← Finset.sum_add_distrib]
  exact Finset.sum_congr rfl fun mi _ => heach mi

/-- **No run is stuck.**  From wherever the threads are, they can all be joined. -/
theorem benchmark_completes (hdist : ∀ rng, (dist rng).1 < nMutexes) (cmd : Cmd) (nIterations : ℤ) (rng : ρ) (s₀ : Counters)
    {es : List (Event (Fin nThreads) Unit Empty Counters Unit)} {f : Fine (Fin nThreads) ℕ Empty Counters Unit}
    (hrun : FineRun (threads dist nMutexes cmd nThreads nIterations rng) (Fine.start s₀) es f) :
    ∃ es' f', FineRun (threads dist nMutexes cmd nThreads nIterations rng) (Fine.start s₀) (es ++ es') f' ∧
      ∀ t, f'.running t = none ∧ f'.finished t = 1 :=
  hrun.completes (fun t => List.mem_finRange t) fun _ _ _ => by
    rw [threads_code]
    exact oneLock_incrementLoop hdist nIterations.toNat rng

end Results

/-! #### Two threads at one counter -/

/-- An engine that draws the counters in turn. -/
def alternating (r : ℕ) : ℕ × ℕ := (r % 2, r + 1)

theorem alternating_lt (r : ℕ) : (alternating r).1 < 2 := Nat.mod_lt _ (by decide)

/-- Two threads, and where a schedule brings them; the second waits while the first increments. -/
def twoThreads (picks : List (Fin 2)) :
    List (Event (Fin 2) Unit Empty Counters Unit) × Fine (Fin 2) ℕ Empty Counters Unit :=
  fineSchedule (List.finRange 2) (threads alternating 2 .mutex 2 2 0) picks [] (Fine.start fun mi => BitVec.ofNat 64 (mi + 5))

theorem twoThreads_run (picks : List (Fin 2)) :
    FineRun (threads alternating 2 .mutex 2 2 0) (Fine.start fun mi => BitVec.ofNat 64 (mi + 5)) (twoThreads picks).1
      (twoThreads picks).2 :=
  fineSchedule_run (fun t => List.mem_finRange t) picks FineRun.nil

theorem increments_counted_twoThreads :
    ∃ es f, FineRun (threads alternating 2 .mutex 2 2 0) (Fine.start fun mi => BitVec.ofNat 64 (mi + 5)) es f ∧
      f.shared 0 = 7 ∧ sum 2 f.shared = 15 := by
  have hrun := twoThreads_run [0, 0, 1, 0, 1, 0, 1, 0, 0, 0, 1, 1, 1, 0, 0, 0, 1, 1, 1, 1, 0, 1, 1, 1, 1]
  obtain ⟨heach, hsum⟩ := increments_counted alternating_lt .mutex 2 0 _ hrun
    (fun t => by match t with | 0 => exact ⟨rfl, rfl⟩ | 1 => exact ⟨rfl, rfl⟩)
  exact ⟨_, _, hrun, by rw [heach]; rfl, by rw [hsum]; rfl⟩

theorem benchmark_completes_waiting :
    ∃ es f, FineRun (threads alternating 2 .mutex 2 2 0) (Fine.start fun mi => BitVec.ofNat 64 (mi + 5)) es f ∧
      f.frames 0 = [.lock 0 .exclusive] ∧ (∃ k, f.running 1 = some ⟨acquire 0 .exclusive k, []⟩) ∧
      ∃ es' f', FineRun (threads alternating 2 .mutex 2 2 0) (Fine.start fun mi => BitVec.ofNat 64 (mi + 5)) (es ++ es') f' ∧
        ∀ t, f'.running t = none ∧ f'.finished t = 1 :=
  ⟨_, _, twoThreads_run [0, 0, 1, 0], rfl, ⟨_, rfl⟩,
    benchmark_completes alternating_lt .mutex 2 0 _ (twoThreads_run [0, 0, 1, 0])⟩

end MutexBenchmark

end GlbBackend
