import GlbBackend.Concurrent.Progress
import GlbBackend.MapExclusion

/-!
# No deadlock

The locks of the daemon have two ranks.  `glbMapMutex`, `soaMutex` and `debugMutex` are taken outside
everything; the two locks of a container are taken outside everything too, or under `glbMapMutex` by the
handlers that walk the map (`ranked`).  No code takes a lock inside a lock of a container.  With the safety
of the code, which no fault stops, this is what the general result asks for (`no_deadlock`).
-/

namespace GlbBackend

open Text Concurrent Concurrent.Proc Globals

/-- The locks of a container are taken inside `glbMapMutex`. -/
def LockId.rank : LockId → ℕ
  | glbMapMutex => 0
  | soaMutex => 0
  | debugMutex => 0
  | glbMutex _ => 1
  | nLookupsMutex _ => 1

theorem LockId.rank_le (l : LockId) : l.rank ≤ 1 := by
  cases l <;> simp [rank]

/-- One lock and a scope inside it. -/
theorem eq_of_mem_pair {c : Scope} {l l' : LockId} {m m' : Mode}
    (h : Frame.lock l' m' ∈ [Frame.scope c, Frame.lock l m]) : l' = l := by
  rcases List.mem_cons.mp h with h | h
  · cases h
  · cases List.mem_singleton.mp h
    rfl

/-- All that is held where a lock is taken is `glbMapMutex`, and then the lock is one of a container. -/
theorem LockId.At.under {l l' : LockId} {m m' : Mode} {K : List (Frame LockId Scope)} (h : l.At m K)
    (hheld : .lock l' m' ∈ K) : l' = .glbMapMutex ∧ l.rank = 1 := by
  cases l with
  | glbMapMutex =>
      rw [show K = [] from h] at hheld
      exact absurd hheld List.not_mem_nil
  | soaMutex =>
      rw [show K = [] from h] at hheld
      exact absurd hheld List.not_mem_nil
  | debugMutex =>
      rw [show K = [] from h] at hheld
      exact absurd hheld List.not_mem_nil
  | glbMutex p =>
      rcases h with rfl | ⟨-, rfl⟩
      · exact absurd hheld List.not_mem_nil
      · exact ⟨eq_of_mem_pair hheld, rfl⟩
  | nLookupsMutex p =>
      rcases h with rfl | ⟨c, -, rfl⟩
      · exact absurd hheld List.not_mem_nil
      · exact ⟨eq_of_mem_pair hheld, rfl⟩

/-- **The lock order** of the daemon. -/
theorem ranked : allRules.Ranked LockId.rank := by
  intro K l m hadm l' m' hheld
  obtain ⟨rfl, hrank⟩ := LockId.At.under hadm hheld
  rw [hrank]
  exact Nat.zero_lt_one

theorem serveAll_safe (ord : MapOrder) (rnd : Randomness) (reqs : List Request) (h : Globals) :
    SafeCode (fun _ _ => True) h (serveAll ord rnd reqs) := by
  induction reqs generalizing h with
  | nil => exact trivial
  | cons req reqs ih => exact Safe.bind (serve_safe ord rnd req h) fun _ h' _ => ih h'

section Runs

variable {T : Type} [DecidableEq T] {ord : MapOrder} {rnd : Randomness} {program : T → List Request}
  {g₀ : Globals} {ms : List (Machine T LockId Scope Globals × T)} {x : Machine T LockId Scope Globals}

/-- In every interleaving the state is well-formed and no code faults. -/
theorem threads_sound (hg₀ : g₀.WellFormed) (hrun : Machine.Runs (threads ord rnd program g₀) ms x) :
    ∀ z ∈ Machine.reached ms x, z.Sound WellFormed Grows :=
  Machine.Sound.runs ⟨hg₀, fun t => ⟨g₀, Grows.refl g₀, serveAll_safe ord rnd (program t) g₀⟩⟩
    Grows.refl Grows.trans hrun

end Runs

/-- **No deadlock.**  For any number of threads, any requests and any interleaving (those that an
implementation which holds readers back can produce are among them), and whatever locks have new readers
held back now, as long as a writer waits for each of these: every thread that is not done waits, through a
chain of threads each of which waits for the next, for one that can move; and no thread waits for a lock
that it holds. -/
theorem no_deadlock (ord : MapOrder) (rnd : Randomness) {T : Type} [DecidableEq T]
    {program : T → List Request} {seed : ℕ} {ms : List (Machine T LockId Scope Globals × T)}
    {x : Machine T LockId Scope Globals} (hrun : Machine.Runs (threads ord rnd program (init seed)) ms x) :
    (∀ gate : LockId → Prop, (∀ l, gate l → ∃ t k, (x.threads t).code = acquire l .exclusive k) →
      ∀ t, (x.threads t).code ≠ ret () →
        ∃ u, Relation.ReflTransGen (x.Awaits gate) t u ∧ x.CanMove gate u) ∧
    ∀ t l m k, (x.threads t).code = acquire l m k → ∀ m', .lock l m' ∉ (x.threads t).frames := by
  have horderly := threads_orderly hrun x Machine.mem_reached_last
  have hsound := threads_sound (wellFormed_init seed) hrun x Machine.mem_reached_last
  constructor
  · intro gate hgate t hdone
    exact horderly.progress ranked LockId.rank_le hsound.ne_fault hgate hdone
  · intro t l m k hcode m'
    exact horderly.not_held ranked hcode

/-! #### A writer waits for a reader -/

/-- One client adds a domain, and another asks for all counts. -/
def addAndCount : Bool → List Request
  | false => [.command "ADD_DOMAIN a NONE".toList]
  | true => [.command "COUNTS".toList]

/-- While the counts are read the insert waits, and no new reader may come in: somebody can move. -/
theorem no_deadlock_waitingWriter :
    ∃ ms x, Machine.Runs (threads MapOrder.entries Randomness.counting addAndCount (init 0)) ms x ∧
      .lock .glbMapMutex .shared ∈ (x.threads true).frames ∧
      (∃ k, (x.threads false).code = acquire .glbMapMutex .exclusive k) ∧
      ∃ u, Relation.ReflTransGen (x.Awaits (· = .glbMapMutex)) false u ∧ x.CanMove (· = .glbMapMutex) u := by
  have hadd : ∃ k, ((threads MapOrder.entries Randomness.counting addAndCount (init 0)).threads false).code
      = acquire .glbMapMutex .exclusive k := ⟨_, rfl⟩
  have hcount : ∃ k, ((threads MapOrder.entries Randomness.counting addAndCount (init 0)).threads true).code
      = acquire .glbMapMutex .shared k := ⟨_, rfl⟩
  obtain ⟨k, hadd⟩ := hadd
  obtain ⟨k', hcount⟩ := hcount
  have hrun := Machine.Runs.snoc Machine.Runs.nil (Machine.Moves.acquire hcount fun _ => List.not_mem_nil)
  have hwaits : (((threads MapOrder.entries Randomness.counting addAndCount (init 0)).put true
      ⟨k', [.lock .glbMapMutex .shared]⟩ (init 0)).threads false).code
      = acquire .glbMapMutex .exclusive k := hadd
  obtain ⟨hprogress, -⟩ := no_deadlock MapOrder.entries Randomness.counting hrun
  refine ⟨_, _, hrun, List.mem_cons_self, ⟨k, hadd⟩, hprogress _ ?_ false ?_⟩
  · rintro l rfl
    exact ⟨false, k, hwaits⟩
  · intro hdone
    exact absurd (hwaits.symm.trans hdone) (by simp)

end GlbBackend
