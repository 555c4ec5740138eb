import Mathlib.Tactic.Common
import Mathlib.Logic.Function.Basic

/-!
# Processes over a shared state: locks, scopes and atomic accesses

A small language for the code of one thread of a multithreaded program.  A `Proc L S σ α` is a tree
of the actions that a thread performs on a shared state `σ` before it returns an `α`: it acquires and
releases locks of type `L`, opens and closes lexical scopes labelled by `S`, and makes atomic accesses
to the state.  Everything between two actions is thread-local and needs no constructor.

One text has two readings:

* **alone** — `Proc.run` runs a process from start to end on a state nobody else touches;
* **among others** — `Proc.sect` runs exactly one *section*: from the present point up to the point
  where every lock and every scope opened on the way is closed again.  Interleaving semantics are
  built from it.

`Safe` is the rely/guarantee logic used for both: a process whose every access keeps an invariant and a
guarantee, whatever others do in between, keeps them in either reading.
`Accesses` bounds what the accesses of a process may change at all.
-/

namespace Concurrent

/-- How a reader/writer lock is held. -/
inductive Mode
  | shared
  | exclusive
  deriving DecidableEq, Repr

/-- The code of one thread, as a tree of its actions on the shared state. -/
inductive Proc (L S σ α : Type) : Type
  /-- The end, with a result. -/
  | ret (a : α)
  /-- Undefined behaviour: nothing is promised from here on. -/
  | fault
  | acquire (l : L) (m : Mode) (k : Proc L S σ α)
  | release (l : L) (k : Proc L S σ α)
  | enter (c : S) (k : Proc L S σ α)
  | leave (c : S) (k : Proc L S σ α)
  /-- One atomic access: the state becomes `f s` and the rest is chosen by the state `s` found. -/
  | atom (f : σ → σ) (k : σ → Proc L S σ α)

namespace Proc

variable {L S σ α β γ : Type}

/-! ### The monad -/

/-- Sequencing. -/
def bind : Proc L S σ α → (α → Proc L S σ β) → Proc L S σ β
  | ret a, q => q a
  | fault, _ => fault
  | acquire l m k, q => acquire l m (k.bind q)
  | release l k, q => release l (k.bind q)
  | enter c k, q => enter c (k.bind q)
  | leave c k, q => leave c (k.bind q)
  | atom f k, q => atom f fun s => (k s).bind q

instance : Monad (Proc L S σ) where
  pure := ret
  bind := bind

@[simp] theorem pure_eq (a : α) : (pure a : Proc L S σ α) = ret a := rfl

@[simp] theorem bind_eq (p : Proc L S σ α) (q : α → Proc L S σ β) : p >>= q = p.bind q := rfl

@[simp] theorem ret_bind (a : α) (q : α → Proc L S σ β) : (ret a).bind q = q a := rfl

@[simp] theorem fault_bind (q : α → Proc L S σ β) : (fault : Proc L S σ α).bind q = fault := rfl

@[simp] theorem bind_ret (p : Proc L S σ α) : p.bind ret = p := by
  induction p with
  | ret a => rfl
  | fault => rfl
  | acquire l m k ih => rw [bind, ih]
  | release l k ih => rw [bind, ih]
  | enter c k ih => rw [bind, ih]
  | leave c k ih => rw [bind, ih]
  | atom f k ih => rw [bind]; congr 1; funext s; exact ih s

theorem bind_assoc (p : Proc L S σ α) (q : α → Proc L S σ β) (r : β → Proc L S σ γ) :
    (p.bind q).bind r = p.bind fun a => (q a).bind r := by
  induction p with
  | ret a => rfl
  | fault => rfl
  | acquire l m k ih => simp only [bind, ih]
  | release l k ih => simp only [bind, ih]
  | enter c k ih => simp only [bind, ih]
  | leave c k ih => simp only [bind, ih]
  | atom f k ih => simp only [bind, ih]

/-! ### The actions as processes -/

/-- Read the whole state. -/
def read : Proc L S σ σ := atom id ret

/-- Change the state. -/
def modify (f : σ → σ) : Proc L S σ Unit := atom f fun _ => ret ()

/-- Change the state and return a value computed from the state found. -/
def access (f : σ → α × σ) : Proc L S σ α := atom (fun s => (f s).2) fun s => ret (f s).1

/-- A value that may be absent, absence being undefined behaviour. -/
def expect : Option α → Proc L S σ α
  | some a => ret a
  | none => fault

/-- The body runs with the lock held; the lock is released where the guard goes out of scope. -/
def guarded (l : L) (m : Mode) (body : Proc L S σ α) : Proc L S σ α :=
  acquire l m (body.bind fun a => release l (ret a))

/-- The body is a labelled lexical scope. -/
def scope (c : S) (body : Proc L S σ α) : Proc L S σ α :=
  enter c (body.bind fun a => leave c (ret a))

@[simp] theorem expect_some (a : α) : (expect (some a) : Proc L S σ α) = ret a := rfl

/-! ### Running alone -/

/-- Run to the end with no other thread about; `none` is undefined behaviour. -/
def run : Proc L S σ α → σ → Option (α × σ)
  | ret a, s => some (a, s)
  | fault, _ => none
  | acquire _ _ k, s => k.run s
  | release _ k, s => k.run s
  | enter _ k, s => k.run s
  | leave _ k, s => k.run s
  | atom f k, s => (k s).run (f s)

@[simp] theorem run_ret (a : α) (s : σ) : (ret a : Proc L S σ α).run s = some (a, s) := rfl

@[simp] theorem run_fault (s : σ) : (fault : Proc L S σ α).run s = none := rfl

@[simp] theorem run_acquire (l : L) (m : Mode) (k : Proc L S σ α) (s : σ) :
    (acquire l m k).run s = k.run s := rfl

@[simp] theorem run_release (l : L) (k : Proc L S σ α) (s : σ) :
    (release l k).run s = k.run s := rfl

@[simp] theorem run_enter (c : S) (k : Proc L S σ α) (s : σ) : (enter c k).run s = k.run s := rfl

@[simp] theorem run_leave (c : S) (k : Proc L S σ α) (s : σ) : (leave c k).run s = k.run s := rfl

@[simp] theorem run_atom (f : σ → σ) (k : σ → Proc L S σ α) (s : σ) :
    (atom f k).run s = (k s).run (f s) := rfl

/-- Sequencing runs one after the other. -/
@[simp] theorem run_bind (p : Proc L S σ α) (q : α → Proc L S σ β) (s : σ) :
    (p.bind q).run s = (p.run s).bind fun r => (q r.1).run r.2 := by
  induction p generalizing s with
  | ret a => rfl
  | fault => rfl
  | acquire l m k ih => exact ih s
  | release l k ih => exact ih s
  | enter c k ih => exact ih s
  | leave c k ih => exact ih s
  | atom f k ih => exact ih s (f s)

@[simp] theorem run_read (s : σ) : (read : Proc L S σ σ).run s = some (s, s) := rfl

@[simp] theorem run_modify (f : σ → σ) (s : σ) :
    (modify f : Proc L S σ Unit).run s = some ((), f s) := rfl

@[simp] theorem run_access (f : σ → α × σ) (s : σ) :
    (access f : Proc L S σ α).run s = some (f s) := rfl

@[simp] theorem run_guarded (l : L) (m : Mode) (p : Proc L S σ α) (s : σ) :
    (guarded l m p).run s = p.run s := by
  simp only [guarded, run_acquire, run_bind, run_release, run_ret]
  cases p.run s <;> rfl

@[simp] theorem run_scope (c : S) (p : Proc L S σ α) (s : σ) : (scope c p).run s = p.run s := by
  simp only [scope, run_enter, run_bind, run_leave, run_ret]
  cases p.run s <;> rfl

/-! ### Running one section -/

/-- A process that can still act. -/
def active : Proc L S σ α → Bool
  | ret _ => false
  | fault => false
  | _ => true

/-- Run one section, from a point where `d` brackets are open: the labels of the scopes entered, what
is left to run, and the new state. -/
def sect : ℕ → Proc L S σ α → σ → List S × Proc L S σ α × σ
  | _, ret a, s => ([], ret a, s)
  | _, fault, s => ([], fault, s)
  | d, acquire _ _ k, s => sect (d + 1) k s
  | d, release _ k, s => if d ≤ 1 then ([], k, s) else sect (d - 1) k s
  | d, enter c k, s => let r := sect (d + 1) k s; (c :: r.1, r.2)
  | d, leave _ k, s => if d ≤ 1 then ([], k, s) else sect (d - 1) k s
  | d, atom f k, s => if d = 0 then ([], k s, f s) else sect d (k s) (f s)

/-- From depth `d` every bracket is closed down to depth `e`, and none below the outermost. -/
def Ends (e : ℕ) : ℕ → Proc L S σ α → Prop
  | d, ret _ => d = e
  | _, fault => True
  | d, acquire _ _ k => Ends e (d + 1) k
  | d, release _ k => 0 < d ∧ Ends e (d - 1) k
  | d, enter _ k => Ends e (d + 1) k
  | d, leave _ k => 0 < d ∧ Ends e (d - 1) k
  | d, atom _ k => ∀ s, Ends e d (k s)

/-- Every bracket that is opened is closed, at any depth. -/
def Balanced (p : Proc L S σ α) : Prop := ∀ d, Ends d d p

theorem Ends.bind {e e' d : ℕ} {p : Proc L S σ α} {q : α → Proc L S σ β} (hp : Ends e d p)
    (hq : ∀ a, Ends e' e (q a)) : Ends e' d (p.bind q) := by
  induction p generalizing d with
  | ret a =>
      have hd : d = e := hp
      rw [hd]
      exact hq a
  | fault => trivial
  | acquire l m k ih => exact ih hp
  | release l k ih => exact ⟨hp.1, ih hp.2⟩
  | enter c k ih => exact ih hp
  | leave c k ih => exact ⟨hp.1, ih hp.2⟩
  | atom f k ih => exact fun s => ih s (hp s)

theorem Balanced.ret (a : α) : Balanced (ret a : Proc L S σ α) := fun _ => rfl

theorem Balanced.fault : Balanced (fault : Proc L S σ α) := fun _ => trivial

theorem Balanced.bind {p : Proc L S σ α} {q : α → Proc L S σ β} (hp : Balanced p)
    (hq : ∀ a, Balanced (q a)) : Balanced (p.bind q) :=
  fun d => (hp d).bind fun a => hq a d

theorem Balanced.atom {f : σ → σ} {k : σ → Proc L S σ α} (hk : ∀ s, Balanced (k s)) :
    Balanced (atom f k) :=
  fun d s => hk s d

theorem Balanced.read : Balanced (read : Proc L S σ σ) := Balanced.atom fun _ => Balanced.ret _

theorem Balanced.guarded {p : Proc L S σ α} (hp : Balanced p) (l : L) (m : Mode) :
    Balanced (guarded l m p) :=
  fun d => (hp (d + 1)).bind fun _ => ⟨Nat.succ_pos d, rfl⟩

theorem Balanced.scope {p : Proc L S σ α} (hp : Balanced p) (c : S) : Balanced (scope c p) :=
  fun d => (hp (d + 1)).bind fun _ => ⟨Nat.succ_pos d, rfl⟩

theorem Balanced.expect (o : Option α) : Balanced (expect o : Proc L S σ α) := by
  cases o with
  | none => exact Balanced.fault
  | some a => exact Balanced.ret a

/-- **Sections do not see what comes after.**  A section of a sequence is a section of its first part,
as long as that part has one to run. -/
theorem sect_bind {d : ℕ} {p : Proc L S σ α} (q : α → Proc L S σ β) (s : σ) (hp : Ends 0 d p)
    (ha : 0 < d ∨ p.active = true) :
    sect d (p.bind q) s = ((sect d p s).1, (sect d p s).2.1.bind q, (sect d p s).2.2) ∧
      Ends 0 0 (sect d p s).2.1 := by
  induction p generalizing d s with
  | ret a =>
      have hd : d = 0 := hp
      simp [hd, active] at ha
  | fault => exact ⟨rfl, trivial⟩
  | acquire l m k ih => exact ih s hp (Or.inl (Nat.succ_pos d))
  | release l k ih =>
      obtain ⟨h0, hk⟩ := hp
      simp only [bind, sect]
      by_cases h1 : d ≤ 1
      · have hd : d - 1 = 0 := by omega
        simp only [if_pos h1, true_and]
        rwa [hd] at hk
      · simp only [if_neg h1]
        exact ih s hk (Or.inl (by omega))
  | enter c k ih =>
      obtain ⟨h1, h2⟩ := ih s hp (Or.inl (Nat.succ_pos d))
      simp only [bind, sect, h1]
      exact ⟨trivial, h2⟩
  | leave c k ih =>
      obtain ⟨h0, hk⟩ := hp
      simp only [bind, sect]
      by_cases h1 : d ≤ 1
      · have hd : d - 1 = 0 := by omega
        simp only [if_pos h1, true_and]
        rwa [hd] at hk
      · simp only [if_neg h1]
        exact ih s hk (Or.inl (by omega))
  | atom f k ih =>
      simp only [bind, sect]
      by_cases h0 : d = 0
      · subst h0
        simp only [if_true, true_and]
        exact hp s
      · simp only [if_neg h0]
        exact ih s (f s) (hp s) (Or.inl (by omega))

/-! ### What an enclosed part does to a section -/

/-- The scopes a process enters when it runs alone. -/
def labels : Proc L S σ α → σ → List S
  | ret _, _ => []
  | fault, _ => []
  | acquire _ _ k, s => k.labels s
  | release _ k, s => k.labels s
  | enter c k, s => c :: k.labels s
  | leave _ k, s => k.labels s
  | atom f k, s => (k s).labels (f s)

/-- **A part inside a bracket is run to its end in one section**: if it faults so does the section, and
otherwise the section goes on with what follows. -/
theorem sect_enclosed {j : ℕ} {p : Proc L S σ α} (hp : Ends 0 j p) (q : α → Proc L S σ β) (s : σ) :
    match p.run s with
    | none => (sect (j + 1) (p.bind q) s).2.1 = fault
    | some (a, s') =>
        sect (j + 1) (p.bind q) s = (p.labels s ++ (sect 1 (q a) s').1, (sect 1 (q a) s').2) := by
  induction p generalizing j s with
  | ret a =>
      have hj : j = 0 := hp
      rw [hj]
      rfl
  | fault => rfl
  | acquire l m k ih => exact ih hp s
  | release l k ih =>
      obtain ⟨h0, hk⟩ := hp
      have hsect : sect (j + 1) ((release l k).bind q) s = sect (j - 1 + 1) (k.bind q) s := by
        rw [bind, sect, if_neg (by omega), Nat.sub_add_cancel h0, Nat.add_sub_cancel]
      rw [hsect]
      exact ih hk s
  | enter c k ih =>
      have hk := ih hp s
      rw [run_enter]
      cases hrun : k.run s with
      | none =>
          rw [hrun] at hk
          exact hk
      | some r =>
          rw [hrun] at hk
          simp only at hk ⊢
          rw [bind, sect, hk]
          rfl
  | leave c k ih =>
      obtain ⟨h0, hk⟩ := hp
      have hsect : sect (j + 1) ((leave c k).bind q) s = sect (j - 1 + 1) (k.bind q) s := by
        rw [bind, sect, if_neg (by omega), Nat.sub_add_cancel h0, Nat.add_sub_cancel]
      rw [hsect]
      exact ih hk s
  | atom f k ih =>
      have hsect : sect (j + 1) ((atom f k).bind q) s = sect (j + 1) ((k s).bind q) (f s) := by
        rw [bind, sect, if_neg (by omega)]
      rw [hsect]
      exact ih s (hp s) (f s)

/-- **A bracketed part, then the rest**: the first section is the part, run as it runs alone. -/
theorem sect_guarded_bind {l : L} {m : Mode} {p : Proc L S σ α} {a : α} {s s' : σ} (hp : Balanced p)
    (hrun : p.run s = some (a, s')) (q : α → Proc L S σ β) :
    sect 0 ((guarded l m p).bind q) s = (p.labels s, q a, s') := by
  have hbind : (guarded l m p).bind q = acquire l m (p.bind fun a => release l (q a)) := by
    show acquire l m ((p.bind fun a => release l (ret a)).bind q) = _
    rw [bind_assoc]
    rfl
  have hsect := sect_enclosed (hp 0) (fun a => release l (q a)) s
  rw [hrun] at hsect
  rw [hbind]
  show sect 1 (p.bind fun a => release l (q a)) s = (p.labels s, q a, s')
  rw [hsect]
  show (p.labels s ++ [], q a, s') = (p.labels s, q a, s')
  rw [List.append_nil]

/-! ### The accesses of a process -/

/-- Every access the process can make is one of `P`. -/
def Accesses (P : (σ → σ) → Prop) : Proc L S σ α → Prop
  | ret _ => True
  | fault => True
  | acquire _ _ k => Accesses P k
  | release _ k => Accesses P k
  | enter _ k => Accesses P k
  | leave _ k => Accesses P k
  | atom f k => P f ∧ ∀ s, Accesses P (k s)

section Accesses

variable {P : (σ → σ) → Prop}

theorem Accesses.bind {p : Proc L S σ α} {q : α → Proc L S σ β} (hp : Accesses P p)
    (hq : ∀ a, Accesses P (q a)) : Accesses P (p.bind q) := by
  induction p with
  | ret a => exact hq a
  | fault => trivial
  | acquire l m k ih => exact ih hp
  | release l k ih => exact ih hp
  | enter c k ih => exact ih hp
  | leave c k ih => exact ih hp
  | atom f k ih => exact ⟨hp.1, fun s => ih s (hp.2 s)⟩

theorem Accesses.guarded {p : Proc L S σ α} (hp : Accesses P p) (l : L) (m : Mode) :
    Accesses P (guarded l m p) :=
  Accesses.bind (p := p) hp fun _ => trivial

theorem Accesses.scope {p : Proc L S σ α} (hp : Accesses P p) (c : S) : Accesses P (scope c p) :=
  Accesses.bind (p := p) hp fun _ => trivial

theorem Accesses.expect (o : Option α) : Accesses P (expect o : Proc L S σ α) := by
  cases o <;> trivial

variable {G : σ → σ → Prop} (hP : ∀ f, P f → ∀ s, G s (f s)) (hrefl : ∀ s, G s s)
  (htrans : ∀ {s t u}, G s t → G t u → G s u)
include hP hrefl htrans

/-- A section changes the state as its accesses do. -/
theorem Accesses.sect {p : Proc L S σ α} (hp : Accesses P p) (d : ℕ) (s : σ) :
    G s (sect d p s).2.2 ∧ Accesses P (sect d p s).2.1 := by
  induction p generalizing d s with
  | ret a => exact ⟨hrefl s, trivial⟩
  | fault => exact ⟨hrefl s, trivial⟩
  | acquire l m k ih => exact ih hp (d + 1) s
  | release l k ih =>
      rw [Proc.sect]
      split
      · exact ⟨hrefl s, hp⟩
      · exact ih hp (d - 1) s
  | enter c k ih => exact ih hp (d + 1) s
  | leave c k ih =>
      rw [Proc.sect]
      split
      · exact ⟨hrefl s, hp⟩
      · exact ih hp (d - 1) s
  | atom f k ih =>
      rw [Proc.sect]
      split
      · exact ⟨hP f hp.1 s, hp.2 s⟩
      · obtain ⟨h1, h2⟩ := ih s (hp.2 s) d (f s)
        exact ⟨htrans (hP f hp.1 s) h1, h2⟩

/-- A whole run changes the state as its accesses do. -/
theorem Accesses.run {p : Proc L S σ α} (hp : Accesses P p) {s s' : σ} {a : α}
    (hrun : p.run s = some (a, s')) : G s s' := by
  induction p generalizing s with
  | ret b =>
      obtain ⟨-, rfl⟩ := Prod.mk.inj (Option.some.inj hrun)
      exact hrefl s
  | fault => exact absurd hrun (by simp)
  | acquire l m k ih => exact ih hp hrun
  | release l k ih => exact ih hp hrun
  | enter c k ih => exact ih hp hrun
  | leave c k ih => exact ih hp hrun
  | atom f k ih => exact htrans (hP f hp.1 s) (ih s (hp.2 s) hrun)

end Accesses

/-! ### The scopes of a process -/

/-- Every scope the process can enter is one of `C`. -/
def Enters (C : S → Prop) : Proc L S σ α → Prop
  | ret _ => True
  | fault => True
  | acquire _ _ k => Enters C k
  | release _ k => Enters C k
  | enter c k => C c ∧ Enters C k
  | leave _ k => Enters C k
  | atom _ k => ∀ s, Enters C (k s)

section Enters

variable {C : S → Prop}

theorem Enters.bind {p : Proc L S σ α} {q : α → Proc L S σ β} (hp : Enters C p)
    (hq : ∀ a, Enters C (q a)) : Enters C (p.bind q) := by
  induction p with
  | ret a => exact hq a
  | fault => trivial
  | acquire l m k ih => exact ih hp
  | release l k ih => exact ih hp
  | enter c k ih => exact ⟨hp.1, ih hp.2⟩
  | leave c k ih => exact ih hp
  | atom f k ih => exact fun s => ih s (hp s)

theorem Enters.guarded {p : Proc L S σ α} (hp : Enters C p) (l : L) (m : Mode) :
    Enters C (guarded l m p) :=
  Enters.bind (p := p) hp fun _ => trivial

theorem Enters.scope {p : Proc L S σ α} (hp : Enters C p) {c : S} (hc : C c) :
    Enters C (scope c p) :=
  ⟨hc, Enters.bind (p := p) hp fun _ => trivial⟩

theorem Enters.expect (o : Option α) : Enters C (expect o : Proc L S σ α) := by
  cases o <;> trivial

/-- The scopes a section enters are among them, and so are those of what it leaves. -/
theorem Enters.sect {p : Proc L S σ α} (hp : Enters C p) (d : ℕ) (s : σ) :
    (∀ c ∈ (sect d p s).1, C c) ∧ Enters C (sect d p s).2.1 := by
  induction p generalizing d s with
  | ret a => exact ⟨fun c hc => absurd hc List.not_mem_nil, trivial⟩
  | fault => exact ⟨fun c hc => absurd hc List.not_mem_nil, trivial⟩
  | acquire l m k ih => exact ih hp (d + 1) s
  | release l k ih =>
      rw [Proc.sect]
      split
      · exact ⟨fun c hc => absurd hc List.not_mem_nil, hp⟩
      · exact ih hp (d - 1) s
  | enter c k ih =>
      obtain ⟨h1, h2⟩ := ih hp.2 (d + 1) s
      refine ⟨fun c' hc' => ?_, h2⟩
      rcases List.mem_cons.mp hc' with rfl | hc'
      · exact hp.1
      · exact h1 c' hc'
  | leave c k ih =>
      rw [Proc.sect]
      split
      · exact ⟨fun c hc => absurd hc List.not_mem_nil, hp⟩
      · exact ih hp (d - 1) s
  | atom f k ih =>
      rw [Proc.sect]
      split
      · exact ⟨fun c hc => absurd hc List.not_mem_nil, hp s⟩
      · exact ih s (hp s) d (f s)

end Enters

/-! ### Invariants and guarantees -/

/-- Rely and guarantee, for a thread that last saw the state `h`.  Whatever the other threads do between
its accesses, as long as they keep `I` and change the state as `G` allows: every access of the process
keeps `I` and changes the state as `G` allows, the process never faults, and its result and the state it
last saw satisfy `Q`. -/
def Safe (I : σ → Prop) (G : σ → σ → Prop) (Q : α → σ → Prop) : σ → Proc L S σ α → Prop
  | h, ret a => Q a h
  | _, fault => False
  | h, acquire _ _ k => Safe I G Q h k
  | h, release _ k => Safe I G Q h k
  | h, enter _ k => Safe I G Q h k
  | h, leave _ k => Safe I G Q h k
  | h, atom f k => ∀ s, I s → G h s → I (f s) ∧ G s (f s) ∧ Safe I G Q (f s) (k s)

section Safe

variable {I : σ → Prop} {G : σ → σ → Prop} {Q : α → σ → Prop} {R : β → σ → Prop} {h : σ}

theorem Safe.bind {p : Proc L S σ α} {q : α → Proc L S σ β} (hp : Safe I G Q h p)
    (hq : ∀ a h', Q a h' → Safe I G R h' (q a)) : Safe I G R h (p.bind q) := by
  induction p generalizing h with
  | ret a => exact hq a h hp
  | fault => exact hp
  | acquire l m k ih => exact ih hp
  | release l k ih => exact ih hp
  | enter c k ih => exact ih hp
  | leave c k ih => exact ih hp
  | atom f k ih =>
      intro s hs hG
      obtain ⟨h1, h2, h3⟩ := hp s hs hG
      exact ⟨h1, h2, ih s h3⟩

theorem Safe.mono {Q' : α → σ → Prop} {p : Proc L S σ α} (hp : Safe I G Q h p)
    (hQ : ∀ a h', Q a h' → Q' a h') : Safe I G Q' h p := by
  rw [← bind_ret p]
  exact hp.bind hQ

theorem Safe.guarded {p : Proc L S σ α} (hp : Safe I G Q h p) (l : L) (m : Mode) :
    Safe I G Q h (guarded l m p) :=
  Safe.bind (p := p) hp fun _ _ ha => ha

theorem Safe.scope {p : Proc L S σ α} (hp : Safe I G Q h p) (c : S) : Safe I G Q h (scope c p) :=
  Safe.bind (p := p) hp fun _ _ ha => ha

theorem Safe.expect {o : Option α} {a : α} (ho : o = some a) (ha : Q a h) :
    Safe I G Q h (expect o : Proc L S σ α) := by
  rw [ho]
  exact ha

theorem Safe.read {Q : σ → σ → Prop} (hrefl : ∀ s, G s s) (hQ : ∀ s, I s → G h s → Q s s) :
    Safe I G Q h (read : Proc L S σ σ) :=
  fun s hs hG => ⟨hs, hrefl s, hQ s hs hG⟩

theorem Safe.modify {f : σ → σ} {Q : Unit → σ → Prop}
    (hf : ∀ s, I s → G h s → I (f s) ∧ G s (f s) ∧ Q () (f s)) :
    Safe I G Q h (modify f : Proc L S σ Unit) :=
  hf

variable (hrefl : ∀ s, G s s) (htrans : ∀ {s t u}, G s t → G t u → G s u)
include hrefl htrans

/-- **A section of a safe process** keeps the invariant, changes the state as the guarantee allows, and
leaves a safe process. -/
theorem Safe.sect {p : Proc L S σ α} (hp : Safe I G Q h p) (d : ℕ) {s : σ} (hs : I s) (hG : G h s) :
    I (sect d p s).2.2 ∧ G s (sect d p s).2.2 ∧
      ∃ h', G h' (sect d p s).2.2 ∧ Safe I G Q h' (sect d p s).2.1 := by
  induction p generalizing d s h with
  | ret a => exact ⟨hs, hrefl s, h, hG, hp⟩
  | fault => exact hp.elim
  | acquire l m k ih => exact ih hp (d + 1) hs hG
  | release l k ih =>
      rw [Proc.sect]
      split
      · exact ⟨hs, hrefl s, h, hG, hp⟩
      · exact ih hp (d - 1) hs hG
  | enter c k ih => exact ih hp (d + 1) hs hG
  | leave c k ih =>
      rw [Proc.sect]
      split
      · exact ⟨hs, hrefl s, h, hG, hp⟩
      · exact ih hp (d - 1) hs hG
  | atom f k ih =>
      obtain ⟨h1, h2, h3⟩ := hp s hs hG
      rw [Proc.sect]
      split
      · exact ⟨h1, h2, f s, hrefl _, h3⟩
      · obtain ⟨h4, h5, h6⟩ := ih s h3 d h1 (hrefl _)
        exact ⟨h4, htrans h2 h5, h6⟩

/-- **A safe process run alone** comes to its end, keeps the invariant and the guarantee, and its result
satisfies `Q` in a state that has only changed as the guarantee allows. -/
theorem Safe.run {p : Proc L S σ α} (hp : Safe I G Q h p) {s : σ} (hs : I s) (hG : G h s) :
    ∃ a s', p.run s = some (a, s') ∧ I s' ∧ G s s' ∧ ∃ h', G h' s' ∧ Q a h' := by
  induction p generalizing s h with
  | ret b => exact ⟨b, s, rfl, hs, hrefl s, h, hG, hp⟩
  | fault => exact hp.elim
  | acquire l m k ih => exact ih hp hs hG
  | release l k ih => exact ih hp hs hG
  | enter c k ih => exact ih hp hs hG
  | leave c k ih => exact ih hp hs hG
  | atom f k ih =>
      obtain ⟨h1, h2, h3⟩ := hp s hs hG
      obtain ⟨a, s', h4, h5, h6, h7⟩ := ih s h3 h1 (hrefl _)
      exact ⟨a, s', h4, h5, htrans h2 h6, h7⟩

end Safe

end Proc

end Concurrent
