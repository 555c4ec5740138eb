import GlbBackend.Concurrent.Process

/-!
# Policies: what code may do where

A point in the code of a thread is inside some brackets, the locks it holds and the scopes it has entered:
its *frames*, the innermost first.  A `Policy` says which bracket may be opened inside which frames, and
which accesses may be made there.  `P.Keeps K p` says that `p`, started inside the frames `K`, observes the
policy at every point, closes what it opens in reverse order and ends inside `K`.

`Keeps` follows the structure of a program text (`Keeps.bind`, `Keeps.guarded`, `Keeps.scope`), so one lemma
per function says what the function may do; that it is `Balanced`, which scopes it `Enters` and what its
`Accesses` are, can be read off (`Keeps.balanced`, `Keeps.enters`, `Keeps.accesses`).
-/

namespace Concurrent

open Proc

/-- A bracket that a thread is inside. -/
inductive Frame (L S : Type)
  | lock (l : L) (m : Mode)
  | scope (c : S)
  deriving DecidableEq

/-- What may be opened, and what may be accessed, inside which frames. -/
structure Policy (L S σ : Type) where
  admits : List (Frame L S) → Frame L S → Prop
  allows : List (Frame L S) → (σ → σ) → Prop

namespace Policy

variable {L S σ α β : Type} (P : Policy L S σ)

/-- From the frames of the second list, the code observes the policy, closes brackets in the reverse order
of their opening, and ends inside the frames of the first. -/
def Disciplined (K' : List (Frame L S)) : List (Frame L S) → Proc L S σ α → Prop
  | K, ret _ => K = K'
  | _, fault => True
  | K, acquire l m k => P.admits K (.lock l m) ∧ Disciplined K' (.lock l m :: K) k
  | K, release l k => ∃ m K₀, K = .lock l m :: K₀ ∧ Disciplined K' K₀ k
  | K, enter c k => P.admits K (.scope c) ∧ Disciplined K' (.scope c :: K) k
  | K, leave c k => ∃ K₀, K = .scope c :: K₀ ∧ Disciplined K' K₀ k
  | K, atom f k => P.allows K f ∧ ∀ s, Disciplined K' K (k s)

/-- The code observes the policy and ends inside the frames it started in. -/
def Keeps (K : List (Frame L S)) (p : Proc L S σ α) : Prop := P.Disciplined K K p

variable {P} {K K' : List (Frame L S)}

theorem Disciplined.bind {K₁ : List (Frame L S)} {p : Proc L S σ α} {q : α → Proc L S σ β}
    (hp : P.Disciplined K₁ K p) (hq : ∀ a, P.Disciplined K' K₁ (q a)) :
    P.Disciplined K' K (p.bind q) := by
  induction p generalizing K with
  | ret a =>
      have hK : K = K₁ := hp
      rw [hK]
      exact hq a
  | fault => trivial
  | acquire l m k ih => exact ⟨hp.1, ih hp.2⟩
  | release l k ih =>
      obtain ⟨m, K₀, hK, hk⟩ := hp
      exact ⟨m, K₀, hK, ih hk⟩
  | enter c k ih => exact ⟨hp.1, ih hp.2⟩
  | leave c k ih =>
      obtain ⟨K₀, hK, hk⟩ := hp
      exact ⟨K₀, hK, ih hk⟩
  | atom f k ih => exact ⟨hp.1, fun s => ih s (hp.2 s)⟩

/-! ### The rules of the text -/

theorem Keeps.ret (a : α) : P.Keeps K (ret a : Proc L S σ α) := rfl

theorem Keeps.bind {p : Proc L S σ α} {q : α → Proc L S σ β} (hp : P.Keeps K p)
    (hq : ∀ a, P.Keeps K (q a)) : P.Keeps K (p.bind q) :=
  Disciplined.bind hp hq

theorem Keeps.atom {f : σ → σ} {k : σ → Proc L S σ α} (hf : P.allows K f)
    (hk : ∀ s, P.Keeps K (k s)) : P.Keeps K (atom f k) :=
  ⟨hf, hk⟩

theorem Keeps.modify {f : σ → σ} (hf : P.allows K f) : P.Keeps K (modify f : Proc L S σ Unit) :=
  ⟨hf, fun _ => rfl⟩

theorem Keeps.expect (o : Option α) : P.Keeps K (expect o : Proc L S σ α) := by
  cases o with
  | none => exact trivial
  | some a => exact Keeps.ret a

theorem Keeps.guarded {l : L} {m : Mode} {p : Proc L S σ α} (hl : P.admits K (.lock l m))
    (hp : P.Keeps (.lock l m :: K) p) : P.Keeps K (guarded l m p) :=
  ⟨hl, Disciplined.bind (p := p) hp fun _ => ⟨m, K, rfl, rfl⟩⟩

theorem Keeps.scope {c : S} {p : Proc L S σ α} (hc : P.admits K (.scope c))
    (hp : P.Keeps (.scope c :: K) p) : P.Keeps K (scope c p) :=
  ⟨hc, Disciplined.bind (p := p) hp fun _ => ⟨K, rfl, rfl⟩⟩

/-! ### What can be read off -/

/-- Code that closes what it opens is balanced at any depth. -/
theorem Disciplined.ends {p : Proc L S σ α} (hp : P.Disciplined K' K p) (d : ℕ) :
    Ends (K'.length + d) (K.length + d) p := by
  induction p generalizing K with
  | ret a =>
      have hK : K = K' := hp
      rw [hK]
      rfl
  | fault => trivial
  | acquire l m k ih =>
      have hk := ih hp.2
      rwa [List.length_cons, Nat.add_right_comm] at hk
  | release l k ih =>
      obtain ⟨m, K₀, rfl, hk⟩ := hp
      have hd : (Frame.lock l m :: K₀).length + d - 1 = K₀.length + d := by
        rw [List.length_cons]
        omega
      refine ⟨by rw [List.length_cons]; omega, ?_⟩
      rw [hd]
      exact ih hk
  | enter c k ih =>
      have hk := ih hp.2
      rwa [List.length_cons, Nat.add_right_comm] at hk
  | leave c k ih =>
      obtain ⟨K₀, rfl, hk⟩ := hp
      have hd : (Frame.scope (L := L) c :: K₀).length + d - 1 = K₀.length + d := by
        rw [List.length_cons]
        omega
      refine ⟨by rw [List.length_cons]; omega, ?_⟩
      rw [hd]
      exact ih hk
  | atom f k ih => exact fun s => ih s (hp.2 s)

theorem Keeps.balanced {p : Proc L S σ α} (hp : P.Keeps [] p) : Balanced p := by
  intro d
  have h := Disciplined.ends hp d
  rwa [List.length_nil, Nat.zero_add] at h

/-- The scopes that the policy admits are all that the code enters. -/
theorem Disciplined.enters {C : S → Prop} (hC : ∀ K c, P.admits K (.scope c) → C c)
    {p : Proc L S σ α} (hp : P.Disciplined K' K p) : Enters C p := by
  induction p generalizing K with
  | ret a => trivial
  | fault => trivial
  | acquire l m k ih => exact ih hp.2
  | release l k ih =>
      obtain ⟨m, K₀, -, hk⟩ := hp
      exact ih hk
  | enter c k ih => exact ⟨hC K c hp.1, ih hp.2⟩
  | leave c k ih =>
      obtain ⟨K₀, -, hk⟩ := hp
      exact ih hk
  | atom f k ih => exact fun s => ih s (hp.2 s)

/-- The accesses that the policy allows are all that the code makes. -/
theorem Disciplined.accesses {A : (σ → σ) → Prop} (hA : ∀ K f, P.allows K f → A f)
    {p : Proc L S σ α} (hp : P.Disciplined K' K p) : Accesses A p := by
  induction p generalizing K with
  | ret a => trivial
  | fault => trivial
  | acquire l m k ih => exact ih hp.2
  | release l k ih =>
      obtain ⟨m, K₀, -, hk⟩ := hp
      exact ih hk
  | enter c k ih => exact ih hp.2
  | leave c k ih =>
      obtain ⟨K₀, -, hk⟩ := hp
      exact ih hk
  | atom f k ih => exact ⟨hA K f hp.1, fun s => ih s (hp.2 s)⟩

end Policy

end Concurrent
