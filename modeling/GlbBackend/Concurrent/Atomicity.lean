import GlbBackend.Concurrent.Accesses
import GlbBackend.Concurrent.Linearizability

/-!
# Why a section may be taken for one step

The interleaving of sections takes for granted that a section runs as a whole; a `Fine` run interleaves single accesses.
A section can be moved to one point of a run if, up to that point, it only reads, and reads nothing that others may
change meanwhile, and what it does from there on nobody else can see or disturb.

A `Protection` says what the first frame of a section protects (`sees`), which access may count inside which frames
(`allows`) and which may follow it (`follows`), such that whatever does not clash with a frame leaves alone what the
frame protects, and changes places with what may follow inside it.  Code `Reduces` if each of its sections reads what is
protected, then makes at most one access that counts, and then only accesses that may follow, whatever the state is.

The proof is a simulation.  A thread inside a section stands *before* the access that counts, and then the section, run
from its beginning in the present state, comes by where the thread is (`Reaches`); or it stands *after* it, and then the
section has been run, but the thread still owes the accesses that follow.  The run of sections is ahead of the fine run
by what the threads owe.  `FineRun.sections`: the calls and returns of every fine run are those of a run of sections.
-/

namespace Concurrent

open Proc

variable {T Op L S σ R α β : Type}

/-! ### Accesses one after the other -/

/-- The state after the accesses. -/
def play (fs : List (σ → σ)) (s : σ) : σ := fs.foldl (fun s f => f s) s

theorem play_append (fs gs : List (σ → σ)) (s : σ) : play (fs ++ gs) s = play gs (play fs s) := List.foldl_append

namespace Proc

/-- What a section leaves to run, from a point where `d` brackets are open, and the accesses on its way. -/
def way : ℕ → Proc L S σ α → σ → Proc L S σ α × List (σ → σ)
  | _, ret a, _ => (ret a, [])
  | _, fault, _ => (fault, [])
  | d, acquire _ _ k, s => way (d + 1) k s
  | d, release _ k, s => if d ≤ 1 then (k, []) else way (d - 1) k s
  | d, enter _ k, s => way (d + 1) k s
  | d, leave _ k, s => if d ≤ 1 then (k, []) else way (d - 1) k s
  | d, atom f k, s => if d = 0 then (k s, [f]) else let r := way d (k s) (f s); (r.1, f :: r.2)

/-- A section makes the accesses on its way. -/
theorem sect_way (d : ℕ) (p : Proc L S σ α) (s : σ) : (sect d p s).2 = ((way d p s).1, play (way d p s).2 s) := by
  induction p generalizing d s with
  | ret a => rfl
  | fault => rfl
  | acquire l m k ih => exact ih (d + 1) s
  | release l k ih =>
      rw [sect, way]
      split_ifs
      · rfl
      · exact ih (d - 1) s
  | enter c k ih => exact ih (d + 1) s
  | leave c k ih =>
      rw [sect, way]
      split_ifs
      · rfl
      · exact ih (d - 1) s
  | atom f k ih =>
      rw [sect, way]
      split_ifs
      · rfl
      · exact ih s d (f s)

end Proc

/-! ### What frames protect -/

/-- What a frame protects, and what may be accessed inside which frames, in which states. -/
structure Protection (L S σ : Type) where
  /-- The second state may stand in for the first, as far as the frame protects it. -/
  sees : Frame L S → σ → σ → Prop
  /-- The second state may come after the first. -/
  grows : σ → σ → Prop
  /-- An access that counts. -/
  allows : List (Frame L S) → (σ → σ) → σ → Prop
  /-- An access that may follow, in a section whose first frame this is. -/
  follows : Frame L S → (σ → σ) → σ → Prop
  refl : ∀ fr s, sees fr s s
  trans : ∀ {fr s₁ s₂ s₃}, sees fr s₁ s₂ → sees fr s₂ s₃ → sees fr s₁ s₃
  grows_refl : ∀ s, grows s s
  grows_trans : ∀ {s₁ s₂ s₃}, grows s₁ s₂ → grows s₂ s₃ → grows s₁ s₃
  allows_grows : ∀ {K f s}, allows K f s → grows s (f s)
  follows_grows : ∀ {fr g s}, follows fr g s → grows s (g s)
  /-- An access whose frames do not clash with a frame leaves alone what that one protects. -/
  spares : ∀ {K : List (Frame L S)} {f : σ → σ} {fr : Frame L S} {s : σ}, allows K f s → ¬ Clash fr K →
    sees fr s (f s)
  hides : ∀ {fr fr' : Frame L S} {g : σ → σ} {s : σ}, follows fr g s → ¬ Clash fr' [fr] → sees fr' s (g s)
  /-- What may follow inside a frame changes places with the accesses of others. -/
  passes : ∀ {K : List (Frame L S)} {f g : σ → σ} {fr : Frame L S} {s : σ}, follows fr g s → allows K f s →
    ¬ Clash fr K → f (g s) = g (f s) ∧ allows K f (g s) ∧ follows fr g (f s)
  swaps : ∀ {fr fr' : Frame L S} {g g' : σ → σ} {s : σ}, follows fr g s → follows fr' g' s → ¬ Clash fr [fr'] →
    g (g' s) = g' (g s) ∧ follows fr g (g' s)
  stays : ∀ {fr : Frame L S} {g g' : σ → σ} {s : σ}, follows fr g s → follows fr g' s → follows fr g (g' s)

/-- Each lock protects a view of the state, which only changes where it is held exclusively.  Nothing may follow. -/
def Protection.ofViews {V : Type} (view : L → σ → V) : Protection L S σ where
  sees fr s s' :=
    match fr with
    | .lock l _ => view l s' = view l s
    | .scope _ => True
  grows _ _ := True
  allows K f s := ∀ l, view l (f s) = view l s ∨ .lock l .exclusive ∈ K
  follows _ _ _ := False
  refl fr s := by
    cases fr with
    | lock l m => rfl
    | scope c => trivial
  trans {fr s₁ s₂ s₃} h₁ h₂ := by
    cases fr with
    | lock l m => exact h₂.trans h₁
    | scope c => trivial
  grows_refl _ := trivial
  grows_trans _ _ := trivial
  allows_grows _ := trivial
  follows_grows _ := trivial
  spares {K f fr s} hf hclash := by
    cases fr with
    | scope c => trivial
    | lock l m =>
        rcases hf l with hf | hheld
        · exact hf
        · cases m with
          | exclusive => exact absurd ⟨_, hheld⟩ hclash
          | shared => exact absurd hheld hclash
  hides h := h.elim
  passes h := h.elim
  swaps h := h.elim
  stays h := h.elim

/-- One lock protects the whole state.  Who holds it exclusively may go on with accesses of the kind `quiet`. -/
def Protection.whole [DecidableEq L] (l : L) (quiet : (σ → σ) → Prop) : Protection L S σ where
  sees fr s s' := ∀ m, fr = .lock l m → s' = s
  grows _ _ := True
  allows K f s := .lock l .exclusive ∈ K ∨ (∃ m, .lock l m ∈ K) ∧ f s = s
  follows fr g _ := fr = .lock l .exclusive ∧ quiet g
  refl _ _ _ _ := rfl
  trans h₁ h₂ m hm := (h₂ m hm).trans (h₁ m hm)
  grows_refl _ := trivial
  grows_trans _ _ := trivial
  allows_grows _ := trivial
  follows_grows _ := trivial
  spares {K f fr s} hf hclash m hm := by
    subst hm
    rcases hf with hheld | ⟨-, hf⟩
    · cases m with
      | exclusive => exact absurd ⟨_, hheld⟩ hclash
      | shared => exact absurd hheld hclash
    · exact hf
  hides {fr fr' g s} hg hclash m hm := by
    rw [hm, hg.1] at hclash
    cases m with
    | exclusive => exact absurd ⟨_, List.mem_singleton_self _⟩ hclash
    | shared => exact absurd (List.mem_singleton_self _) hclash
  passes {K f g fr s} hg hf hclash := by
    rw [hg.1] at hclash
    rcases hf with hheld | ⟨hheld, -⟩
    · exact absurd ⟨_, hheld⟩ hclash
    · exact absurd hheld hclash
  swaps {fr fr' g g' s} hg hg' hclash := by
    rw [hg.1, hg'.1] at hclash
    exact absurd ⟨_, List.mem_singleton_self _⟩ hclash
  stays hg _ := hg

/-- Where code stands, and what the state is known to satisfy there: outside every section; in one whose first frame is
`fr`, before the access that counts; or behind it. -/
inductive Phase (L S σ : Type)
  | outside (known : σ → Prop)
  | before (fr : Frame L S) (known : σ → Prop)
  | after (fr : Frame L S) (known : σ → Prop)

namespace Phase

def known : Phase L S σ → σ → Prop
  | outside known => known
  | before _ known => known
  | after _ known => known

/-- The phase after a frame was opened. -/
def opened (fr : Frame L S) : Phase L S σ → Phase L S σ
  | outside known => before fr known
  | before fr' known => before fr' known
  | after fr' known => after fr' known

/-- The phase after a frame was closed, where these are left; behind a section, what lasts is still known. -/
def closed (grows : σ → σ → Prop) (ph : Phase L S σ) : List (Frame L S) → Phase L S σ
  | [] => outside fun s' => ∃ s, ph.known s ∧ grows s s'
  | _ :: _ => ph

end Phase

namespace Protection

variable (P : Protection L S σ)

/-- In each section the code reads what is protected, then makes at most one access that counts, and then others that
may follow; and `Q` holds of what it returns and what is then known. -/
def ReducesTo (Q : α → (σ → Prop) → Prop) : Phase L S σ → List (Frame L S) → Proc L S σ α → Prop
  | ph, K, ret a => K = [] ∧ ∃ known, ph = .outside known ∧ Q a known
  | _, _, fault => True
  | ph, K, acquire l m k => ReducesTo Q (ph.opened (.lock l m)) (.lock l m :: K) k
  | ph, K, release l k => ∃ m K₀, K = .lock l m :: K₀ ∧ ReducesTo Q (ph.closed P.grows K₀) K₀ k
  | ph, K, enter c k => ReducesTo Q (ph.opened (.scope c)) (.scope c :: K) k
  | ph, K, leave c k => ∃ K₀, K = .scope c :: K₀ ∧ ReducesTo Q (ph.closed P.grows K₀) K₀ k
  | .outside known, K, atom f k =>
      K = [] ∧ ∀ s, known s → (∀ s', k s = k s') ∧ P.allows [] f s ∧ ReducesTo Q (.outside (P.grows (f s))) [] (k s)
  | .before fr known, K, atom f k =>
      (f = id ∧ ∀ s, known s → (∀ s', P.sees fr s s' → k s = k s') ∧
          ReducesTo Q (.before fr fun s' => known s' ∧ P.sees fr s s' ∧ P.grows s s') K (k s)) ∨
        (∀ s, known s → (∀ s', P.sees fr s s' → k s = k s') ∧ P.allows K f s ∧
          ReducesTo Q (.after fr (P.grows (f s))) K (k s))
  | .after fr known, K, atom g k =>
      (∀ s s', k s = k s') ∧ ∀ s, known s → P.follows fr g s ∧ ReducesTo Q (.after fr known) K (k s)

/-- The code reduces, whatever is known before. -/
def Reduces (p : Proc L S σ α) : Prop := ∀ known, P.ReducesTo (fun _ _ => True) (.outside known) [] p

variable {P} {ph : Phase L S σ} {K : List (Frame L S)} {Q : α → (σ → Prop) → Prop} {Q' : β → (σ → Prop) → Prop}

theorem ReducesTo.bind {p : Proc L S σ α} {q : α → Proc L S σ β} (hp : P.ReducesTo Q ph K p)
    (hq : ∀ a known, Q a known → P.ReducesTo Q' (.outside known) [] (q a)) : P.ReducesTo Q' ph K (p.bind q) := by
  induction p generalizing ph K with
  | ret a =>
      obtain ⟨rfl, known, rfl, ha⟩ := hp
      exact hq a known ha
  | fault => trivial
  | acquire l m k ih => exact ih hp
  | release l k ih =>
      obtain ⟨m, K₀, hK, hk⟩ := hp
      exact ⟨m, K₀, hK, ih hk⟩
  | enter c k ih => exact ih hp
  | leave c k ih =>
      obtain ⟨K₀, hK, hk⟩ := hp
      exact ⟨K₀, hK, ih hk⟩
  | atom f k ih =>
      have hsame : ∀ {s s'}, k s = k s' → (k s).bind q = (k s').bind q := fun h => by rw [h]
      match ph, hp with
      | .outside known, ⟨hK, hk⟩ =>
          exact ⟨hK, fun s hs => ⟨fun s' => hsame ((hk s hs).1 s'), (hk s hs).2.1, ih s (hk s hs).2.2⟩⟩
      | .before fr known, Or.inl ⟨hf, hk⟩ =>
          exact Or.inl ⟨hf, fun s hs => ⟨fun s' h => hsame ((hk s hs).1 s' h), ih s (hk s hs).2⟩⟩
      | .before fr known, Or.inr hk =>
          exact Or.inr fun s hs => ⟨fun s' h => hsame ((hk s hs).1 s' h), (hk s hs).2.1, ih s (hk s hs).2.2⟩
      | .after fr known, ⟨hconst, hk⟩ =>
          exact ⟨fun s s' => hsame (hconst s s'), fun s hs => ⟨(hk s hs).1, ih s (hk s hs).2⟩⟩

theorem Reduces.ret (a : α) : P.Reduces (ret a) := fun known => ⟨rfl, known, rfl, trivial⟩

theorem Reduces.bind {p : Proc L S σ α} {q : α → Proc L S σ β} (hp : P.Reduces p) (hq : ∀ a, P.Reduces (q a)) :
    P.Reduces (p.bind q) := fun known => (hp known).bind fun a known' _ => hq a known'

/-! ### A section that has been entered -/

/-- The section that starts with `q`, run alone in state `s`, comes by `p` inside the frames, and up to there it has only
read what is protected. -/
inductive Reaches (sees : σ → σ → Prop) (s : σ) (q : Proc L S σ α) : Proc L S σ α → List (Frame L S) → Prop
  | refl : Reaches sees s q q []
  | acquire {l : L} {m : Mode} {k : Proc L S σ α} {K : List (Frame L S)} (h : Reaches sees s q (acquire l m k) K) :
      Reaches sees s q k (.lock l m :: K)
  | release {l : L} {m : Mode} {k : Proc L S σ α} {K : List (Frame L S)}
      (h : Reaches sees s q (release l k) (.lock l m :: K)) (hK : K ≠ []) : Reaches sees s q k K
  | enter {c : S} {k : Proc L S σ α} {K : List (Frame L S)} (h : Reaches sees s q (enter c k) K) :
      Reaches sees s q k (.scope c :: K)
  | leave {c : S} {k : Proc L S σ α} {K : List (Frame L S)} (h : Reaches sees s q (leave c k) (.scope c :: K))
      (hK : K ≠ []) : Reaches sees s q k K
  | read {k : σ → Proc L S σ α} {K : List (Frame L S)} (h : Reaches sees s q (atom id k) K) (hK : K ≠ [])
      (hsees : ∀ s', sees s s' → k s = k s') : Reaches sees s q (k s) K

variable {sees : σ → σ → Prop} {s s' : σ} {q p : Proc L S σ α}

/-- What others do meanwhile does not show. -/
theorem Reaches.spared (htrans : ∀ {s₁ s₂ s₃}, sees s₁ s₂ → sees s₂ s₃ → sees s₁ s₃) (h : Reaches sees s q p K)
    (hs : sees s s') : Reaches sees s' q p K := by
  induction h with
  | refl => exact refl
  | acquire _ ih => exact ih.acquire
  | release _ hK ih => exact ih.release hK
  | enter _ ih => exact ih.enter
  | leave _ hK ih => exact ih.leave hK
  | read _ hK hsees ih =>
      rw [hsees s' hs]
      exact ih.read hK fun s'' hs' => (hsees s' hs).symm.trans (hsees s'' (htrans hs hs'))

/-- The rest of the section is what is left of it. -/
theorem Reaches.sect_eq (h : Reaches sees s q p K) : (sect 0 q s).2 = (sect K.length p s).2 := by
  induction h with
  | refl => rfl
  | acquire _ ih => exact ih
  | @release l m k K _ hK ih =>
      have hlen : ¬ (K.length + 1 ≤ 1) := by
        have := List.length_pos_iff.mpr hK
        omega
      rw [ih, List.length_cons, sect, if_neg hlen, Nat.add_sub_cancel]
  | enter _ ih => exact ih
  | @leave c k K _ hK ih =>
      have hlen : ¬ (K.length + 1 ≤ 1) := by
        have := List.length_pos_iff.mpr hK
        omega
      rw [ih, List.length_cons, sect, if_neg hlen, Nat.add_sub_cancel]
  | @read k K _ hK _ ih =>
      have hlen : ¬ (K.length = 0) := fun h => hK (List.length_eq_zero_iff.mp h)
      rw [ih, sect, if_neg hlen]
      rfl

theorem Reaches.active (h : Reaches sees s q p K) : (K = [] → p = q) ∧ (K ≠ [] → q.active = true) := by
  have hopen : ∀ {p : Proc L S σ α} {K : List (Frame L S)}, p.active = true →
      ((K = [] → p = q) ∧ (K ≠ [] → q.active = true)) → q.active = true := by
    intro p K hact h
    by_cases hK : K = []
    · rw [← h.1 hK]
      exact hact
    · exact h.2 hK
  induction h with
  | refl => exact ⟨fun _ => rfl, fun hK => absurd rfl hK⟩
  | acquire _ ih => exact ⟨fun hK => absurd hK (List.cons_ne_nil _ _), fun _ => hopen rfl ih⟩
  | release _ hK ih => exact ⟨fun h => absurd h hK, fun _ => ih.2 (List.cons_ne_nil _ _)⟩
  | enter _ ih => exact ⟨fun hK => absurd hK (List.cons_ne_nil _ _), fun _ => hopen rfl ih⟩
  | leave _ hK ih => exact ⟨fun h => absurd h hK, fun _ => ih.2 (List.cons_ne_nil _ _)⟩
  | read _ hK _ ih => exact ⟨fun h => absurd h hK, fun _ => ih.2 hK⟩

/-- Code behind its access only makes accesses that may follow, the same from every state. -/
theorem ReducesTo.closes {fr : Frame L S} {known : σ → Prop} (hp : P.ReducesTo Q (.after fr known) K p) (hK : K ≠ [])
    (hs : known s) :
    ∃ q own, (∀ s, way K.length p s = (q, own)) ∧ ∀ g ∈ own, ∀ s, known s → P.follows fr g s := by
  induction p generalizing K with
  | ret a =>
      obtain ⟨-, known', hph, -⟩ := hp
      cases hph
  | fault => exact ⟨fault, [], fun s => rfl, fun g hg => absurd hg List.not_mem_nil⟩
  | acquire l m k ih =>
      obtain ⟨q, own, hq, hown⟩ := ih hp (List.cons_ne_nil _ _)
      exact ⟨q, own, fun s => hq s, hown⟩
  | release l k ih =>
      obtain ⟨m, K₀, rfl, hk⟩ := hp
      cases K₀ with
      | nil => exact ⟨k, [], fun s => rfl, fun g hg => absurd hg List.not_mem_nil⟩
      | cons fr' K₀ =>
          obtain ⟨q, own, hq, hown⟩ := ih hk (List.cons_ne_nil _ _)
          exact ⟨q, own, fun s => hq s, hown⟩
  | enter c k ih =>
      obtain ⟨q, own, hq, hown⟩ := ih hp (List.cons_ne_nil _ _)
      exact ⟨q, own, fun s => hq s, hown⟩
  | leave c k ih =>
      obtain ⟨K₀, rfl, hk⟩ := hp
      cases K₀ with
      | nil => exact ⟨k, [], fun s => rfl, fun g hg => absurd hg List.not_mem_nil⟩
      | cons fr' K₀ =>
          obtain ⟨q, own, hq, hown⟩ := ih hk (List.cons_ne_nil _ _)
          exact ⟨q, own, fun s => hq s, hown⟩
  | atom g k ih =>
      obtain ⟨hconst, hk⟩ := hp
      obtain ⟨q, own, hq, hown⟩ := ih s (hk s hs).2 hK
      refine ⟨q, g :: own, fun s' => ?_, fun g' hg' s' hs' => ?_⟩
      · rw [way, if_neg fun h => hK (List.length_eq_zero_iff.mp h), hconst s' s, hq]
      · rcases List.mem_cons.mp hg' with rfl | hg'
        · exact (hk s' hs').1
        · exact hown g' hg' s' hs'

/-! ### Where a thread stands -/

/-- Where a thread stands, when `q` is what it has left in the run of sections, and `own` the accesses it owes. -/
inductive Stands (P : Protection L S σ) (s : σ) : Proc L S σ R → List (σ → σ) → Busy L S σ R → Prop
  | outside {p : Proc L S σ R} {known : σ → Prop} {Q : R → (σ → Prop) → Prop} (hknown : ∀ s', P.grows s s' → known s')
      (hp : P.ReducesTo Q (.outside known) [] p) : Stands P s p [] ⟨p, []⟩
  | before {q p : Proc L S σ R} {K : List (Frame L S)} {fr : Frame L S} {known : σ → Prop} {Q : R → (σ → Prop) → Prop}
      (hfr : K.getLast? = some fr) (hreach : Reaches (P.sees fr) s q p K)
      (hknown : ∀ s', P.sees fr s s' → P.grows s s' → known s') (hp : P.ReducesTo Q (.before fr known) K p) :
      Stands P s q [] ⟨p, K⟩
  | after {q p : Proc L S σ R} {own : List (σ → σ)} {K : List (Frame L S)} {fr : Frame L S} {known : σ → Prop}
      {Q : R → (σ → Prop) → Prop} (hfr : K.getLast? = some fr) (hclose : ∀ s, way K.length p s = (q, own))
      (hown : ∀ g ∈ own, P.follows fr g s) (hknown : ∀ s', P.grows s s' → known s')
      (hp : P.ReducesTo Q (.after fr known) K p) : Stands P s q own ⟨p, K⟩

/-- What an action of a thread comes to. -/
inductive Moves (P : Protection L S σ) (s : σ) (q : Proc L S σ R) (own : List (σ → σ)) (K : List (Frame L S))
    (B : Busy L S σ R) (s' : σ) : Prop
  /-- It does not show. -/
  | quiet (hs : s' = s) (h : P.Stands s q own B)
  /-- The section is run now, in whatever state the frames take for this one. -/
  | counts {f : σ → σ} {q' : Proc L S σ R} {own' : List (σ → σ)} (hown : own = []) (hactive : q.active = true)
      (hsect : ∀ a, (∀ fr ∈ K, P.sees fr s a) → (sect 0 q a).2 = (q', play own' (f a))) (hs : s' = f s)
      (hallowed : f = id ∨ P.allows K f s) (h : P.Stands s' q' own' B)
  /-- The section has been run, and the next of the accesses that were owed is made. -/
  | follows {fr : Frame L S} {g : σ → σ} {own' : List (σ → σ)} (hown : own = g :: own') (hfr : K.getLast? = some fr)
      (hg : P.follows fr g s) (hs : s' = g s) (h : P.Stands s' q own' B)

section Stands

variable {q : Proc L S σ R} {own : List (σ → σ)} {B B' : Busy L S σ R} {free : L → Mode → Prop}

/-- What others do leaves a thread where it stands. -/
theorem Stands.spared (h : P.Stands s q own B) (hs : ∀ fr ∈ B.frames, P.sees fr s s') (hgrows : P.grows s s')
    (hkept : ∀ fr ∈ B.frames, ∀ g ∈ own, P.follows fr g s → P.follows fr g s') : P.Stands s' q own B := by
  cases h with
  | outside hknown hp => exact .outside (fun s'' h => hknown s'' (P.grows_trans hgrows h)) hp
  | before hfr hreach hknown hp =>
      have hsees := hs _ (List.mem_of_getLast? hfr)
      exact .before hfr (hreach.spared P.trans hsees)
        (fun s'' h h' => hknown s'' (P.trans hsees h) (P.grows_trans hgrows h')) hp
  | after hfr hclose hown hknown hp =>
      exact .after hfr hclose (fun g hg => hkept _ (List.mem_of_getLast? hfr) g hg (hown g hg))
        (fun s'' h => hknown s'' (P.grows_trans hgrows h)) hp

/-- What a thread owes may follow in its section. -/
theorem Stands.owes (h : P.Stands s q own B) {g : σ → σ} (hg : g ∈ own) :
    ∃ fr, B.frames.getLast? = some fr ∧ P.follows fr g s := by
  cases h with
  | outside _ _ => exact absurd hg List.not_mem_nil
  | before _ _ _ _ => exact absurd hg List.not_mem_nil
  | after hfr _ hown _ _ => exact ⟨_, hfr, hown g hg⟩

/-- The frames of a bracket that is closed. -/
theorem getLast?_open {fr fr' : Frame L S} {K : List (Frame L S)} (h : K.getLast? = some fr) :
    (fr' :: K).getLast? = some fr := by
  rw [List.getLast?_cons, h]
  rfl

theorem ne_nil_of_getLast? {fr : Frame L S} {K : List (Frame L S)} (h : K.getLast? = some fr) : K ≠ [] := by
  intro hnil
  rw [hnil] at h
  cases h

/-- Opening a frame, whichever kind it is. -/
theorem Stands.open {p k : Proc L S σ R} {fr' : Frame L S} {K : List (Frame L S)} (h : P.Stands s q own ⟨p, K⟩)
    (hway : ∀ d s, way d p s = way (d + 1) k s) (hfirst : Reaches (P.sees fr') s p k [fr'])
    (hreaches : ∀ fr, Reaches (P.sees fr) s q p K → Reaches (P.sees fr) s q k (fr' :: K))
    (hk : ∀ {Q ph}, P.ReducesTo Q ph K p → P.ReducesTo Q (ph.opened fr') (fr' :: K) k) :
    P.Stands s q own ⟨k, fr' :: K⟩ := by
  cases h with
  | outside hknown hp => exact .before rfl hfirst (fun s' _ h => hknown s' h) (hk hp)
  | before hfr hreach hknown hp => exact .before (getLast?_open hfr) (hreaches _ hreach) hknown (hk hp)
  | after hfr hclose hown hknown hp =>
      exact .after (getLast?_open hfr) (fun s => (hway _ s).symm.trans (hclose s)) hown hknown (hk hp)

/-- Closing the innermost frame, whichever kind it is. -/
theorem Stands.close {p k : Proc L S σ R} {fr' : Frame L S} {K₀ : List (Frame L S)}
    (h : P.Stands s q own ⟨p, fr' :: K₀⟩)
    (hsect : ∀ d s, sect (d + 1) p s = if d + 1 ≤ 1 then ([], k, s) else sect d k s)
    (hway : ∀ d s, way (d + 1) p s = if d + 1 ≤ 1 then (k, []) else way d k s)
    (hreaches : ∀ fr, Reaches (P.sees fr) s q p (fr' :: K₀) → K₀ ≠ [] → Reaches (P.sees fr) s q k K₀)
    (hk : ∀ {Q ph}, P.ReducesTo Q ph (fr' :: K₀) p → P.ReducesTo Q (ph.closed P.grows K₀) K₀ k) :
    P.Moves s q own (fr' :: K₀) ⟨k, K₀⟩ s := by
  cases h with
  | @before _ _ fr _ _ hfr hreach hknown hp =>
      cases K₀ with
      | nil =>
          refine .counts rfl (hreach.active.2 (List.cons_ne_nil _ _)) (fun a ha => ?_) rfl (Or.inl rfl)
            (.outside (fun s' h => ⟨s, hknown s (P.refl _ s) (P.grows_refl s), h⟩) (hk hp))
          have hreach' : Reaches (P.sees fr) a q p [fr'] := hreach.spared P.trans (ha fr (List.mem_of_getLast? hfr))
          have hend := hreach'.sect_eq
          rwa [List.length_singleton, hsect 0 a, if_pos (Nat.le_refl 1)] at hend
      | cons fr'' K₁ =>
          rw [List.getLast?_cons_cons] at hfr
          exact .quiet rfl (.before hfr (hreaches _ hreach (List.cons_ne_nil _ _)) hknown (hk hp))
  | after hfr hclose hown hknown hp =>
      cases K₀ with
      | nil =>
          have hend := hclose s
          rw [List.length_singleton, hway 0 s, if_pos (Nat.le_refl 1)] at hend
          obtain ⟨rfl, rfl⟩ := Prod.mk.inj hend
          exact .quiet rfl (.outside (fun s' h => ⟨s, hknown s (P.grows_refl s), h⟩) (hk hp))
      | cons fr'' K₁ =>
          rw [List.getLast?_cons_cons] at hfr
          refine .quiet rfl (.after hfr (fun s => ?_) hown hknown (hk hp))
          have hend := hclose s
          have hlen : ¬ (K₁.length + 1 + 1 ≤ 1) := by omega
          rwa [List.length_cons, List.length_cons, hway, if_neg hlen] at hend

/-- Wherever a thread stands, its code keeps to the protection. -/
theorem Stands.reduces (h : P.Stands s q own B) : ∃ Q ph, P.ReducesTo Q ph B.frames B.code := by
  cases h with
  | outside _ hp => exact ⟨_, _, hp⟩
  | before _ _ _ hp => exact ⟨_, _, hp⟩
  | after _ _ _ _ hp => exact ⟨_, _, hp⟩

/-- An access to the state. -/
theorem Stands.access {f : σ → σ} {k : σ → Proc L S σ R} {K : List (Frame L S)} (h : P.Stands s q own ⟨atom f k, K⟩) :
    P.Moves s q own K ⟨k s, K⟩ (f s) := by
  cases h with
  | outside hknown hp =>
      obtain ⟨hconst, hf, hk⟩ := hp.2 s (hknown s (P.grows_refl s))
      refine .counts rfl rfl (fun a _ => ?_) rfl (Or.inr hf) (.outside (fun s' h => h) hk)
      show (k a, f a) = (k s, f a)
      rw [hconst a]
  | @before _ _ fr _ _ hfr hreach hknown hp =>
      have hK := ne_nil_of_getLast? hfr
      have hs := hknown s (P.refl _ s) (P.grows_refl s)
      rcases hp with ⟨rfl, hk⟩ | hk
      · obtain ⟨hsees, hk⟩ := hk s hs
        exact .quiet rfl (.before hfr (hreach.read hK hsees) (fun s' h h' => ⟨hknown s' h h', h, h'⟩) hk)
      · -- the access that counts: the section is run here
        obtain ⟨hsees, hf, hk⟩ := hk s hs
        obtain ⟨q', own', hclose, hfollows⟩ := hk.closes hK (P.grows_refl (f s))
        refine .counts rfl (hreach.active.2 hK) (fun a ha => ?_) rfl (Or.inr hf)
          (.after hfr hclose (fun g hg => hfollows g hg (f s) (P.grows_refl (f s))) (fun s' h => h) hk)
        have hsees' := ha fr (List.mem_of_getLast? hfr)
        have hreach' : Reaches (P.sees fr) a q (atom f k) K := hreach.spared P.trans hsees'
        rw [hreach'.sect_eq, sect, if_neg fun h => hK (List.length_eq_zero_iff.mp h), sect_way,
          ← hsees a hsees', hclose]
  | after hfr hclose hown hknown hp =>
      -- an access that was owed
      have hK := ne_nil_of_getLast? hfr
      obtain ⟨hconst, hk⟩ := hp
      obtain ⟨hg, hk⟩ := hk s (hknown s (P.grows_refl s))
      have hgrows := P.follows_grows hg
      obtain ⟨q', own', hclose', hfollows⟩ := hk.closes hK (hknown (f s) hgrows)
      have hend := hclose s
      rw [way, if_neg fun h => hK (List.length_eq_zero_iff.mp h), hclose'] at hend
      obtain ⟨rfl, rfl⟩ := Prod.mk.inj hend
      exact .follows rfl hfr hg rfl
        (.after hfr hclose' (fun g' hg' => hfollows g' hg' (f s) (hknown (f s) hgrows))
          (fun s' h => hknown s' (P.grows_trans hgrows h)) hk)

/-- **One action.**  Either it does not show, or the thread's section is run now, or it has been run and the action was
owed. -/
theorem Stands.act [DecidableEq L] [DecidableEq S] (h : P.Stands s q own B) (hact : Acts free B s B' s') :
    P.Moves s q own B.frames B' s' := by
  cases hact with
  | acquire hfree =>
      exact .quiet rfl (h.open (fun d s => rfl) Reaches.refl.acquire (fun fr hreach => hreach.acquire) fun hp => hp)
  | @release l k K _ =>
      obtain ⟨_, _, m, K₀, hK, -⟩ := h.reduces
      have hK : K = .lock l m :: K₀ := hK
      subst hK
      rw [List.eraseP_cons_of_pos (Frame.isLock_lock l m)]
      refine h.close (fun d s => rfl) (fun d s => rfl) (fun fr hreach hK => hreach.release hK) fun hp => ?_
      obtain ⟨m', K₀', hK, hk⟩ := hp
      obtain ⟨-, rfl⟩ := List.cons.inj hK
      exact hk
  | enter =>
      exact .quiet rfl (h.open (fun d s => rfl) Reaches.refl.enter (fun fr hreach => hreach.enter) fun hp => hp)
  | @leave c k K _ =>
      obtain ⟨_, _, K₀, hK, -⟩ := h.reduces
      have hK : K = .scope c :: K₀ := hK
      subst hK
      rw [List.eraseP_cons_of_pos (Frame.isScope_scope c)]
      refine h.close (fun d s => rfl) (fun d s => rfl) (fun fr hreach hK => hreach.leave hK) fun hp => ?_
      obtain ⟨K₀', hK, hk⟩ := hp
      obtain ⟨-, rfl⟩ := List.cons.inj hK
      exact hk
  | access => exact h.access

end Stands

/-! ### What the threads owe -/

/-- The accesses that thread `t` owes, of all that are owed. -/
def owedBy [DecidableEq T] (owed : List (T × (σ → σ))) (t : T) : List (σ → σ) :=
  (owed.filter fun x => x.1 = t).map Prod.snd

/-- The state once all that is owed has been done. -/
def settle (owed : List (T × (σ → σ))) (s : σ) : σ := play (owed.map Prod.snd) s

/-- Who owes an access is inside the frame in which it may follow. -/
def Owes (P : Protection L S σ) (f : Fine T L S σ R) (owed : List (T × (σ → σ))) (s : σ) : Prop :=
  ∀ x ∈ owed, ∃ fr, (f.frames x.1).getLast? = some fr ∧ P.follows fr x.2 s

section Owed

variable {f : Fine T L S σ R} {owed : List (T × (σ → σ))} {t : T}

theorem settle_append (owed owed' : List (T × (σ → σ))) (s : σ) :
    settle (owed ++ owed') s = settle owed' (settle owed s) := by
  rw [settle, List.map_append, play_append]
  rfl

/-- The first frames of two threads do not clash. -/
theorem not_clash_of_keptApart (hapart : f.KeptApart) {u : T} (htu : t ≠ u) {fr fr' : Frame L S}
    (hfr : fr ∈ f.frames t) (hfr' : (f.frames u).getLast? = some fr') : ¬ Clash fr [fr'] := by
  intro hclash
  refine hapart t u htu fr hfr (hclash.mono fun fr'' h => ?_)
  rw [List.mem_singleton.mp h]
  exact List.mem_of_getLast? hfr'

/-- When one access that is owed is made, the others are still owed. -/
theorem Owes.made (hapart : f.KeptApart) {x : T × (σ → σ)} (howes : P.Owes f (x :: owed) s) :
    P.Owes f owed (x.2 s) := by
  intro y hy
  obtain ⟨fr, hfr, hx⟩ := howes x List.mem_cons_self
  obtain ⟨fr', hfr', hy'⟩ := howes y (List.mem_cons_of_mem _ hy)
  refine ⟨fr', hfr', ?_⟩
  by_cases hyx : y.1 = x.1
  · rw [hyx, hfr] at hfr'
    cases hfr'
    exact P.stays hy' hx
  · exact (P.swaps hy' hx (not_clash_of_keptApart hapart hyx (List.mem_of_getLast? hfr') hfr)).2

/-- Nobody sees what others owe. -/
theorem Owes.unseen (hapart : f.KeptApart) (howes : P.Owes f owed s) (ht : ∀ x ∈ owed, x.1 ≠ t) {fr : Frame L S}
    (hfr : fr ∈ f.frames t) : P.sees fr s (settle owed s) := by
  induction owed generalizing s with
  | nil => exact P.refl fr s
  | cons x owed ih =>
      obtain ⟨fr', hfr', hx⟩ := howes x List.mem_cons_self
      have hne : t ≠ x.1 := (ht x List.mem_cons_self).symm
      exact P.trans (P.hides hx (not_clash_of_keptApart hapart hne hfr hfr'))
        (ih (howes.made hapart) fun y hy => ht y (List.mem_cons_of_mem _ hy))

/-- An access that counts may be made before what others owe. -/
theorem Owes.passes (hapart : f.KeptApart) (howes : P.Owes f owed s) (ht : ∀ x ∈ owed, x.1 ≠ t) {g : σ → σ}
    (hg : P.allows (f.frames t) g s) : g (settle owed s) = settle owed (g s) := by
  induction owed generalizing s with
  | nil => rfl
  | cons x owed ih =>
      obtain ⟨fr, hfr, hx⟩ := howes x List.mem_cons_self
      have hclash := hapart x.1 t (ht x List.mem_cons_self) fr (List.mem_of_getLast? hfr)
      obtain ⟨hswap, hg', -⟩ := P.passes hx hg hclash
      show g (settle owed (x.2 s)) = settle owed (x.2 (g s))
      rw [ih (howes.made hapart) (fun y hy => ht y (List.mem_cons_of_mem _ hy)) hg', hswap]

/-- The first access that a thread owes may be made first of all. -/
theorem Owes.front (hapart : f.KeptApart) {before after : List (T × (σ → σ))} {x : T × (σ → σ)}
    (howes : P.Owes f (before ++ x :: after) s) (hbefore : ∀ y ∈ before, y.1 ≠ x.1) :
    settle (before ++ x :: after) s = settle (before ++ after) (x.2 s) := by
  induction before generalizing s with
  | nil => rfl
  | cons y before ih =>
      obtain ⟨fr, hfr, hx⟩ := howes x (by simp)
      obtain ⟨fr', hfr', hy⟩ := howes y List.mem_cons_self
      have hne : x.1 ≠ y.1 := (hbefore y List.mem_cons_self).symm
      have hswap := (P.swaps hx hy (not_clash_of_keptApart hapart hne (List.mem_of_getLast? hfr) hfr')).1
      show settle (before ++ x :: after) (y.2 s) = settle (before ++ after) (y.2 (x.2 s))
      rw [ih (howes.made hapart) fun z hz => hbefore z (List.mem_cons_of_mem _ hz), hswap]

variable [DecidableEq T]

theorem mem_owedBy {x : T × (σ → σ)} (hx : x ∈ owed) : x.2 ∈ owedBy owed x.1 :=
  List.mem_map_of_mem (List.mem_filter.mpr ⟨hx, decide_eq_true rfl⟩)

theorem owedBy_append (owed owed' : List (T × (σ → σ))) (t : T) :
    owedBy (owed ++ owed') t = owedBy owed t ++ owedBy owed' t := by
  rw [owedBy, List.filter_append, List.map_append]
  rfl

theorem owedBy_eq_nil_iff : owedBy owed t = [] ↔ ∀ x ∈ owed, x.1 ≠ t := by
  simp [owedBy]

theorem owedBy_map (own : List (σ → σ)) (t u : T) : owedBy (own.map fun g => (t, g)) u = if u = t then own else [] := by
  by_cases hut : u = t
  · rw [if_pos hut, hut, owedBy, List.filter_eq_self.mpr (by simp), List.map_map]
    exact List.map_id own
  · rw [if_neg hut, owedBy_eq_nil_iff]
    intro x hx
    obtain ⟨g, -, rfl⟩ := List.mem_map.mp hx
    exact Ne.symm hut

/-- Where the first access that a thread owes stands. -/
theorem exists_of_owedBy {g : σ → σ} {own : List (σ → σ)} (h : owedBy owed t = g :: own) :
    ∃ before after, owed = before ++ (t, g) :: after ∧ (∀ y ∈ before, y.1 ≠ t) ∧ owedBy after t = own := by
  obtain ⟨x, rest, hfilter, rfl, hrest⟩ := List.map_eq_cons_iff.mp h
  obtain ⟨before, after, rfl, hbefore, hx, hafter⟩ := List.filter_eq_cons_iff.mp hfilter
  refine ⟨before, after, ?_, fun y hy hyt => hbefore y hy (decide_eq_true hyt), ?_⟩
  · rw [← of_decide_eq_true hx]
  · rw [owedBy, hafter, hrest]

end Owed

/-! ### The simulation -/

/-- The run of sections has come as far as the fine run, and ahead of it by what is owed. -/
structure Simulates [DecidableEq T] (P : Protection L S σ) (f : Fine T L S σ R) (owed : List (T × (σ → σ)))
    (c : Config T L S σ R) : Prop where
  shared : c.shared = settle owed f.shared
  finished : c.finished = f.finished
  apart : f.KeptApart
  idle : ∀ t, f.running t = none → c.running t = none ∧ owedBy owed t = []
  stands : ∀ t B, f.running t = some B → ∃ q, c.running t = some q ∧ P.Stands f.shared q (owedBy owed t) B

section Simulates

variable [DecidableEq T] {f : Fine T L S σ R} {owed : List (T × (σ → σ))} {c : Config T L S σ R} {t : T}

theorem Simulates.owes (h : P.Simulates f owed c) : P.Owes f owed f.shared := by
  intro x hx
  cases hrun : f.running x.1 with
  | none => exact absurd rfl (owedBy_eq_nil_iff.mp (h.idle x.1 hrun).2 x hx)
  | some B =>
      obtain ⟨q, -, hstands⟩ := h.stands x.1 B hrun
      obtain ⟨fr, hfr, hfollows⟩ := hstands.owes (mem_owedBy hx)
      refine ⟨fr, ?_, hfollows⟩
      rw [Fine.frames, hrun]
      exact hfr

/-- When no thread runs nothing is owed. -/
theorem Simulates.settled (h : P.Simulates f owed c) (hidle : ∀ t, f.running t = none) : c.shared = f.shared := by
  have hnil : owed = [] := List.eq_nil_iff_forall_not_mem.mpr fun x hx =>
    owedBy_eq_nil_iff.mp (h.idle x.1 (hidle x.1)).2 x hx rfl
  rw [h.shared, hnil]
  rfl

theorem Simulates.invoke (h : P.Simulates f owed c) {p : Proc L S σ R} {known : σ → Prop}
    {Q : R → (σ → Prop) → Prop} (hidle : f.running t = none) (hknown : ∀ s, P.grows f.shared s → known s)
    (hp : P.ReducesTo Q (.outside known) [] p) :
    P.Simulates (f.become t (some ⟨p, []⟩) f.shared) owed (c.invoked t p) where
  shared := h.shared
  finished := h.finished
  apart := by
    refine h.apart.update (t := t) (fun u hu => by rw [Fine.become_frames, if_neg hu]) fun fr hfr => ?_
    rw [Fine.become_frames, if_pos rfl] at hfr
    cases hfr
  idle u hu := by
    rw [Fine.become_running] at hu
    rw [Config.invoked_running]
    split_ifs at hu ⊢
    exact h.idle u hu
  stands u B hu := by
    rw [Fine.become_running] at hu
    rw [Config.invoked_running]
    split_ifs at hu ⊢ with hut
    · cases hu
      rw [hut, (h.idle t hidle).2]
      exact ⟨p, rfl, .outside hknown hp⟩
    · exact h.stands u B hu

theorem Simulates.respond (h : P.Simulates f owed c) {r : R} {K : List (Frame L S)}
    (hdone : f.running t = some ⟨ret r, K⟩) :
    c.running t = some (ret r) ∧ P.Simulates (f.responded t) owed (c.responded t) := by
  obtain ⟨q, hq, hstands⟩ := h.stands t _ hdone
  obtain ⟨hret, hown⟩ : q = ret r ∧ owedBy owed t = [] := by
    generalize owedBy owed t = own at hstands
    cases hstands with
    | outside _ hp => exact ⟨rfl, rfl⟩
    | before _ _ _ hp =>
        obtain ⟨-, known, hph, -⟩ := hp
        cases hph
    | after _ _ _ _ hp =>
        obtain ⟨-, known, hph, -⟩ := hp
        cases hph
  rw [hret] at hq
  refine ⟨hq, h.shared, ?_, ?_, fun u hu => ?_, fun u B hu => ?_⟩
  · show Function.update c.finished t (c.finished t + 1) = Function.update f.finished t (f.finished t + 1)
    rw [h.finished]
  · refine h.apart.update (t := t) (fun u hu => by rw [Fine.responded_frames, if_neg hu]) fun fr hfr => ?_
    rw [Fine.responded_frames, if_pos rfl] at hfr
    cases hfr
  · rw [Fine.responded_running] at hu
    rw [Config.responded_running]
    split_ifs at hu ⊢ with hut
    · exact ⟨rfl, by rw [hut, hown]⟩
    · exact h.idle u hu
  · rw [Fine.responded_running] at hu
    rw [Config.responded_running]
    split_ifs at hu ⊢
    exact h.stands u B hu

/-- What another thread does in its frames leaves thread `u` where it stands. -/
theorem Simulates.others (h : P.Simulates f owed c) {u : T} (hut : u ≠ t) {B : Busy L S σ R} {s : σ}
    (hu : f.running u = some B) {q : Proc L S σ R} {own : List (σ → σ)} (hstands : P.Stands f.shared q own B)
    {g : σ → σ} (hg : g = id ∨ P.allows (f.frames t) g f.shared ∨
      ∃ fr, (f.frames t).getLast? = some fr ∧ P.follows fr g f.shared) (hs : s = g f.shared) :
    P.Stands s q own B := by
  have hframes : f.frames u = B.frames := by
    rw [Fine.frames, hu]
    rfl
  rw [hs]
  rcases hg with rfl | hg | ⟨fr', hfr', hg⟩
  · exact hstands
  · have hclash : ∀ fr ∈ B.frames, ¬ Clash fr (f.frames t) := fun fr hfr => h.apart u t hut fr (hframes ▸ hfr)
    exact hstands.spared (fun fr hfr => P.spares hg (hclash fr hfr)) (P.allows_grows hg)
      fun fr hfr g' _ hg' => (P.passes hg' hg (hclash fr hfr)).2.2
  · have hclash : ∀ fr ∈ B.frames, ¬ Clash fr [fr'] := fun fr hfr =>
      not_clash_of_keptApart h.apart hut (hframes ▸ hfr) hfr'
    exact hstands.spared (fun fr hfr => P.hides hg (hclash fr hfr)) (P.follows_grows hg)
      fun fr hfr g' _ hg' => (P.swaps hg' hg (hclash fr hfr)).2

/-- A thread has made an action, and the run of sections has gone along. -/
theorem Simulates.moved (h : P.Simulates f owed c) {B' : Busy L S σ R} {s : σ} {owed' : List (T × (σ → σ))}
    {c' : Config T L S σ R} {g : σ → σ} (hs : s = g f.shared)
    (hg : g = id ∨ P.allows (f.frames t) g f.shared ∨
      ∃ fr, (f.frames t).getLast? = some fr ∧ P.follows fr g f.shared)
    (hapart : (f.become t (some B') s).KeptApart) (hshared : c'.shared = settle owed' s)
    (hfinished : c'.finished = c.finished)
    (hself : ∃ q, c'.running t = some q ∧ P.Stands s q (owedBy owed' t) B')
    (hrunning : ∀ u, u ≠ t → c'.running u = c.running u) (howed : ∀ u, u ≠ t → owedBy owed' u = owedBy owed u) :
    P.Simulates (f.become t (some B') s) owed' c' where
  shared := hshared
  finished := hfinished.trans h.finished
  apart := hapart
  idle u hu := by
    rw [Fine.become_running] at hu
    split_ifs at hu with hut
    rw [hrunning u hut, howed u hut]
    exact h.idle u hu
  stands u B hu := by
    rw [Fine.become_running] at hu
    split_ifs at hu with hut
    · cases hu
      rw [hut]
      exact hself
    · obtain ⟨q, hq, hstands⟩ := h.stands u B hu
      rw [hrunning u hut, howed u hut]
      exact ⟨q, hq, h.others hut hu hstands hg hs⟩

/-- The section of a thread that owes nothing is run. -/
theorem Simulates.runs (h : P.Simulates f owed c) {B B' : Busy L S σ R} {q q' : Proc L S σ R} {g : σ → σ}
    {own : List (σ → σ)} (hframes : f.frames t = B.frames)
    (hapart : (f.become t (some B') (g f.shared)).KeptApart) (hown : owedBy owed t = [])
    (hsect : ∀ a, (∀ fr ∈ B.frames, P.sees fr f.shared a) → (sect 0 q a).2 = (q', play own (g a)))
    (hallowed : g = id ∨ P.allows B.frames g f.shared) (hstands : P.Stands (g f.shared) q' own B') :
    P.Simulates (f.become t (some B') (g f.shared)) (owed ++ own.map fun g => (t, g)) (c.advanced t q) := by
  have hnone : ∀ x ∈ owed, x.1 ≠ t := owedBy_eq_nil_iff.mp hown
  have hend : (sect 0 q c.shared).2 = (q', play own (g c.shared)) := by
    refine hsect c.shared fun fr hfr => ?_
    rw [h.shared]
    exact h.owes.unseen h.apart hnone (hframes ▸ hfr)
  have hpasses : g c.shared = settle owed (g f.shared) := by
    rw [h.shared]
    rcases hallowed with rfl | hg
    · rfl
    · exact h.owes.passes h.apart hnone (hframes ▸ hg)
  refine h.moved rfl (hallowed.imp_right fun hg => Or.inl (hframes ▸ hg)) hapart ?_ rfl ⟨q', ?_, ?_⟩
    (fun u hut => ?_) fun u hut => ?_
  · show (sect 0 q c.shared).2.2 = _
    rw [hend, hpasses, settle_append]
    show play own _ = play ((own.map fun g => (t, g)).map Prod.snd) _
    rw [List.map_map]
    exact congrArg (play · _) (List.map_id own).symm
  · rw [Config.advanced_running, if_pos rfl, rest, hend]
  · rw [owedBy_append, owedBy_map, if_pos rfl, hown]
    exact hstands
  · rw [Config.advanced_running, if_neg hut]
  · rw [owedBy_append, owedBy_map, if_neg hut, List.append_nil]

/-- An access that was owed is made. -/
theorem Simulates.pays (h : P.Simulates f owed c) {B' : Busy L S σ R} {q : Proc L S σ R} {fr : Frame L S} {g : σ → σ}
    {own : List (σ → σ)} (hapart : (f.become t (some B') (g f.shared)).KeptApart) (hown : owedBy owed t = g :: own)
    (hfr : (f.frames t).getLast? = some fr) (hg : P.follows fr g f.shared) (hq : c.running t = some q)
    (hstands : P.Stands (g f.shared) q own B') :
    ∃ owed', P.Simulates (f.become t (some B') (g f.shared)) owed' c := by
  obtain ⟨before, after, rfl, hbefore, hafter⟩ := exists_of_owedBy hown
  have hself : owedBy (before ++ after) t = own := by
    rw [owedBy_append, owedBy_eq_nil_iff.mpr hbefore, List.nil_append, hafter]
  refine ⟨before ++ after, h.moved rfl (Or.inr (Or.inr ⟨fr, hfr, hg⟩)) hapart (h.shared.trans ?_) rfl
    ⟨q, hq, hself ▸ hstands⟩ (fun _ _ => rfl) fun u hut => ?_⟩
  · exact h.owes.front h.apart hbefore
  · rw [← List.singleton_append, owedBy_append, owedBy_append, owedBy_append,
      owedBy_eq_nil_iff.mpr (List.forall_mem_singleton.mpr hut.symm), List.nil_append]

/-- The thread's section is run, or the action does not show, or it was owed. -/
theorem Simulates.act [DecidableEq L] [DecidableEq S] (h : P.Simulates f owed c) {B B' : Busy L S σ R} {s : σ}
    (hbusy : f.running t = some B) (hact : Acts f.Free B f.shared B' s) :
    P.grows f.shared s ∧ ∃ owed',
      P.Simulates (f.become t (some B') s) owed' c ∨
        ∃ p, c.running t = some p ∧ p.active = true ∧ P.Simulates (f.become t (some B') s) owed' (c.advanced t p) := by
  obtain ⟨q, hq, hstands⟩ := h.stands t B hbusy
  have hapart := hact.keptApart h.apart hbusy
  have hframes : f.frames t = B.frames := by
    rw [Fine.frames, hbusy]
    rfl
  cases hstands.act hact with
  | quiet hs hstands' =>
      subst hs
      exact ⟨P.grows_refl _, owed, Or.inl (h.moved rfl (Or.inl rfl) hapart h.shared rfl ⟨q, hq, hstands'⟩
        (fun _ _ => rfl) fun _ _ => rfl)⟩
  | counts hown hactive hsect hs hallowed hstands' =>
      subst hs
      refine ⟨?_, _, Or.inr ⟨q, hq, hactive, h.runs hframes hapart hown hsect hallowed hstands'⟩⟩
      rcases hallowed with rfl | hg
      · exact P.grows_refl _
      · exact P.allows_grows hg
  | follows hown hfr hg hs hstands' =>
      subst hs
      obtain ⟨owed', hsim⟩ := h.pays hapart hown (hframes ▸ hfr) hg hq hstands'
      exact ⟨P.follows_grows hg, owed', Or.inl hsim⟩

end Simulates

end Protection

/-! ### Runs -/

/-- Calls and returns, which a client sees. -/
def Event.isCall : Event T Op S σ R → Bool
  | .invoke _ _ _ => true
  | .section _ _ _ => false
  | .respond _ _ _ => true

/-- **Sections may be taken for steps.**  If the code reduces, the calls and returns of a fine run are those of a run of
sections, which ends in the same state but for what is still owed. -/
theorem FineRun.sections [DecidableEq T] [DecidableEq L] [DecidableEq S] (P : Protection L S σ)
    {sys : System T Op L S σ R} {s₀ : σ} {known : σ → Prop} (h₀ : ∀ s, P.grows s₀ s → known s)
    {es : List (Event T Op S σ R)} {f : Fine T L S σ R}
    (hcode : ∀ t, ∀ op ∈ sys.program t, P.ReducesTo (fun _ _ => True) (.outside known) [] (sys.code op))
    (hrun : FineRun sys (Fine.start s₀) es f) :
    P.grows s₀ f.shared ∧ ∃ es' c owed, Run sys (Config.start s₀) es' c ∧ es'.filter Event.isCall = es ∧
      P.Simulates f owed c := by
  induction hrun with
  | nil =>
      refine ⟨P.grows_refl s₀, [], _, [], Run.nil, rfl, rfl, rfl, fun t u _ fr hfr => ?_, fun _ _ => ⟨rfl, rfl⟩,
        fun t B hB => ?_⟩
      · cases hfr
      · cases hB
  | @invoke es f t op _ hidle hop ih =>
      obtain ⟨hgrown, es', c, owed, hc, hes, hsim⟩ := ih
      rw [← hsim.finished] at hop ⊢
      refine ⟨hgrown, _, _, owed, hc.snoc (.invoke (hsim.idle t hidle).1 hop), ?_,
        hsim.invoke hidle (fun s h => h₀ s (P.grows_trans hgrown h)) (hcode t op (List.mem_of_getElem? hop))⟩
      rw [List.filter_append, hes]
      rfl
  | @act es f t B B' s _ hbusy hact ih =>
      obtain ⟨hgrown, es', c, owed, hc, hes, hsim⟩ := ih
      obtain ⟨hgrows, owed', hsim' | ⟨p, hp, hactive, hsim'⟩⟩ := hsim.act hbusy hact
      · exact ⟨P.grows_trans hgrown hgrows, es', c, owed', hc, hes, hsim'⟩
      · refine ⟨P.grows_trans hgrown hgrows, _, _, owed', hc.snoc (.section hp hactive), ?_, hsim'⟩
        rw [List.filter_append, hes]
        exact List.append_nil es
  | @respond es f t r K _ hdone ih =>
      obtain ⟨hgrown, es', c, owed, hc, hes, hsim⟩ := ih
      obtain ⟨hret, hsim'⟩ := hsim.respond hdone
      rw [← hsim.finished]
      refine ⟨hgrown, _, _, owed, hc.snoc (.respond hret), ?_, hsim'⟩
      rw [List.filter_append, hes]
      rfl

/-- Real time shows in calls and returns. -/
theorem precedes_filter {es : List (Event T Op S σ R)} {x y : T × ℕ} :
    Precedes (es.filter Event.isCall) x y ↔ Precedes es x y := by
  constructor
  · intro h
    obtain ⟨r, op, hsub⟩ := h
    exact ⟨r, op, hsub.trans List.filter_sublist⟩
  · intro h
    obtain ⟨r, op, hsub⟩ := h
    exact ⟨r, op, hsub.filter Event.isCall⟩

end Concurrent
