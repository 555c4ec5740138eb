import GlbBackend.Text.Tokens

/-!
# Scanners of a terminated text

A `Scanner` reads a text in memory from a cursor, one character at a time, and reports events on the way.  The text ends
with a NUL, and what lies behind it must not be read: that is `Stop.outOfRange`, and it is not the same as an error that
the scanner finds in the text (`Stop.error`), behind the events that it has reported.

`Wp` is the weakest precondition of a scanner, where errors are allowed, up to an offset and behind events of a certain
form, and nothing else that stops it is.  The rules say what each action needs; `Ready` is the state of a cursor before
the NUL and `Reads` the passage from one to another, with the events that were reported.  `Scans` says what becomes of a
text that is known.
-/

namespace Text

/-- Why a scanner stops. -/
inductive Stop (E : Type)
  | error (message : String) (offset : ℕ) (events : List E)
  | outOfRange
  | assertion
  | outOfFuel

/-- The memory from the cursor on, how far the cursor has come, and what has been reported. -/
structure Cursor (E : Type) where
  src : Str
  tell : ℕ
  events : List E

/-- Code that moves a cursor. -/
abbrev Scanner (E α : Type) := StateT (Cursor E) (Except (Stop E)) α

/-- What the body of a loop does at a character. -/
inductive Turn (β : Type)
  | next (b : β)
  | leave
  | fail (message : String) (offset : ℕ)

namespace Scanner

variable {E α β : Type}

/-! ### Actions -/

/-- The character at the cursor. -/
def peek : Scanner E Char := fun st =>
  match st.src with
  | [] => .error .outOfRange
  | c :: _ => .ok (c, st)

/-- The character at the cursor, which moves on. -/
def take : Scanner E Char := fun st =>
  match st.src with
  | [] => .error .outOfRange
  | c :: src => .ok (c, { st with src := src, tell := st.tell + 1 })

def tell : Scanner E ℕ := fun st => .ok (st.tell, st)

/-- How much memory is left. -/
def left : Scanner E ℕ := fun st => .ok (st.src.length, st)

def report (e : E) : Scanner E Unit := fun st => .ok ((), { st with events := st.events ++ [e] })

def stop (why : Stop E) : Scanner E α := fun _ => .error why

def fail (message : String) (offset : ℕ) : Scanner E α := fun st => .error (.error message offset st.events)

/-- The loop while the character at the cursor is one of a kind; it takes the character, or leaves. -/
def loopWhile (kind : Char → Bool) (body : β → Char → Turn β) (events : List E) :
    Str → ℕ → β → Except (Stop E) ((β × Bool) × Str × ℕ)
  | [], _, _ => .error .outOfRange
  | c :: src, tell, b =>
      if kind c then
        match body b c with
        | .next b => loopWhile kind body events src (tell + 1) b
        | .leave => .ok ((b, true), c :: src, tell)
        | .fail message offset => .error (.error message offset events)
      else .ok ((b, false), c :: src, tell)

/-- The loop at a cursor; the result says whether the body has left it. -/
def scanWhile (kind : Char → Bool) (body : β → Char → Turn β) (b : β) : Scanner E (β × Bool) := fun st =>
  (loopWhile kind body st.events st.src st.tell b).map fun r => (r.1, { st with src := r.2.1, tell := r.2.2 })

def skipWhile (kind : Char → Bool) : Scanner E Unit := do
  let _ ← scanWhile kind (fun _ _ => .next ()) ()

/-! ### A known text -/

theorem bind_ok {p : Scanner E α} {q : α → Scanner E β} {st st' : Cursor E} {a : α} (h : p st = .ok (a, st')) :
    (p >>= q) st = q a st' := by
  show (p st >>= fun r => q r.1 r.2) = _
  rw [h]
  rfl

theorem bind_error {p : Scanner E α} {q : α → Scanner E β} {st : Cursor E} {why : Stop E} (h : p st = .error why) :
    (p >>= q) st = .error why := by
  show (p st >>= fun r => q r.1 r.2) = _
  rw [h]
  rfl

/-- In front of `rest` the scanner takes exactly `s`, with a result and some events. -/
def Scans (p : Scanner E α) (s rest : Str) (a : α) (events : List E) : Prop :=
  ∀ n es, p ⟨s ++ rest, n, es⟩ = .ok (a, ⟨rest, n + s.length, es ++ events⟩)

/-- The turns of a loop that takes `s`. -/
inductive Turns (kind : Char → Bool) (body : β → Char → Turn β) : β → Str → β → Prop
  | nil (b : β) : Turns kind body b [] b
  | cons {b b' b'' : β} {c : Char} {s : Str} (hkind : kind c = true) (hturn : body b c = .next b')
      (h : Turns kind body b' s b'') : Turns kind body b (c :: s) b''

section Scans

variable {p : Scanner E α} {q : α → Scanner E β} {s s' rest : Str} {a : α} {b : β} {es es' : List E}

theorem Scans.bind (hp : Scans p s (s' ++ rest) a es) (hq : Scans (q a) s' rest b es') :
    Scans (p >>= q) (s ++ s') rest b (es ++ es') := by
  intro n events
  rw [List.append_assoc, bind_ok (hp n events), hq, List.length_append, Nat.add_assoc, List.append_assoc]

/-- A first step that reports nothing. -/
theorem Scans.after (hp : Scans p s (s' ++ rest) a []) (hq : Scans (q a) s' rest b es') :
    Scans (p >>= q) (s ++ s') rest b es' :=
  hp.bind hq

/-- A second step that takes nothing. -/
theorem Scans.last (hp : Scans p s rest a []) (hq : Scans (q a) [] rest b es') : Scans (p >>= q) s rest b es' := by
  have hbind : Scans (p >>= q) (s ++ []) rest b es' := hp.after hq
  rwa [List.append_nil] at hbind

theorem scans_pure : Scans (pure a : Scanner E α) [] rest a [] := fun n events => by
  rw [List.append_nil]
  rfl

theorem scans_report (e : E) : Scans (report e) [] rest () [e] := fun _ _ => rfl

theorem scans_report_bind {q : Unit → Scanner E β} {e : E} (hq : Scans (q ()) s rest b es) :
    Scans (report e >>= q) s rest b (e :: es) := by
  have hbind := Scans.bind (s := []) (scans_report e) hq
  exact hbind

theorem scans_tell_bind {q : ℕ → Scanner E β} (hq : ∀ n, Scans (q n) s rest b es) :
    Scans (Scanner.tell >>= q) s rest b es :=
  fun n events => (bind_ok rfl).trans (hq n n events)

theorem scans_left_bind {q : ℕ → Scanner E β} (hq : Scans (q (s ++ rest).length) s rest b es) :
    Scans (left >>= q) s rest b es :=
  fun n events => (bind_ok rfl).trans (hq n events)

theorem scans_peek_bind {q : Char → Scanner E β} {c : Char} {src : Str} (hsrc : s ++ rest = c :: src)
    (hq : Scans (q c) s rest b es) : Scans (peek >>= q) s rest b es := by
  intro n events
  have hpeek : peek (⟨s ++ rest, n, events⟩ : Cursor E) = .ok (c, ⟨s ++ rest, n, events⟩) := by rw [hsrc]; rfl
  rw [bind_ok hpeek, hq]

theorem scans_take_bind {q : Char → Scanner E β} {c : Char} (hq : Scans (q c) s rest b es) :
    Scans (take >>= q) (c :: s) rest b es := by
  intro n events
  have htake : take (⟨c :: s ++ rest, n, events⟩ : Cursor E) = .ok (c, ⟨s ++ rest, n + 1, events⟩) := rfl
  rw [bind_ok htake, hq, List.length_cons, Nat.add_assoc, Nat.add_comm 1]

section Loop

variable {kind : Char → Bool} {body : β → Char → Turn β} {b' : β} {c : Char}

/-- A loop that leaves before `c`, because of the character or because its body does. -/
theorem scans_scanWhile (left : Bool) (h : Turns kind body b s b')
    (hend : if left then kind c = true ∧ body b' c = .leave else kind c = false) :
    Scans (scanWhile kind body b : Scanner E (β × Bool)) s (c :: rest) (b', left) [] := by
  intro n events
  have hloop : ∀ n, loopWhile kind body events (s ++ c :: rest) n b = .ok ((b', left), c :: rest, n + s.length) := by
    induction h with
    | nil b =>
        intro n
        cases left with
        | true =>
            rw [List.nil_append, loopWhile, if_pos hend.1, hend.2]
            rfl
        | false =>
            rw [List.nil_append, loopWhile, if_neg (by rw [hend]; exact Bool.false_ne_true)]
            rfl
    | cons hkind hturn _ ih =>
        intro n
        rw [List.cons_append, loopWhile, if_pos hkind, hturn]
        show loopWhile kind body events _ (n + 1) _ = _
        rw [ih hend (n + 1), List.length_cons, Nat.add_assoc, Nat.add_comm 1]
  rw [scanWhile, hloop, List.append_nil]
  rfl

/-- A loop with the characters of its kind. -/
theorem scans_skipWhile (hs : ∀ x ∈ s, kind x = true) (hc : kind c = false) :
    Scans (skipWhile kind : Scanner E Unit) s (c :: rest) () [] := by
  have hturns : Turns kind (fun _ _ => .next ()) () s () := by
    induction s with
    | nil => exact .nil ()
    | cons x s ih =>
        exact .cons (hs x List.mem_cons_self) rfl (ih fun y hy => hs y (List.mem_cons_of_mem x hy))
  exact Scans.last (scans_scanWhile false hturns hc) scans_pure

end Loop

end Scans

/-! ### Weakest preconditions -/

section Wp

variable {bound : ℕ} {begun : List E → Prop}

/-- A result with `Q`, or an error at an offset up to `bound`, behind events that satisfy `begun`. -/
inductive Settles (bound : ℕ) (begun : List E → Prop) (Q : α → Prop) : Except (Stop E) α → Prop
  | ok {a : α} (h : Q a) : Settles bound begun Q (.ok a)
  | error {message : String} {offset : ℕ} {events : List E} (h : offset ≤ bound) (hbegun : begun events) :
      Settles bound begun Q (.error (.error message offset events))

theorem Settles.mono {Q Q' : α → Prop} {r : Except (Stop E) α} (h : Settles bound begun Q r) (hQ : ∀ a, Q a → Q' a) :
    Settles bound begun Q' r := by
  cases h with
  | ok h => exact .ok (hQ _ h)
  | error h hbegun => exact .error h hbegun

theorem Settles.map {Q : β → Prop} {g : α → β} {r : Except (Stop E) α}
    (h : Settles bound begun (fun a => Q (g a)) r) : Settles bound begun Q (r.map g) := by
  cases h with
  | ok h => exact .ok h
  | error h hbegun => exact .error h hbegun

/-- The scanner comes to its end with `Q`, or there is an error as above. -/
def Wp (bound : ℕ) (begun : List E → Prop) (p : Scanner E α) (st : Cursor E) (Q : α → Cursor E → Prop) : Prop :=
  Settles bound begun (fun r => Q r.1 r.2) (p st)

variable {p : Scanner E α} {q : α → Scanner E β} {st : Cursor E}

theorem Wp.mono {Q Q' : α → Cursor E → Prop} (h : Wp bound begun p st Q) (hQ : ∀ a st', Q a st' → Q' a st') :
    Wp bound begun p st Q' :=
  Settles.mono h fun r => hQ r.1 r.2

theorem Wp.bind {Q : β → Cursor E → Prop} (h : Wp bound begun p st fun a st' => Wp bound begun (q a) st' Q) :
    Wp bound begun (p >>= q) st Q := by
  rw [Wp] at h
  cases hp : p st with
  | ok r =>
      rw [hp] at h
      rw [Wp, bind_ok hp]
      cases h with
      | ok h => exact h
  | error why =>
      rw [hp] at h
      rw [Wp, bind_error hp]
      cases h with
      | error h hbegun => exact .error h hbegun

theorem wp_pure {Q : α → Cursor E → Prop} {a : α} (h : Q a st) : Wp bound begun (pure a) st Q := .ok h

theorem wp_report {Q : Unit → Cursor E → Prop} {e : E} (h : Q () { st with events := st.events ++ [e] }) :
    Wp bound begun (report e) st Q := .ok h

theorem wp_tell {Q : ℕ → Cursor E → Prop} (h : Q st.tell st) : Wp bound begun tell st Q := .ok h

theorem wp_left {Q : ℕ → Cursor E → Prop} (h : Q st.src.length st) : Wp bound begun left st Q := .ok h

theorem wp_fail {Q : α → Cursor E → Prop} {message : String} {offset : ℕ} (h : offset ≤ bound)
    (hbegun : begun st.events) : Wp bound begun (fail message offset) st Q := .error h hbegun

theorem wp_peek {Q : Char → Cursor E → Prop} {c : Char} {src : Str} (hsrc : st.src = c :: src) (h : Q c st) :
    Wp bound begun peek st Q := by
  rw [Wp, peek, hsrc]
  exact .ok h

theorem wp_take {Q : Char → Cursor E → Prop} {c : Char} {src : Str} (hsrc : st.src = c :: src)
    (h : Q c { st with src := src, tell := st.tell + 1 }) : Wp bound begun take st Q := by
  rw [Wp, take, hsrc]
  exact .ok h

end Wp

/-! ### Before the NUL -/

/-- The cursor is at the NUL or before it, and the NUL before `bound`; here there may be an error. -/
structure Ready (bound : ℕ) (begun : List E → Prop) (st : Cursor E) : Prop where
  terminated : '\x00' ∈ st.src
  room : st.tell + st.src.idxOf '\x00' < bound
  mayFail : begun st.events

/-- From the first cursor to the second there is no NUL, and these events are reported. -/
structure Reads (st st' : Cursor E) (events : List E) : Prop where
  text : ∃ taken, st.src = taken ++ st'.src ∧ '\x00' ∉ taken ∧ st'.tell = st.tell + taken.length
  reported : st'.events = st.events ++ events

section Reads

variable {bound : ℕ} {begun : List E → Prop} {st st' st'' : Cursor E} {events events' : List E}

theorem Reads.refl (st : Cursor E) : Reads st st [] :=
  ⟨⟨[], rfl, List.not_mem_nil, rfl⟩, (List.append_nil _).symm⟩

theorem Reads.trans (h : Reads st st' events) (h' : Reads st' st'' events') : Reads st st'' (events ++ events') := by
  obtain ⟨taken, hsrc, hnul, htell⟩ := h.text
  obtain ⟨taken', hsrc', hnul', htell'⟩ := h'.text
  refine ⟨⟨taken ++ taken', ?_, ?_, ?_⟩, ?_⟩
  · rw [hsrc, hsrc', List.append_assoc]
  · intro hmem
    rcases List.mem_append.mp hmem with hmem | hmem
    · exact hnul hmem
    · exact hnul' hmem
  · rw [htell', htell, List.length_append, Nat.add_assoc]
  · rw [h'.reported, h.reported, List.append_assoc]

/-- One reads on without a report. -/
theorem Reads.then (h : Reads st st' events) (h' : Reads st' st'' []) : Reads st st'' events := by
  have htrans := h.trans h'
  rwa [List.append_nil] at htrans

theorem Reads.length_le (h : Reads st st' events) : st'.src.length ≤ st.src.length := by
  obtain ⟨taken, hsrc, -, -⟩ := h.text
  rw [hsrc, List.length_append]
  omega

theorem Reads.ready_of (h : Reads st st' events) (hready : Ready bound begun st) (hbegun : begun (st.events ++ events)) :
    Ready bound begun st' := by
  obtain ⟨taken, hsrc, hnul, htell⟩ := h.text
  have hmem := hready.terminated
  have hroom := hready.room
  rw [hsrc] at hmem hroom
  refine ⟨(List.mem_append.mp hmem).resolve_left hnul, ?_, h.reported ▸ hbegun⟩
  rw [List.idxOf_append_of_notMem hnul] at hroom
  omega

theorem Reads.ready (h : Reads st st' []) (hready : Ready bound begun st) : Ready bound begun st' :=
  h.ready_of hready ((List.append_nil _).symm ▸ hready.mayFail)

theorem reads_report (e : E) : Reads st { st with events := st.events ++ [e] } [e] :=
  ⟨⟨[], rfl, List.not_mem_nil, rfl⟩, rfl⟩

/-- The cursor is in range. -/
theorem Ready.tell_le (h : Ready bound begun st) : st.tell ≤ bound := by
  have hroom := h.room
  omega

theorem Ready.cons (h : Ready bound begun st) : ∃ c src, st.src = c :: src := by
  cases hsrc : st.src with
  | nil =>
      have hmem := h.terminated
      rw [hsrc] at hmem
      exact absurd hmem List.not_mem_nil
  | cons c src => exact ⟨c, src, rfl⟩

/-- A character that is not the NUL is taken. -/
theorem reads_take {c : Char} {src : Str} (hsrc : st.src = c :: src) (hc : c ≠ '\x00') :
    Reads st { st with src := src, tell := st.tell + 1 } [] :=
  ⟨⟨[c], hsrc, fun h => hc (List.mem_singleton.mp h).symm, rfl⟩, (List.append_nil _).symm⟩

end Reads

section Rules

variable {bound : ℕ} {begun : List E → Prop} {st : Cursor E} {Q : α → Cursor E → Prop}

/-- An error at an offset that has been passed. -/
theorem wp_fail_at {message : String} {offset : ℕ} (hready : Ready bound begun st) (h : offset ≤ st.tell) :
    Wp bound begun (fail message offset) st Q :=
  wp_fail (h.trans hready.tell_le) hready.mayFail

/-- A look at the next character. -/
theorem wp_peek_bind {q : Char → Scanner E α} (hready : Ready bound begun st)
    (h : ∀ c src, st.src = c :: src → Wp bound begun (q c) st Q) : Wp bound begun (peek >>= q) st Q := by
  obtain ⟨c, src, hsrc⟩ := hready.cons
  exact (wp_peek hsrc (h c src hsrc)).bind

/-- The next character is taken: if it is the NUL, an error must follow. -/
theorem wp_take_bind {q : Char → Scanner E α} (hready : Ready bound begun st)
    (hnul : ∀ st', st'.tell ≤ bound → begun st'.events → Wp bound begun (q '\x00') st' Q)
    (h : ∀ c st', c ≠ '\x00' → Reads st st' [] → st.src = c :: st'.src → Wp bound begun (q c) st' Q) :
    Wp bound begun (take >>= q) st Q := by
  obtain ⟨c, src, hsrc⟩ := hready.cons
  refine (wp_take hsrc ?_).bind
  by_cases hc : c = '\x00'
  · rw [hc]
    refine hnul _ ?_ hready.mayFail
    have hroom := hready.room
    show st.tell + 1 ≤ bound
    omega
  · exact h c _ hc (reads_take hsrc hc) hsrc

/-- A character that has been looked at is taken. -/
theorem wp_take_known {q : Char → Scanner E α} {c : Char} {src : Str} (hsrc : st.src = c :: src) (hc : c ≠ '\x00')
    (h : ∀ st', Reads st st' [] → st.src = c :: st'.src → Wp bound begun (q c) st' Q) :
    Wp bound begun (take >>= q) st Q :=
  (wp_take hsrc (h _ (reads_take hsrc hc) hsrc)).bind

end Rules

/-! ### Loops -/

section Loops

variable {bound : ℕ} {begun : List E → Prop} {kind : Char → Bool} {body : β → Char → Turn β}

theorem wp_scanWhile {I : β → Prop} (hkind : kind '\x00' = false) (hnext : ∀ b c b', I b → kind c = true →
      body b c = .next b' → I b')
    (hfail : ∀ b c message offset, I b → body b c = .fail message offset → offset ≤ bound) (b : β) (hb : I b)
    {st : Cursor E} (hready : Ready bound begun st) :
    Wp bound begun (scanWhile kind body b) st fun r st' => I r.1 ∧ Reads st st' [] := by
  have hloop : ∀ (src : Str) (n : ℕ) (b : β), I b → '\x00' ∈ src →
      Settles bound begun
        (fun r => I r.1.1 ∧ ∃ taken, src = taken ++ r.2.1 ∧ '\x00' ∉ taken ∧ r.2.2 = n + taken.length)
        (loopWhile kind body st.events src n b) := by
    intro src
    induction src with
    | nil => exact fun n b _ hnul => absurd hnul List.not_mem_nil
    | cons c src ih =>
        intro n b hb hnul
        by_cases hc : kind c = true
        · have hne : c ≠ '\x00' := by
            intro heq
            rw [heq, hkind] at hc
            exact Bool.false_ne_true hc
          rw [loopWhile, if_pos hc]
          cases hturn : body b c with
          | next b' =>
              refine (ih (n + 1) b' (hnext b c b' hb hc hturn)
                ((List.mem_cons.mp hnul).resolve_left hne.symm)).mono fun r h => ?_
              obtain ⟨hI, taken, hsrc, htaken, hn⟩ := h
              refine ⟨hI, c :: taken, by rw [hsrc]; rfl, ?_, by rw [hn, List.length_cons]; omega⟩
              intro hmem
              rcases List.mem_cons.mp hmem with heq | hmem
              · exact hne heq.symm
              · exact htaken hmem
          | leave => exact .ok ⟨hb, [], rfl, List.not_mem_nil, rfl⟩
          | fail message offset => exact .error (hfail b c message offset hb hturn) hready.mayFail
        · rw [loopWhile, if_neg hc]
          exact .ok ⟨hb, [], rfl, List.not_mem_nil, rfl⟩
  exact ((hloop st.src st.tell b hb hready.terminated).mono fun r h =>
    ⟨h.1, h.2, (List.append_nil _).symm⟩).map

theorem wp_skipWhile (hkind : kind '\x00' = false) {st : Cursor E} (hready : Ready bound begun st) :
    Wp bound begun (skipWhile kind) st fun _ st' => Reads st st' [] := by
  refine Wp.bind ((wp_scanWhile (I := fun _ => True) hkind (fun _ _ _ _ _ _ => trivial) (fun _ _ _ _ _ h => ?_) ()
    trivial hready).mono fun _ st' h => wp_pure h.2)
  cases h

end Loops

end Scanner

end Text
