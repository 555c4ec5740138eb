import GlbBackend.RingBuffer

/-!
# Programs over ring buffers

The objects of a program hold pointers to their arrays, and an array is freed with the last object that points
to it (`release`).  Over any run no two objects share an array and no pointer dangles, so that every object stands
for a queue of its own (`RingStore.Represents`): a step changes the queue of the buffer it is called on, and no
other.  The one step that breaks this is the assignment of a buffer to itself: `operator=` frees the array it
then copies from.
-/

namespace GlbBackend

open Imperative

/-- The arrays (`none` once freed) and the `ring_buffer` objects in the order of their construction. -/
structure RingStore where
  heap : List (Option (Cells Char))
  objects : List (RingBuffer ℕ)
  deriving DecidableEq, Repr

namespace RingStore

/-- A statement about buffers; an object is named by its place in the order of construction. -/
inductive Op
  | construct (ds : ℤ)
  | copy (orig : ℕ)
  | assign (this orig : ℕ)
  | write (this : ℕ) (str : List Char)
  | dec (this : ℕ) (dec_size : ℤ)
  | readLine (this : ℕ)
  | linesAvailable (this : ℕ)
  | double_capacity (this : ℕ)
  deriving DecidableEq, Repr

/-- What a statement returns. -/
inductive Reply
  | nothing
  | number (n : ℤ)
  | string (chars : Cells Char)
  deriving DecidableEq, Repr

def initial : RingStore := ⟨[], []⟩

/-- The array behind a pointer. -/
def array (st : RingStore) (p : ℕ) : Except Fault (Cells Char) :=
  match st.heap[p]? with
  | some (some cells) => .ok cells
  | _ => .error .dangling

/-- An owner of the array at `p` is gone: the array is freed unless another object points to it. -/
def release (st : RingStore) (p : ℕ) : RingStore :=
  if st.objects.any (fun b => b.data == p) then st else { st with heap := st.heap.set p none }

/-- `new` for an object that is constructed. -/
def constructed (st : RingStore) (b : RingBuffer (Cells Char)) : RingStore :=
  { heap := st.heap ++ [some b.data], objects := st.objects ++ [b.onto st.heap.length] }

/-- A member function that works on the array of its object. -/
def call (st : RingStore) (this : ℕ)
    (f : RingBuffer (Cells Char) → Except Fault (Reply × RingBuffer (Cells Char))) :
    Except Fault (Reply × RingStore) :=
  match st.objects[this]? with
  | none => pure (.nothing, st)
  | some b => do
      let cells ← st.array b.data
      let (reply, b') ← f (b.onto cells)
      pure (reply, { heap := st.heap.set b.data (some b'.data), objects := st.objects.set this (b'.onto b.data) })

/-- A member function that leaves its object with a new array. -/
def renew (st : RingStore) (this : ℕ)
    (f : RingBuffer (Cells Char) → Except Fault (Reply × RingBuffer (Cells Char))) :
    Except Fault (Reply × RingStore) :=
  match st.objects[this]? with
  | none => pure (.nothing, st)
  | some b => do
      let cells ← st.array b.data
      let (reply, b') ← f (b.onto cells)
      let st : RingStore :=
        { heap := st.heap ++ [some b'.data], objects := st.objects.set this (b'.onto st.heap.length) }
      pure (reply, st.release b.data)

/-- `abs_i = (h + i) % ds; charPtr[abs_i] = origcharPtr[abs_i];` through the pointers -/
def assignStep (origcharPtr charPtr : ℕ) (h ds : ℤ) (i : ℕ) (st : RingStore) : Except Fault RingStore := do
  let orig ← st.array origcharPtr
  let data ← st.array charPtr
  let data ← mirrorStep orig h ds i data
  pure { st with heap := st.heap.set charPtr (some data) }

/-- `operator=`: the old array of `this` is released before the bytes are copied. -/
def assign (st : RingStore) (this orig : ℕ) : Except Fault (Reply × RingStore) :=
  match st.objects[this]?, st.objects[orig]? with
  | some b, some o => do
      let ds := o.data_size
      let origcharPtr := o.data
      let data ← newArray ds
      let charPtr := st.heap.length
      let st : RingStore :=
        { heap := st.heap ++ [some data], objects := st.objects.set this (o.onto charPtr) }
      let st ← forLoop (assignStep origcharPtr charPtr o.h_idx ds) o.used.toNat 0 (st.release b.data)
      pure (.nothing, st)
  | _, _ => pure (.nothing, st)

/-- A call that returns a number. -/
def number (f : RingBuffer (Cells Char) → Except Fault (ℤ × RingBuffer (Cells Char)))
    (b : RingBuffer (Cells Char)) : Except Fault (Reply × RingBuffer (Cells Char)) := do
  let (n, b) ← f b
  pure (.number n, b)

/-- A statement that names an object that is not there does nothing. -/
def step (st : RingStore) : Op → Except Fault (Reply × RingStore)
  | .construct ds => do
      let b ← RingBuffer.construct ds
      pure (.nothing, st.constructed b)
  | .copy orig =>
      match st.objects[orig]? with
      | none => pure (.nothing, st)
      | some o => do
          let cells ← st.array o.data
          let b ← (o.onto cells).copy
          pure (.nothing, st.constructed b)
  | .assign this orig => st.assign this orig
  | .write this str => st.call this (number fun b => b.write str)
  | .dec this dec_size => st.call this (number fun b => b.dec dec_size)
  | .readLine this => st.call this fun b => do
      let (popped_line, b) ← b.readLine
      pure (.string popped_line, b)
  | .linesAvailable this => st.call this fun b => do
      let nLines ← b.linesAvailable
      pure (.number nLines, b)
  | .double_capacity this => st.renew this (number RingBuffer.double_capacity)

/-- A run, with what its statements return. -/
def run : RingStore → List Op → Except Fault (List Reply × RingStore)
  | st, [] => pure ([], st)
  | st, op :: ops => do
      let (reply, st) ← st.step op
      let (replies, st) ← st.run ops
      pure (reply :: replies, st)

end RingStore

/-! ### The queues -/

namespace ByteQueue

open RingStore

/-- A call on one queue; the others stay as they are. -/
def callOn (qs : List ByteQueue) (this : ℕ) (f : ByteQueue → Reply × ByteQueue) : Reply × List ByteQueue :=
  match qs[this]? with
  | none => (.nothing, qs)
  | some q => ((f q).1, qs.set this (f q).2)

theorem callOn_missing {qs : List ByteQueue} {this : ℕ} (h : qs[this]? = none) (f : ByteQueue → Reply × ByteQueue) :
    callOn qs this f = (.nothing, qs) := by
  rw [callOn, h]

theorem callOn_some {qs : List ByteQueue} {this : ℕ} {q : ByteQueue} (h : qs[this]? = some q)
    (f : ByteQueue → Reply × ByteQueue) : callOn qs this f = ((f q).1, qs.set this (f q).2) := by
  rw [callOn, h]

/-- What a statement is to return and to do to the queues of the objects. -/
def step (qs : List ByteQueue) : Op → Reply × List ByteQueue
  | .construct ds => (.nothing, qs ++ [empty ds.toNat])
  | .copy orig =>
      match qs[orig]? with
      | none => (.nothing, qs)
      | some q => (.nothing, qs ++ [q])
  | .assign this orig =>
      match qs[orig]? with
      | none => (.nothing, qs)
      | some q => callOn qs this fun _ => (.nothing, q)
  | .write this str => callOn qs this fun q => (.number (min str.length q.free : ℕ), q.write str)
  | .dec this dec_size => callOn qs this fun q =>
      (.number (min dec_size.toNat q.bytes.length : ℕ), q.drop dec_size.toNat)
  | .readLine this => callOn qs this fun q =>
      (.string ((q.line ++ ['\x00']).map some), q.drop q.line.length)
  | .linesAvailable this => callOn qs this fun q => (.number (q.bytes.count '\n' : ℕ), q)
  | .double_capacity this => callOn qs this fun q => (.number q.double.capacity, q.double)

def run : List ByteQueue → List Op → List Reply × List ByteQueue
  | qs, [] => ([], qs)
  | qs, op :: ops => ((step qs op).1 :: (run (step qs op).2 ops).1, (run (step qs op).2 ops).2)

end ByteQueue

/-! ### Every object stands for a queue of its own -/

namespace RingStore

/-- The objects stand for the queues; no pointer dangles, and no two objects share an array. -/
structure Represents (st : RingStore) (qs : List ByteQueue) : Prop where
  length : st.objects.length = qs.length
  object : ∀ {o : ℕ} {b q}, st.objects[o]? = some b → qs[o]? = some q →
    ∃ cells, st.heap[b.data]? = some (some cells) ∧ (b.onto cells).Represents q
  apart : ∀ {o o' : ℕ} {b b'}, st.objects[o]? = some b → st.objects[o']? = some b' → b.data = b'.data → o = o'

theorem initial_represents : initial.Represents [] where
  length := rfl
  object h := by cases h
  apart h := by cases h

theorem array_eq {st : RingStore} {p : ℕ} {cells : Cells Char} (h : st.heap[p]? = some (some cells)) :
    st.array p = .ok cells := by
  rw [array, h]

variable {st : RingStore} {qs : List ByteQueue}

theorem Represents.queue (hst : st.Represents qs) {o : ℕ} {b : RingBuffer ℕ} (hb : st.objects[o]? = some b) :
    ∃ q, qs[o]? = some q := by
  have hlt := (List.getElem?_eq_some_iff.mp hb).1
  exact ⟨_, List.getElem?_eq_getElem (hst.length ▸ hlt)⟩

theorem Represents.missing (hst : st.Represents qs) {o : ℕ} (hb : st.objects[o]? = none) : qs[o]? = none := by
  rw [List.getElem?_eq_none_iff] at hb ⊢
  rwa [← hst.length]

theorem Represents.data_lt (hst : st.Represents qs) {o : ℕ} {b : RingBuffer ℕ}
    (hb : st.objects[o]? = some b) : b.data < st.heap.length := by
  obtain ⟨q, hq⟩ := hst.queue hb
  obtain ⟨cells, hcells, -⟩ := hst.object hb hq
  exact (List.getElem?_eq_some_iff.mp hcells).1

/-- **A step on one object.**  The other arrays stay, and the object's array is no other's. -/
theorem Represents.set (hst : st.Represents qs) {this : ℕ} {b b' : RingBuffer ℕ} {q' : ByteQueue}
    {heap' : List (Option (Cells Char))} {cells' : Cells Char} (hb : st.objects[this]? = some b)
    (hown : heap'[b'.data]? = some (some cells')) (hrep : (b'.onto cells').Represents q')
    (hothers : ∀ o c, o ≠ this → st.objects[o]? = some c →
      heap'[c.data]? = st.heap[c.data]? ∧ c.data ≠ b'.data) :
    Represents ⟨heap', st.objects.set this b'⟩ (qs.set this q') := by
  have hthis : this < st.objects.length := (List.getElem?_eq_some_iff.mp hb).1
  have hsame : ∀ {c : RingBuffer ℕ}, (st.objects.set this b')[this]? = some c → c = b' := fun h => by
    rw [List.getElem?_set_self hthis] at h
    exact (Option.some.inj h).symm
  have hother : ∀ {o : ℕ} {c : RingBuffer ℕ}, o ≠ this → (st.objects.set this b')[o]? = some c →
      st.objects[o]? = some c := fun hne h => by
    rwa [List.getElem?_set_ne (Ne.symm hne)] at h
  constructor
  · show (st.objects.set this b').length = _
    rw [List.length_set, List.length_set, hst.length]
  · intro o c q hc hq
    by_cases ho : o = this
    · subst ho
      obtain rfl := hsame hc
      rw [List.getElem?_set_self (hst.length ▸ hthis)] at hq
      cases hq
      exact ⟨cells', hown, hrep⟩
    · rw [List.getElem?_set_ne (Ne.symm ho)] at hq
      obtain ⟨cells, hcells, hc'⟩ := hst.object (hother ho hc) hq
      exact ⟨cells, ((hothers o c ho (hother ho hc)).1).trans hcells, hc'⟩
  · intro o o' c c' hc hc' heq
    by_cases ho : o = this <;> by_cases ho' : o' = this
    · rw [ho, ho']
    · subst ho
      obtain rfl := hsame hc
      exact absurd heq.symm (hothers o' c' ho' (hother ho' hc')).2
    · subst ho'
      obtain rfl := hsame hc'
      exact absurd heq (hothers o c ho (hother ho hc)).2
    · exact hst.apart (hother ho hc) (hother ho' hc') heq

/-- A new object comes with a new array. -/
theorem Represents.constructed (hst : st.Represents qs) {b : RingBuffer (Cells Char)} {q : ByteQueue}
    (hb : b.Represents q) : (st.constructed b).Represents (qs ++ [q]) := by
  have hold : ∀ {o : ℕ} {c : RingBuffer ℕ}, (st.objects ++ [b.onto st.heap.length])[o]? = some c →
      (st.objects[o]? = some c ∧ c.data < st.heap.length) ∨
        (o = st.objects.length ∧ c = b.onto st.heap.length) := by
    intro o c hc
    rcases Nat.lt_or_ge o st.objects.length with hlt | hge
    · rw [List.getElem?_append_left hlt] at hc
      exact Or.inl ⟨hc, hst.data_lt hc⟩
    · rw [List.getElem?_append_right hge, List.getElem?_singleton] at hc
      split_ifs at hc with ho
      exact Or.inr ⟨by omega, (Option.some.inj hc).symm⟩
  constructor
  · show (st.objects ++ _).length = _
    rw [List.length_append, List.length_append, hst.length]
    rfl
  · intro o c q' hc hq'
    rcases hold hc with ⟨hc', hlt⟩ | ⟨rfl, rfl⟩
    · have ho : o < qs.length := hst.length ▸ (List.getElem?_eq_some_iff.mp hc').1
      rw [List.getElem?_append_left ho] at hq'
      obtain ⟨cells, hcells, hrep⟩ := hst.object hc' hq'
      exact ⟨cells, (List.getElem?_append_left hlt).trans hcells, hrep⟩
    · rw [hst.length, List.getElem?_append_right (Nat.le_refl _), Nat.sub_self] at hq'
      cases hq'
      exact ⟨b.data, List.getElem?_concat_length, hb⟩
  · intro o o' c c' hc hc' heq
    rcases hold hc with ⟨h, hlt⟩ | ⟨rfl, rfl⟩ <;> rcases hold hc' with ⟨h', hlt'⟩ | ⟨rfl, rfl⟩
    · exact hst.apart h h' heq
    · exact absurd heq (Nat.ne_of_lt hlt)
    · exact absurd heq.symm (Nat.ne_of_lt hlt')
    · rfl

/-- The object gets a new array and frees the old one. -/
theorem Represents.renewed (hst : st.Represents qs) {this : ℕ} {b b' : RingBuffer ℕ} {data : Cells Char}
    {q' : ByteQueue} (hb : st.objects[this]? = some b) (hb' : b'.data = st.heap.length)
    (hrep : (b'.onto data).Represents q') :
    Represents ⟨(st.heap ++ [some data]).set b.data none, st.objects.set this b'⟩ (qs.set this q') := by
  have hlt := hst.data_lt hb
  refine hst.set hb ?_ hrep fun o c ho hc => ?_
  · rw [hb', List.getElem?_set_ne (Nat.ne_of_lt hlt)]
    exact List.getElem?_concat_length
  · have hclt := hst.data_lt hc
    have hne : b.data ≠ c.data := fun heq => ho (hst.apart hc hb heq.symm)
    refine ⟨?_, by omega⟩
    rw [List.getElem?_set_ne hne, List.getElem?_append_left hclt]

/-- The array that the object leaves has no other owner. -/
theorem Represents.release_eq (hst : st.Represents qs) {this : ℕ} {b b' : RingBuffer ℕ} {data : Cells Char}
    (hb : st.objects[this]? = some b) (hb' : b'.data = st.heap.length) :
    release ⟨st.heap ++ [some data], st.objects.set this b'⟩ b.data =
      ⟨(st.heap ++ [some data]).set b.data none, st.objects.set this b'⟩ := by
  rw [release, if_neg]
  intro hany
  obtain ⟨c, hc, heq⟩ := List.any_eq_true.mp hany
  obtain ⟨o, ho⟩ := List.mem_iff_getElem?.mp hc
  have hlt := hst.data_lt hb
  have hdata : c.data = b.data := beq_iff_eq.mp heq
  by_cases hthis : o = this
  · subst hthis
    rw [List.getElem?_set_self (List.getElem?_eq_some_iff.mp hb).1] at ho
    cases ho
    omega
  · rw [List.getElem?_set_ne (Ne.symm hthis)] at ho
    exact hthis (hst.apart ho hb hdata)

/-- `operator=` up to its loop: a fresh array for `this`, and the old one freed. -/
theorem Represents.assign_eq (hst : st.Represents qs) {this orig n : ℕ} {b o : RingBuffer ℕ}
    (hb : st.objects[this]? = some b) (ho : st.objects[orig]? = some o) (hsize : o.data_size = n) :
    st.assign this orig =
      (forLoop (assignStep o.data st.heap.length o.h_idx n) o.used.toNat 0
        ⟨(st.heap ++ [some (List.replicate n none)]).set b.data none,
          st.objects.set this (o.onto st.heap.length)⟩).map fun st' => (.nothing, st') := by
  rw [assign, hb, ho]
  show (newArray o.data_size).bind _ = _
  rw [hsize, newArray_natCast]
  show (forLoop (assignStep o.data st.heap.length o.h_idx n) o.used.toNat 0
    (release ⟨st.heap ++ [some (List.replicate n none)], st.objects.set this (o.onto st.heap.length)⟩
      b.data)).bind _ = _
  rw [hst.release_eq hb rfl]
  cases forLoop (assignStep o.data st.heap.length o.h_idx n) o.used.toNat 0
      ⟨(st.heap ++ [some (List.replicate n none)]).set b.data none,
        st.objects.set this (o.onto st.heap.length)⟩ with
  | error e => rfl
  | ok st' => rfl

/-- The state of the loop of `operator=`: `d` is what the new array holds so far. -/
def withArray (st : RingStore) (p : ℕ) (d : Cells Char) : RingStore :=
  { st with heap := st.heap.set p (some d) }

theorem assignStep_eq {origcharPtr charPtr : ℕ} {cells : Cells Char} (hne : charPtr ≠ origcharPtr)
    (horig : st.heap[origcharPtr]? = some (some cells)) (hlt : charPtr < st.heap.length) (h ds : ℤ) (i : ℕ)
    (d : Cells Char) :
    assignStep origcharPtr charPtr h ds i (st.withArray charPtr d) =
      (mirrorStep cells h ds i d).map (st.withArray charPtr) := by
  have hread : (st.withArray charPtr d).array origcharPtr = .ok cells :=
    array_eq (by rw [withArray, List.getElem?_set_ne hne, horig])
  have hdata : (st.withArray charPtr d).array charPtr = .ok d :=
    array_eq (by rw [withArray, List.getElem?_set_self hlt])
  rw [assignStep, hread]
  show ((array _ _).bind _) = _
  rw [hdata]
  show (mirrorStep cells h ds i d).bind _ = _
  cases mirrorStep cells h ds i d with
  | error e => rfl
  | ok d' =>
      show Except.ok _ = Except.ok _
      rw [withArray, withArray, List.set_set]

/-- The store before the loop of `operator=`, and with it the store after. -/
theorem withArray_renewed {p old : ℕ} (hp : p = st.heap.length) (hold : old < st.heap.length)
    (objects : List (RingBuffer ℕ)) (d d' : Cells Char) :
    withArray ⟨(st.heap ++ [some d]).set old none, objects⟩ p d' =
      ⟨(st.heap ++ [some d']).set old none, objects⟩ := by
  subst hp
  rw [withArray]
  dsimp only
  rw [List.set_comm _ _ (by omega), List.set_append_right _ _ (Nat.le_refl _), Nat.sub_self, List.set_cons_zero]

/-- **Assignment from another object copies its queue.** -/
theorem assign_represents (hst : st.Represents qs) {this orig : ℕ} {b o : RingBuffer ℕ} {q : ByteQueue}
    (hne : this ≠ orig) (hb : st.objects[this]? = some b) (ho : st.objects[orig]? = some o)
    (hq : qs[orig]? = some q) :
    ∃ st', st.assign this orig = .ok (.nothing, st') ∧ st'.Represents (qs.set this q) := by
  obtain ⟨cells, hcells, hsize, hcap, hused, h, hh, hholds⟩ := hst.object ho hq
  have hsize' : o.data_size = cells.length := hsize
  have hused' : o.used = q.bytes.length := hused
  have hh' : o.h_idx = h := hh
  have hholds' : Holds cells h q.bytes := hholds
  have hblt := hst.data_lt hb
  have holt := hst.data_lt ho
  have hptr : o.data ≠ b.data := fun heq => hne (hst.apart hb ho heq.symm)
  let fresh : Cells Char := List.replicate cells.length none
  let st₁ : RingStore :=
    ⟨(st.heap ++ [some fresh]).set b.data none, st.objects.set this (o.onto st.heap.length)⟩
  have horig : st₁.heap[o.data]? = some (some cells) := by
    show ((st.heap ++ [some fresh]).set b.data none)[o.data]? = _
    rw [List.getElem?_set_ne (Ne.symm hptr), List.getElem?_append_left holt, hcells]
  have hlen : st.heap.length < st₁.heap.length := by
    show _ < ((st.heap ++ [some fresh]).set b.data none).length
    rw [List.length_set, List.length_append, List.length_singleton]
    omega
  have hfresh : fresh.length = cells.length := List.length_replicate
  obtain ⟨data, hloop, hdata, hcopied⟩ := mirror_loop hholds' hfresh (Nat.le_refl _) hholds'.fits
  have hwhole := forLoop_map (st₁.withArray st.heap.length)
    (assignStep_eq (by omega) horig hlen h cells.length) q.bytes.length 0 fresh
  rw [hloop] at hwhole
  refine ⟨⟨(st.heap ++ [some data]).set b.data none, st.objects.set this (o.onto st.heap.length)⟩, ?_, ?_⟩
  · rw [hst.assign_eq hb ho hsize', hused', Int.toNat_natCast, hh',
      ← withArray_renewed rfl hblt (st.objects.set this (o.onto st.heap.length)) fresh fresh]
    show Except.map _ (forLoop _ _ _ (st₁.withArray st.heap.length fresh)) = _
    rw [hwhole, ← withArray_renewed rfl hblt (st.objects.set this (o.onto st.heap.length)) fresh data]
    rfl
  · exact hst.renewed hb rfl ⟨hsize'.trans (congrArg _ hdata.symm), hdata.trans hcap, hused, h, hh, hcopied⟩

/-- Assignment of a buffer that holds nothing to itself gives it a new array and copies nothing. -/
theorem assign_self_empty (hst : st.Represents qs) {this : ℕ} {b : RingBuffer ℕ} {q : ByteQueue}
    (hb : st.objects[this]? = some b) (hq : qs[this]? = some q) (hempty : b.used = 0) :
    ∃ st', st.assign this this = .ok (.nothing, st') ∧ st'.Represents (qs.set this q) := by
  obtain ⟨cells, hcells, hsize, hcap, hused, h, hh, hholds⟩ := hst.object hb hq
  have hsize' : b.data_size = cells.length := hsize
  have hused' : b.used = q.bytes.length := hused
  have hnil : q.bytes = [] := List.eq_nil_of_length_eq_zero (by omega)
  let fresh : Cells Char := List.replicate cells.length none
  have hfresh : fresh.length = cells.length := List.length_replicate
  refine ⟨⟨(st.heap ++ [some fresh]).set b.data none, st.objects.set this (b.onto st.heap.length)⟩, ?_, ?_⟩
  · rw [hst.assign_eq hb hb hsize', hempty]
    rfl
  · refine hst.renewed hb rfl ⟨hsize'.trans (congrArg _ hfresh.symm), hfresh.trans hcap, hused, h, hh, ?_⟩
    rw [hnil]
    refine Holds.nil ?_
    show h = 0 ∨ h < fresh.length
    rw [hfresh]
    exact hholds.head

/-- **Assignment of a buffer that holds bytes to itself reads the array it has just freed.** -/
theorem assign_self_dangling (hst : st.Represents qs) {this : ℕ} {b : RingBuffer ℕ}
    (hb : st.objects[this]? = some b) (hused : b.used ≠ 0) :
    st.assign this this = .error .dangling := by
  obtain ⟨q, hq⟩ := hst.queue hb
  obtain ⟨cells, hcells, hsize, hcap, hlen, h, hh, hholds⟩ := hst.object hb hq
  have hsize' : b.data_size = cells.length := hsize
  have hlen' : b.used = q.bytes.length := hlen
  obtain ⟨n, hn⟩ : ∃ n, q.bytes.length = n + 1 := ⟨q.bytes.length - 1, by omega⟩
  let fresh : Cells Char := List.replicate cells.length none
  have hfreed : array ⟨(st.heap ++ [some fresh]).set b.data none,
      st.objects.set this (b.onto st.heap.length)⟩ b.data = .error .dangling := by
    rw [array, List.getElem?_set_self]
    rw [List.length_append]
    exact Nat.lt_add_right _ (hst.data_lt hb)
  rw [hst.assign_eq hb hb hsize', hlen', Int.toNat_natCast, hn]
  show Except.map _ ((assignStep _ _ _ _ _ _).bind _) = _
  rw [assignStep, hfreed]
  rfl

/-- A call does to its object's queue what its function does. -/
theorem call_represents (hst : st.Represents qs) (this : ℕ)
    {f : RingBuffer (Cells Char) → Except Fault (Reply × RingBuffer (Cells Char))}
    {g : ByteQueue → Reply × ByteQueue}
    (hf : ∀ b cells q, st.objects[this]? = some b → (b.onto cells).Represents q →
      ∃ b', f (b.onto cells) = .ok ((g q).1, b') ∧ b'.Represents (g q).2) :
    ∃ st', st.call this f = .ok ((ByteQueue.callOn qs this g).1, st') ∧
      st'.Represents (ByteQueue.callOn qs this g).2 := by
  cases hb : st.objects[this]? with
  | none =>
      rw [ByteQueue.callOn_missing (hst.missing hb), call, hb]
      exact ⟨st, rfl, hst⟩
  | some b =>
      obtain ⟨q, hq⟩ := hst.queue hb
      obtain ⟨cells, hcells, hrep⟩ := hst.object hb hq
      obtain ⟨b', hcall, hrep'⟩ := hf b cells q hb hrep
      rw [ByteQueue.callOn_some hq]
      refine ⟨⟨st.heap.set b.data (some b'.data), st.objects.set this (b'.onto b.data)⟩, ?_, ?_⟩
      · rw [call, hb]
        show (st.array b.data).bind _ = _
        rw [array_eq hcells]
        show (f (b.onto cells)).bind _ = _
        rw [hcall]
        rfl
      · refine hst.set hb (List.getElem?_set_self (hst.data_lt hb)) hrep' fun o c ho hc => ?_
        have hne : b.data ≠ c.data := fun heq => ho (hst.apart hc hb heq.symm)
        exact ⟨List.getElem?_set_ne hne, Ne.symm hne⟩

theorem renew_represents (hst : st.Represents qs) (this : ℕ)
    {f : RingBuffer (Cells Char) → Except Fault (Reply × RingBuffer (Cells Char))}
    {g : ByteQueue → Reply × ByteQueue}
    (hf : ∀ b cells q, st.objects[this]? = some b → (b.onto cells).Represents q →
      ∃ b', f (b.onto cells) = .ok ((g q).1, b') ∧ b'.Represents (g q).2) :
    ∃ st', st.renew this f = .ok ((ByteQueue.callOn qs this g).1, st') ∧
      st'.Represents (ByteQueue.callOn qs this g).2 := by
  cases hb : st.objects[this]? with
  | none =>
      rw [ByteQueue.callOn_missing (hst.missing hb), renew, hb]
      exact ⟨st, rfl, hst⟩
  | some b =>
      obtain ⟨q, hq⟩ := hst.queue hb
      obtain ⟨cells, hcells, hrep⟩ := hst.object hb hq
      obtain ⟨b', hcall, hrep'⟩ := hf b cells q hb hrep
      rw [ByteQueue.callOn_some hq]
      refine ⟨⟨(st.heap ++ [some b'.data]).set b.data none, st.objects.set this (b'.onto st.heap.length)⟩, ?_, ?_⟩
      · rw [renew, hb]
        show (st.array b.data).bind _ = _
        rw [array_eq hcells]
        show (f (b.onto cells)).bind _ = _
        rw [hcall]
        show Except.ok (_, release ⟨_, _⟩ _) = _
        rw [hst.release_eq hb rfl]
      · exact hst.renewed hb rfl hrep'

end RingStore

end GlbBackend
