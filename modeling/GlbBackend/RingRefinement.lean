import GlbBackend.RingStore

/-!
# Ring buffers are bounded byte queues

A statement is sound in a state when it asks for nothing that `ring_buffer` does not do: no negative capacity, no
negative number of bytes to take off, no assignment of a buffer that holds bytes to itself.  Over a run of sound
statements the objects stand for queues (`run_represents`); of a string `write` sees as much as an `int` counts
(`Op.seen`).  Where that is enough (`Op.Short`) the run is the one of the queues, and nowhere else
(`ring_buffer_refines`).
-/

namespace GlbBackend

open Imperative

namespace RingStore

/-- The statement asks for nothing that a `ring_buffer` does not do. -/
def Op.Sound (op : Op) (st : RingStore) : Prop :=
  match op with
  | .construct ds => 0 ≤ ds
  | .dec this dec_size => 0 ≤ dec_size ∨ ∀ b, st.objects[this]? = some b → b.data_size = 0
  | .assign this orig => this ≠ orig ∨ ∀ b, st.objects[this]? = some b → b.used = 0
  | _ => True

/-- A string to be written is shorter than 2^31 bytes, or its length as an `int` fills the buffer all the same. -/
def Op.Short (op : Op) (st : RingStore) : Prop :=
  match op with
  | .write this str => (str.length : ℤ) < 2 ^ 31 ∨
      ∀ b, st.objects[this]? = some b → b.data_size - b.used ≤ max 0 (RingBuffer.intLength str)
  | _ => True

def Op.Fine (op : Op) (st : RingStore) : Prop := op.Sound st ∧ op.Short st

/-- The statement with the part of its string that `write` sees. -/
def Op.seen : Op → Op
  | .write this str => .write this (RingBuffer.seen str)
  | op => op

/-- Every statement of the run meets the condition in the state it is carried out in. -/
def Along (C : Op → RingStore → Prop) : RingStore → List Op → Prop
  | _, [] => True
  | st, op :: ops => C op st ∧ ∀ reply st', st.step op = .ok (reply, st') → Along C st' ops

theorem Along.mono {C D : Op → RingStore → Prop} (h : ∀ op st, C op st → D op st) {st : RingStore} {ops : List Op}
    (hops : Along C st ops) : Along D st ops := by
  induction ops generalizing st with
  | nil => trivial
  | cons op ops ih => exact ⟨h op st hops.1, fun reply st' hstep => ih (hops.2 reply st' hstep)⟩

theorem Along.of_step {C : Op → RingStore → Prop} {st st₁ : RingStore} {op : Op} {ops : List Op} {reply : Reply}
    (hop : C op st) (hstep : st.step op = .ok (reply, st₁)) (hops : Along C st₁ ops) :
    Along C st (op :: ops) := by
  refine ⟨hop, fun reply' st' h => ?_⟩
  rw [hstep] at h
  cases h
  exact hops

/-- In the state, the statement does to the objects and returns what it does to the queues and returns there. -/
def Meets (st : RingStore) (qs : List ByteQueue) (op : Op) : Prop :=
  ∃ st', st.step op = .ok ((ByteQueue.step qs op).1, st') ∧ st'.Represents (ByteQueue.step qs op).2

variable {st : RingStore} {qs : List ByteQueue}

theorem construct_meets (hst : st.Represents qs) {ds : ℤ} (hds : 0 ≤ ds) : Meets st qs (.construct ds) := by
  obtain ⟨n, rfl⟩ := Int.eq_ofNat_of_zero_le hds
  obtain ⟨b, hb, hrep⟩ := RingBuffer.construct_represents n
  refine ⟨st.constructed b, ?_, hst.constructed hrep⟩
  rw [step, hb]
  rfl

theorem copy_meets (hst : st.Represents qs) (orig : ℕ) : Meets st qs (.copy orig) := by
  rw [Meets, step, ByteQueue.step]
  cases ho : st.objects[orig]? with
  | none =>
      rw [hst.missing ho]
      exact ⟨st, rfl, hst⟩
  | some o =>
      obtain ⟨q, hq⟩ := hst.queue ho
      obtain ⟨cells, hcells, hrep⟩ := hst.object ho hq
      obtain ⟨b, hcopy, hrep'⟩ := RingBuffer.copy_represents hrep
      rw [hq]
      refine ⟨st.constructed b, ?_, hst.constructed hrep'⟩
      show (st.array o.data).bind _ = _
      rw [array_eq hcells]
      show (RingBuffer.copy _).bind _ = _
      rw [hcopy]
      rfl

theorem assign_meets (hst : st.Represents qs) {this orig : ℕ}
    (hself : this ≠ orig ∨ ∀ b, st.objects[this]? = some b → b.used = 0) : Meets st qs (.assign this orig) := by
  rw [Meets, step, ByteQueue.step]
  cases ho : st.objects[orig]? with
  | none =>
      rw [hst.missing ho]
      refine ⟨st, ?_, hst⟩
      rw [assign, ho]
      cases st.objects[this]? <;> rfl
  | some o =>
      obtain ⟨q, hq⟩ := hst.queue ho
      rw [hq]
      dsimp only
      cases hb : st.objects[this]? with
      | none =>
          rw [ByteQueue.callOn_missing (hst.missing hb)]
          refine ⟨st, ?_, hst⟩
          rw [assign, hb]
          rfl
      | some b =>
          obtain ⟨q', hq'⟩ := hst.queue hb
          rw [ByteQueue.callOn_some hq']
          by_cases hsame : this = orig
          · subst hsame
            exact assign_self_empty hst hb hq (hself.resolve_left (fun hne => hne rfl) b hb)
          · exact assign_represents hst hsame hb ho hq

theorem write_sees (hst : st.Represents qs) (this : ℕ) (str : List Char) :
    ∃ st', st.step (.write this str) =
        .ok ((ByteQueue.step qs (.write this (RingBuffer.seen str))).1, st') ∧
      st'.Represents (ByteQueue.step qs (.write this (RingBuffer.seen str))).2 := by
  refine call_represents hst this fun b cells q _ hrep => ?_
  obtain ⟨b', hcall, hrep'⟩ := RingBuffer.write_represents hrep str
  refine ⟨b', ?_, hrep'⟩
  rw [number, hcall]
  rfl

theorem dec_meets (hst : st.Represents qs) {this : ℕ} {dec_size : ℤ}
    (hdec : 0 ≤ dec_size ∨ ∀ b, st.objects[this]? = some b → b.data_size = 0) :
    Meets st qs (.dec this dec_size) := by
  refine call_represents hst this fun b cells q hb hrep => ?_
  obtain ⟨b', hcall, hrep'⟩ := RingBuffer.dec_represents hrep (hdec.imp_right fun h => h b hb)
  refine ⟨b', ?_, hrep'⟩
  rw [number, hcall]
  rfl

theorem readLine_meets (hst : st.Represents qs) (this : ℕ) : Meets st qs (.readLine this) := by
  rw [Meets, step, ByteQueue.step]
  refine call_represents hst this fun b cells q _ hrep => ?_
  obtain ⟨b', hcall, hrep'⟩ := RingBuffer.readLine_represents hrep
  refine ⟨b', ?_, hrep'⟩
  rw [hcall]
  rfl

theorem linesAvailable_meets (hst : st.Represents qs) (this : ℕ) : Meets st qs (.linesAvailable this) := by
  rw [Meets, step, ByteQueue.step]
  refine call_represents hst this fun b cells q _ hrep => ?_
  refine ⟨b.onto cells, ?_, hrep⟩
  rw [RingBuffer.linesAvailable_represents hrep]
  rfl

theorem double_capacity_meets (hst : st.Represents qs) (this : ℕ) : Meets st qs (.double_capacity this) := by
  refine renew_represents hst this fun b cells q _ hrep => ?_
  obtain ⟨b', hcall, hrep'⟩ := RingBuffer.double_capacity_represents hrep
  refine ⟨b', ?_, hrep'⟩
  rw [number, hcall]
  rfl

/-- **A sound statement does what the queues do on what it sees.** -/
theorem step_represents (hst : st.Represents qs) {op : Op} (hop : op.Sound st) :
    ∃ st', st.step op = .ok ((ByteQueue.step qs op.seen).1, st') ∧
      st'.Represents (ByteQueue.step qs op.seen).2 := by
  cases op with
  | construct ds => exact construct_meets hst hop
  | copy orig => exact copy_meets hst orig
  | assign this orig => exact assign_meets hst hop
  | write this str => exact write_sees hst this str
  | dec this dec_size => exact dec_meets hst hop
  | readLine this => exact readLine_meets hst this
  | linesAvailable this => exact linesAvailable_meets hst this
  | double_capacity this => exact double_capacity_meets hst this

/-- **Over a run of sound statements the objects stand for the queues of the run.** -/
theorem run_represents (hst : st.Represents qs) {ops : List Op} (hops : Along Op.Sound st ops) :
    ∃ st', st.run ops = .ok ((ByteQueue.run qs (ops.map Op.seen)).1, st') ∧
      st'.Represents (ByteQueue.run qs (ops.map Op.seen)).2 := by
  induction ops generalizing st qs with
  | nil => exact ⟨st, rfl, hst⟩
  | cons op ops ih =>
      obtain ⟨hop, hrest⟩ := hops
      obtain ⟨st₁, hstep, hst₁⟩ := step_represents hst hop
      obtain ⟨st', hrun, hst'⟩ := ih hst₁ (hrest _ st₁ hstep)
      refine ⟨st', ?_, hst'⟩
      show (st.step op).bind _ = _
      rw [hstep]
      show (st₁.run ops).bind _ = _
      rw [hrun]
      rfl

/-! ### Where the whole string is seen -/

theorem Represents.free_eq (hst : st.Represents qs) {this : ℕ} {b : RingBuffer ℕ} {q : ByteQueue}
    (hb : st.objects[this]? = some b) (hq : qs[this]? = some q) : b.data_size - b.used = q.free := by
  obtain ⟨cells, -, hsize, hcap, hused, -⟩ := hst.object hb hq
  have hsize' : b.data_size = cells.length := hsize
  have hcap' : cells.length = q.capacity := hcap
  have hused' : b.used = q.bytes.length := hused
  have hfits := q.fits
  rw [ByteQueue.free]
  omega

theorem length_seen (str : List Char) : (RingBuffer.seen str).length = (RingBuffer.intLength str).toNat := by
  have hle := RingBuffer.intLength_le str
  rw [RingBuffer.seen, List.length_take]
  omega

theorem seen_of_lt {str : List Char} (h : (str.length : ℤ) < 2 ^ 31) : RingBuffer.seen str = str := by
  have hlen : RingBuffer.intLength str = str.length := Int.bmod_eq_of_le (by omega) (by omega)
  rw [RingBuffer.seen, hlen, Int.toNat_natCast, List.take_length]

/-- A short string, or one that fills the buffer, is written as the queue has it. -/
theorem step_seen (hst : st.Represents qs) {op : Op} (hop : op.Short st) :
    ByteQueue.step qs op.seen = ByteQueue.step qs op := by
  cases op with
  | write this str =>
      show ByteQueue.step qs (.write this (RingBuffer.seen str)) = _
      rw [ByteQueue.step, ByteQueue.step, ByteQueue.callOn, ByteQueue.callOn]
      cases hq : qs[this]? with
      | none => rfl
      | some q =>
          obtain ⟨b, hb⟩ : ∃ b, st.objects[this]? = some b := by
            have hlt := (List.getElem?_eq_some_iff.mp hq).1
            exact ⟨_, List.getElem?_eq_getElem (hst.length.symm ▸ hlt)⟩
          rcases hop with hlt | hfull
          · rw [seen_of_lt hlt]
          · have hfree := hst.free_eq hb hq
            have hle := hfull b hb
            have hint := RingBuffer.intLength_le str
            have hmin : min (RingBuffer.seen str).length q.free = min str.length q.free := by
              rw [length_seen]
              omega
            have htake : (RingBuffer.seen str).take q.free = str.take q.free := by
              rw [RingBuffer.seen, List.take_take, Nat.min_eq_left (by omega)]
            have hwrite : q.write (RingBuffer.seen str) = q.write str := by
              rw [ByteQueue.write, ByteQueue.write]
              simp only [htake]
            dsimp only
            rw [hmin, hwrite]
  | construct ds => rfl
  | copy orig => rfl
  | assign this orig => rfl
  | dec this dec_size => rfl
  | readLine this => rfl
  | linesAvailable this => rfl
  | double_capacity this => rfl

theorem Op.Fine.meets (hst : st.Represents qs) {op : Op} (hop : op.Fine st) : Meets st qs op := by
  have hstep := step_represents hst hop.1
  rwa [step_seen hst hop.2] at hstep

/-- Over a run of fine statements the queues are those of the run as it is written. -/
theorem run_seen (hst : st.Represents qs) {ops : List Op} (hops : Along Op.Fine st ops) :
    ByteQueue.run qs (ops.map Op.seen) = ByteQueue.run qs ops := by
  induction ops generalizing st qs with
  | nil => rfl
  | cons op ops ih =>
      obtain ⟨hop, hrest⟩ := hops
      obtain ⟨st₁, hstep, hst₁⟩ := hop.meets hst
      rw [List.map_cons, ByteQueue.run, ByteQueue.run, step_seen hst hop.2, ih hst₁ (hrest _ st₁ hstep)]

/-! ### Where a statement goes wrong -/

/-- A negative number of bytes is returned as it is. -/
theorem dec_negative (hst : st.Represents qs) {this : ℕ} {b : RingBuffer ℕ} {dec_size : ℤ}
    (hb : st.objects[this]? = some b) (hneg : dec_size < 0) (hsize : b.data_size ≠ 0) :
    ∃ st', st.step (.dec this dec_size) = .ok (.number dec_size, st') := by
  obtain ⟨q, hq⟩ := hst.queue hb
  obtain ⟨cells, hcells, -, -, hused, -⟩ := hst.object hb hq
  have hused' : b.used = q.bytes.length := hused
  let b' : RingBuffer ℕ := ⟨b.data, b.data_size, (b.h_idx + dec_size).tmod b.data_size, b.used - dec_size⟩
  refine ⟨⟨st.heap.set b.data (some cells), st.objects.set this b'⟩, ?_⟩
  have hdec : (b.onto cells).dec dec_size = .ok (dec_size, b'.onto cells) := by
    have hlt : dec_size < (b.onto cells).used := by
      show dec_size < b.used
      omega
    have hsize' : (b.onto cells).data_size ≠ 0 := hsize
    rw [RingBuffer.dec, if_neg hsize', if_pos hlt, cmod, if_neg hsize']
    rfl
  show st.call this _ = _
  rw [call, hb]
  show (st.array b.data).bind _ = _
  rw [array_eq hcells]
  show (number _ (b.onto cells)).bind _ = _
  rw [number, hdec]
  rfl

/-- **A statement meets the queues only where it is sound and its string short.** -/
theorem Meets.fine (hst : st.Represents qs) {op : Op} (hmeets : Meets st qs op) : op.Fine st := by
  obtain ⟨st', hstep, -⟩ := hmeets
  cases op with
  | construct ds =>
      refine ⟨?_, trivial⟩
      by_contra hneg
      have hfail : st.step (.construct ds) = .error .badAlloc := by
        rw [step, RingBuffer.construct, newArray, if_pos (not_le.mp hneg)]
        rfl
      rw [hfail] at hstep
      cases hstep
  | assign this orig =>
      refine ⟨?_, trivial⟩
      by_contra hself
      obtain ⟨heq, hused⟩ := not_or.mp hself
      obtain rfl := not_not.mp heq
      obtain ⟨b, hb⟩ := not_forall.mp hused
      obtain ⟨hb, hne⟩ := Classical.not_imp.mp hb
      have hfail : st.step (.assign this this) = .error .dangling := assign_self_dangling hst hb hne
      rw [hfail] at hstep
      cases hstep
  | dec this dec_size =>
      refine ⟨?_, trivial⟩
      by_contra hdec
      obtain ⟨hneg, hsize⟩ := not_or.mp hdec
      obtain ⟨b, hb⟩ := not_forall.mp hsize
      obtain ⟨hb, hne⟩ := Classical.not_imp.mp hb
      obtain ⟨q, hq⟩ := hst.queue hb
      obtain ⟨st'', hcode⟩ := dec_negative hst hb (not_le.mp hneg) hne
      rw [hcode, ByteQueue.step, ByteQueue.callOn_some hq] at hstep
      injection hstep with hpair
      injection (Prod.mk.inj hpair).1 with hnumber
      omega
  | write this str =>
      refine ⟨trivial, ?_⟩
      by_contra hlong
      obtain ⟨hlen, hfull⟩ := not_or.mp hlong
      obtain ⟨b, hb⟩ := not_forall.mp hfull
      obtain ⟨hb, hfree⟩ := Classical.not_imp.mp hb
      obtain ⟨q, hq⟩ := hst.queue hb
      obtain ⟨st'', hcode, -⟩ := write_sees hst this str
      have hroom := hst.free_eq hb hq
      have hint : RingBuffer.intLength str < 2 ^ 31 := Int.bmod_lt (by decide)
      rw [hcode, ByteQueue.step, ByteQueue.step, ByteQueue.callOn_some hq, ByteQueue.callOn_some hq] at hstep
      injection hstep with hpair
      injection (Prod.mk.inj hpair).1 with hnumber
      rw [length_seen] at hnumber
      omega
  | copy orig => exact ⟨trivial, trivial⟩
  | readLine this => exact ⟨trivial, trivial⟩
  | linesAvailable this => exact ⟨trivial, trivial⟩
  | double_capacity this => exact ⟨trivial, trivial⟩

/-- Every run of fine statements returns what the queues return and ends with the objects standing for the
queues; and in the state it ends in, the next statement does so exactly when it is fine. -/
theorem ring_buffer_refines (ops : List Op) (hops : Along Op.Fine initial ops) :
    ∃ st, initial.run ops = .ok ((ByteQueue.run [] ops).1, st) ∧ st.Represents (ByteQueue.run [] ops).2 ∧
      (∀ b ∈ st.objects, 0 ≤ b.used ∧ b.used ≤ b.data_size ∧ 0 ≤ b.h_idx ∧
        (b.h_idx < b.data_size ∨ b.data_size = 0 ∧ b.h_idx = 0)) ∧
      ∀ op : Op, Meets st (ByteQueue.run [] ops).2 op ↔ op.Fine st := by
  have hsound : Along Op.Sound initial ops := hops.mono fun _ _ h => h.1
  obtain ⟨st, hrun, hst⟩ := run_represents initial_represents hsound
  rw [run_seen initial_represents hops] at hrun hst
  refine ⟨st, hrun, hst, fun b hb => ?_, fun op => ⟨fun h => h.fine hst, fun h => h.meets hst⟩⟩
  obtain ⟨o, ho⟩ := List.mem_iff_getElem?.mp hb
  obtain ⟨q, hq⟩ := hst.queue ho
  obtain ⟨cells, -, hrep⟩ := hst.object ho hq
  exact hrep.bounds

theorem ring_buffer_refines_twoBuffers :
    ∃ st, initial.run [.construct 2, .write 0 ['a', 'b', 'c'], .copy 0, .dec 1 1] =
        .ok ([.nothing, .number 2, .nothing, .number 1], st) ∧
      st.Represents [⟨2, ['a', 'b'], by decide⟩, ⟨2, ['b'], by decide⟩] := by
  have hops : Along Op.Fine initial [.construct 2, .write 0 ['a', 'b', 'c'], .copy 0, .dec 1 1] :=
    .of_step ⟨show (0 : ℤ) ≤ 2 by decide, trivial⟩ rfl
      (.of_step ⟨trivial, Or.inl (by decide)⟩ rfl
        (.of_step ⟨trivial, trivial⟩ rfl (.of_step ⟨Or.inl (by decide), trivial⟩ rfl trivial)))
  obtain ⟨st, hrun, hst, -, -⟩ := ring_buffer_refines _ hops
  exact ⟨st, hrun, hst⟩

/-- A buffer with two bytes is assigned to itself. -/
theorem self_assignment_dangles :
    initial.run [.construct 4, .write 0 ['a', 'b'], .assign 0 0] = .error .dangling ∧
      ¬ ∃ st, initial.run [.construct 4, .write 0 ['a', 'b'], .assign 0 0] =
          .ok ((ByteQueue.run [] [.construct 4, .write 0 ['a', 'b'], .assign 0 0]).1, st) ∧
        st.Represents (ByteQueue.run [] [.construct 4, .write 0 ['a', 'b'], .assign 0 0]).2 := by
  have hfail : initial.run [.construct 4, .write 0 ['a', 'b'], .assign 0 0] = .error .dangling := by decide
  refine ⟨hfail, ?_⟩
  rintro ⟨st, hrun, -⟩
  rw [hfail] at hrun
  cases hrun

end RingStore

end GlbBackend
