import GlbBackend.Concurrent.Monitor
import GlbBackend.Text.Numeral

/-!
# The singleton that starts the command server

PowerDNS makes a `GLBBackend` for each of its threads, and each asks `ServerSingleton::getInstance` for the address and
port of its configuration.  The first to come in constructs the static `instance`, which starts the listener of the
command server; nobody else does (`one_listener`), and nobody gets the instance before the listener is started.

The debug output around the start takes `debugMutex` inside `serverSingletonMutex`.  The start of the listener is the
access that counts; that the static is initialised is written down after it, under the same lock.
-/

namespace GlbBackend

open Text Concurrent Concurrent.Proc

namespace ServerSingleton

/-- The locks on the way. -/
inductive SingletonLock
  | serverSingletonMutex
  | debugMutex
  deriving DecidableEq

/-- Is the static `instance` initialised, and which listeners have been started? -/
structure Startup where
  initialised : Bool
  listeners : List (Str × ℤ)

/-- Code of a thread on its way to the instance. -/
abbrev Code (α : Type) := Proc SingletonLock Empty Startup α

/-- `if (DEBUG) { lock_guard<mutex> lock(debugMutex); cout << ...; }` -/
def debug : Code Unit := guarded .debugMutex .exclusive (ret ())

/-- The constructor: `server.start(ip, port)` between two lines of output. -/
def serverSingleton (ip : Str) (port : ℤ) : Code Unit := do
  debug
  modify fun s => { s with listeners := s.listeners ++ [(ip, port)] }
  debug

/-- `static ServerSingleton instance(ip, port);` is initialised once its constructor is through. -/
def getInstance (ip : Str) (port : ℤ) : Code Unit :=
  guarded .serverSingletonMutex .exclusive do
    let s ← read
    if s.initialised then ret ()
    else do
      serverSingleton ip port
      modify fun s => { s with initialised := true }

/-- Threads that ask for the instance, with an address and a port each time. -/
def threads {T : Type} (program : T → List (Str × ℤ)) : System T (Str × ℤ) SingletonLock Empty Startup Unit :=
  ⟨fun call => getInstance call.1 call.2, program⟩

/-- The process starts without an instance. -/
def start : Startup := ⟨false, []⟩

/-! ### One listener -/

/-- What asking is for: the first call starts a listener. -/
def listen (call : Str × ℤ) (listeners : List (Str × ℤ)) : Unit × List (Str × ℤ) :=
  ((), if listeners = [] then [call] else listeners)

/-- The instance is initialised when a listener is started. -/
def Consistent (s : Startup) : Prop := s.initialised = true ↔ s.listeners ≠ []

theorem getInstance_section (ip : Str) (port : ℤ) {s : Startup} (hs : Consistent s) :
    rest (getInstance ip port) s = ret () ∧
      (visit (getInstance ip port) s).post = ⟨true, (listen (ip, port) s.listeners).2⟩ := by
  obtain ⟨initialised, listeners⟩ := s
  cases initialised with
  | true =>
      have hne : listeners ≠ [] := hs.mp rfl
      rw [listen, if_neg hne]
      exact ⟨rfl, rfl⟩
  | false =>
      have hnil : listeners = [] := not_not.mp fun hne => Bool.false_ne_true (hs.mpr hne)
      rw [hnil]
      exact ⟨rfl, rfl⟩

theorem listen_ne_nil (call : Str × ℤ) (listeners : List (Str × ℤ)) : (listen call listeners).2 ≠ [] := by
  rw [listen]
  split_ifs with h
  · exact List.cons_ne_nil _ _
  · exact h

theorem monitor {T : Type} (program : T → List (Str × ℤ)) :
    Monitor (threads program) listen Consistent Startup.listeners where
  active _ := rfl
  replies call _ hs := (getInstance_section call.1 call.2 hs).1
  post call _ hs := congrArg Startup.listeners (getInstance_section call.1 call.2 hs).2
  inv call s hs := by
    show Consistent (visit (getInstance call.1 call.2) s).post
    rw [(getInstance_section call.1 call.2 hs).2]
    exact ⟨fun _ => listen_ne_nil call s.listeners, fun _ => rfl⟩

/-- `serverSingletonMutex` protects the instance, and after the start whoever holds it starts nothing more. -/
def protection : Protection SingletonLock Empty Startup :=
  .whole .serverSingletonMutex fun g => ∀ s, (g s).listeners = s.listeners

theorem reduces_getInstance (ip : Str) (port : ℤ) : protection.Reduces (getInstance ip port) := by
  refine fun known => Or.inl ⟨rfl, fun s _ => ⟨fun s' h => by rw [h _ rfl], ?_⟩⟩
  show protection.ReducesTo _ _ _ (Proc.bind (if s.initialised then ret () else
    (serverSingleton ip port).bind fun _ => Proc.modify fun s => { s with initialised := true }) _)
  cases s.initialised with
  | true => exact ⟨_, [], rfl, rfl, _, rfl, trivial⟩
  | false =>
      -- the output, and then the start
      refine ⟨_, _, rfl, Or.inr fun s' _ => ⟨fun _ _ => rfl, Or.inl (List.mem_singleton_self _), ?_⟩⟩
      refine ⟨_, _, rfl, fun _ _ => rfl, fun s'' _ => ⟨⟨rfl, fun _ => rfl⟩, ?_⟩⟩
      exact ⟨_, [], rfl, rfl, _, rfl, trivial⟩

/-- What is owed starts no listener. -/
theorem settle_listeners {T : Type} {f : Fine T SingletonLock Empty Startup Unit}
    {owed : List (T × (Startup → Startup))} {s : Startup} (h : protection.Owes f owed s) :
    (Protection.settle owed s).listeners = s.listeners := by
  induction owed generalizing s with
  | nil => rfl
  | cons x owed ih =>
      obtain ⟨fr, -, -, hquiet⟩ := h x List.mem_cons_self
      have hrest : protection.Owes f owed (x.2 s) := fun y hy => h y (List.mem_cons_of_mem x hy)
      exact (ih hrest).trans (hquiet s)

/-- One after the other, the calls start the listener of the first. -/
theorem legal_listen {T : Type} {order : List (Entry T (Str × ℤ) Unit)} {listeners listeners' : List (Str × ℤ)}
    (h : Legal listen listeners order listeners') :
    listeners' = if listeners = [] then (order.head?.map Entry.op).toList else listeners := by
  induction h with
  | nil listeners =>
      split_ifs with hnil
      · exact hnil
      · rfl
  | @cons listeners _ e order _ _ ih =>
      rw [ih, if_neg (listen_ne_nil e.op listeners), listen]
      rfl

/-- **One listener.**  However the threads interleave, in every state at most one listener has been started, with the
address and the port of one of the calls, and it has been started before any call returns. -/
theorem one_listener {T : Type} [DecidableEq T] {program : T → List (Str × ℤ)}
    {es : List (Event T (Str × ℤ) Empty Startup Unit)} {f : Fine T SingletonLock Empty Startup Unit}
    (hrun : FineRun (threads program) (Fine.start start) es f) :
    (f.shared.listeners = [] ∨ ∃ t, ∃ call ∈ program t, f.shared.listeners = [call]) ∧
      ∀ t k, Event.respond t k () ∈ es → f.shared.listeners ≠ [] := by
  obtain ⟨owed, howes, order, hlegal, hops, hcomplete⟩ := (monitor program).explains
    (fun call => reduces_getInstance call.1 call.2) ⟨fun h => absurd h Bool.false_ne_true, fun h => absurd rfl h⟩ hrun
  have hlisteners : f.shared.listeners = (order.head?.map Entry.op).toList :=
    (settle_listeners howes).symm.trans (legal_listen hlegal)
  rw [hlisteners]
  cases order with
  | nil =>
      refine ⟨Or.inl rfl, fun t k hr => ?_⟩
      obtain ⟨e, he, -⟩ := hcomplete t k () hr
      exact absurd he List.not_mem_nil
  | cons e order =>
      exact ⟨Or.inr ⟨e.thread, e.op, List.mem_of_getElem? (hops e List.mem_cons_self), rfl⟩,
        fun _ _ _ => List.cons_ne_nil _ _⟩

/-! #### Two backends at once -/

/-- The threads are configured differently. -/
def twoPorts : Bool → List (Str × ℤ)
  | false => [("127.0.0.1".toList, 8888)]
  | true => [("127.0.0.1".toList, 8889)]

/-- The second waits until the first has started the listener, and then goes in. -/
def twoPortsRun : List (Event Bool (Str × ℤ) Empty Startup Unit) × Fine Bool SingletonLock Empty Startup Unit :=
  fineSchedule [false, true] (threads twoPorts)
    [true, false, true, true, false, true, true, true, true, true, true, true, true, false, false] [] (Fine.start start)

theorem one_listener_twoPorts :
    FineRun (threads twoPorts) (Fine.start start) twoPortsRun.1 twoPortsRun.2 ∧
      twoPortsRun.2.frames false = [.lock .serverSingletonMutex .exclusive] ∧
      Event.respond true 0 () ∈ twoPortsRun.1 ∧ twoPortsRun.2.shared.listeners ≠ [] := by
  have hrun : FineRun (threads twoPorts) (Fine.start start) twoPortsRun.1 twoPortsRun.2 :=
    fineSchedule_run (fun t => by cases t <;> decide) _ FineRun.nil
  exact ⟨hrun, rfl, mem_of_replyOf rfl, (one_listener hrun).2 true 0 (mem_of_replyOf rfl)⟩

end ServerSingleton

end GlbBackend
