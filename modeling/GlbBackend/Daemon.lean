import GlbBackend.Answers
import GlbBackend.Safety

/-!
# The daemon: command lines and queries side by side

The running program as a system of threads: each thread issues requests, a command line that a connection
has stored or a query that PowerDNS asks of one backend instance, and the code of a request is the handler
that the dispatch chooses, or `lookup` followed by calls of `get`.

Every request is `Safe`, so whatever the threads do, no request ever faults and every state is
`WellFormed` (`running_ne_fault`, `Globals.Reachable.wellFormed`).
-/

namespace GlbBackend

open Text Concurrent Concurrent.Proc Globals

/-- One request to the daemon. -/
inductive Request
  /-- A stored line of a connection. -/
  | command (line : Str)
  /-- `lookup` on the instance, then `n` calls of `get` with the record object. -/
  | query (type : QType) (qdomain : Str) (n : ℕ) (rr : DNSResourceRecord) (b : GLBBackend)

/-- What a request returns. -/
inductive Reply
  | lines (out : List Str)
  | answers (as : List (Option DNSResourceRecord))
  deriving DecidableEq

/-- The code of a request. -/
def serve (ord : MapOrder) (rnd : Randomness) : Request → Code Reply
  | .command line => (dispatch ord line).bind fun out => ret (.lines out)
  | .query type qdomain n rr b => (query rnd type qdomain n rr b).bind fun as => ret (.answers as)

/-- **Every request observes the rules.** -/
theorem keeps_serve {C : Scope → Prop} (hC : ∀ c, C c) (ord : MapOrder) (rnd : Randomness) (req : Request) :
    (rules C).Keeps [] (serve ord rnd req) := by
  cases req with
  | command line => exact (keeps_dispatch hC ord line).bind fun _ => Policy.Keeps.ret _
  | query type qdomain n rr b =>
      exact (keeps_query (fun c _ => hC c) rnd type qdomain n rr b).bind fun _ => Policy.Keeps.ret _

/-- The daemon with any number of threads. -/
def daemon {T : Type} (ord : MapOrder) (rnd : Randomness) (program : T → List Request) :
    System T Request LockId Scope Globals Reply :=
  ⟨serve ord rnd, program⟩

/-- **Every request is safe.** -/
theorem serve_safe (ord : MapOrder) (rnd : Randomness) (req : Request) (h : Globals) :
    SafeCode (fun _ _ => True) h (serve ord rnd req) := by
  cases req with
  | command line => exact Safe.bind (dispatch_safe h ord line) fun _ _ _ => trivial
  | query type qdomain n rr b =>
      exact Safe.bind (query_safe h rnd type qdomain n rr b) fun _ _ _ => trivial

section Runs

variable {T : Type} [DecidableEq T] {ord : MapOrder} {rnd : Randomness} {program : T → List Request}
  {g₀ : Globals} {es : List (Event T Request Scope Globals Reply)}
  {c : Config T LockId Scope Globals Reply}

theorem daemon_safe (hrun : Run (daemon ord rnd program) (Config.start g₀) es c)
    (hg₀ : g₀.WellFormed) :
    c.Sound WellFormed Grows ∧ (∀ s ∈ states es, s.WellFormed ∧ s.Grows c.shared) ∧
      (states es).Pairwise Grows :=
  Run.safe (fun req h => serve_safe ord rnd req h) Grows.refl Grows.trans hrun hg₀

/-- **No thread ever runs into undefined behaviour.** -/
theorem running_ne_fault (hrun : Run (daemon ord rnd program) (Config.start g₀) es c)
    (hg₀ : g₀.WellFormed) (t : T) : c.running t ≠ some fault := by
  intro hfault
  obtain ⟨h, -, hsafe⟩ := (daemon_safe hrun hg₀).1.threads t fault hfault
  exact hsafe

/-- The states an operation's own sections found and left are well-formed and ordered. -/
theorem own_visits (hrun : Run (daemon ord rnd program) (Config.start g₀) es c)
    (hg₀ : g₀.WellFormed) (t : T) (k : ℕ) :
    (∀ v ∈ own t k es, v.pre.WellFormed) ∧ (visited (own t k es)).Pairwise Grows := by
  obtain ⟨-, h1, h2⟩ := daemon_safe hrun hg₀
  have hsub := visited_own_sublist t k es
  refine ⟨fun v hv => ?_, h2.sublist hsub⟩
  have hmem : v.pre ∈ visited (own t k es) := List.mem_flatMap.mpr ⟨v, hv, by simp⟩
  exact (h1 v.pre (hsub.subset hmem)).1

/-- A query that has returned ran from its start to its end. -/
theorem own_trace_query (hrun : Run (daemon ord rnd program) (Config.start g₀) es c)
    {t : T} {k : ℕ} {type : QType} {qdomain : Str} {n : ℕ} {rr : DNSResourceRecord} {b : GLBBackend}
    {as : List (Option DNSResourceRecord)}
    (hreq : (program t)[k]? = some (.query type qdomain n rr b))
    (hresp : Event.respond t k (.answers as) ∈ es) :
    Trace (query rnd type qdomain n rr b) (own t k es) (ret as) := by
  obtain ⟨-, req, hreq', ht⟩ := hrun.recorded.responded t k _ hresp
  have heq : req = .query type qdomain n rr b := Option.some.inj (hreq'.symm.trans hreq)
  rw [heq] at ht
  obtain ⟨vs₁, vs₂, as', hvs, h1, h2⟩ := 
    Trace.bind ht (balanced_of_rules (keeps_query (fun _ _ => trivial) rnd type qdomain n rr b))
  obtain ⟨hnil, hret⟩ := Trace.of_ret h2
  injection hret with hret
  injection hret with has
  rw [hvs, hnil, List.append_nil, has]
  exact h1

end Runs

/-! ### Reachable states -/

/-- A state that some threads reach from the initial one. -/
def Globals.Reachable (ord : MapOrder) (rnd : Randomness) (g : Globals) : Prop :=
  ∃ (seed : ℕ) (program : ℕ → List Request) (es : List (Event ℕ Request Scope Globals Reply))
    (c : Config ℕ LockId Scope Globals Reply),
    Run (daemon ord rnd program) (Config.start (init seed)) es c ∧ c.shared = g

theorem Globals.Reachable.wellFormed {ord : MapOrder} {rnd : Randomness} {g : Globals}
    (hg : g.Reachable ord rnd) : g.WellFormed := by
  obtain ⟨seed, program, es, c, hrun, rfl⟩ := hg
  exact (daemon_safe hrun (wellFormed_init seed)).1.inv

theorem reachable_init (ord : MapOrder) (rnd : Randomness) (seed : ℕ) :
    (init seed).Reachable ord rnd :=
  ⟨seed, fun _ => [], [], Config.start (init seed), Run.nil, rfl⟩

end GlbBackend
