import GlbBackend.Concurrent.Atomicity
import GlbBackend.DomainHistory

/-!
# Domain commands, one access at a time

The handlers of the domain commands take `glbMapMutex` around a search of the map and around the change that depends on
it; `setIPs` pushes record after record under the lock of the container.  That is enough (`reduces_code`): a section of
the map reads what its lock protects and then makes one change, and once the first record has been pushed nobody but the
pushing thread comes near the container, so the other records are as good as pushed.  Whatever happens access by access
could have happened section by section (`accesses_sections`), and the commands are linearizable in every interleaving of
single accesses (`accesses_linearizable`).

A change of the map is one access, the assignment `glbMap[fqdn] = glb` included.
-/

namespace GlbBackend

open Text Concurrent Concurrent.Proc Globals

/-! ### What the locks protect -/

/-- The map has no dangling pointers. -/
def Allocated (g : Globals) : Prop := ∀ fqdn glb, g.find fqdn = some glb → glb < g.containers.length

/-- The changes that the domain commands make, and the locks they make them under. -/
inductive Change (K : List (Frame LockId Scope)) (g : Globals) : (Globals → Globals) → Prop
  | none : Change K g id
  | insert (hheld : .lock .glbMapMutex .exclusive ∈ K) (fqdn : Str) (glb : GlbContainer) :
      Change K g fun g => g.insert fqdn glb
  | erase (hheld : .lock .glbMapMutex .exclusive ∈ K) (fqdn : Str) : Change K g fun g => g.erase fqdn
  | clear (hheld : .lock .glbMapMutex .exclusive ∈ K) : Change K g fun g => g.clear
  | push {glb : Ptr} (hheld : .lock (.glbMutex glb) .exclusive ∈ K) (hglb : glb < g.containers.length) (r : IPRecord) :
      Change K g fun g => g.update glb (·.push r)

/-- A record that is pushed onto a container whose lock is the first frame. -/
inductive Pushes : Frame LockId Scope → (Globals → Globals) → Globals → Prop
  | push {glb : Ptr} {g : Globals} (hglb : glb < g.containers.length) (r : IPRecord) :
      Pushes (.lock (.glbMutex glb) .exclusive) (fun g => g.update glb (·.push r)) g

theorem containers_update (g : Globals) (p : Ptr) (u : GlbContainer → GlbContainer) :
    (g.update p u).containers.length = g.containers.length := List.length_modify u g.containers p

/-- Updates of different containers change places. -/
theorem update_update_ne (g : Globals) {p q : Ptr} (h : p ≠ q) (u v : GlbContainer → GlbContainer) :
    (g.update p u).update q v = (g.update q v).update p u :=
  congrArg (fun cs => { g with containers := cs }) (List.modify_modify_ne u v g.containers h)

/-- A new container does not come where another one is. -/
theorem insert_update (g : Globals) {p : Ptr} (hp : p < g.containers.length) (u : GlbContainer → GlbContainer)
    (fqdn : Str) (glb : GlbContainer) : (g.update p u).insert fqdn glb = (g.insert fqdn glb).update p u := by
  have hheap : g.containers.modify p u ++ [glb] = (g.containers ++ [glb]).modify p u := by
    rw [List.modify_eq_take_cons_drop hp, List.modify_eq_take_cons_drop (Nat.lt_of_lt_of_le hp (by simp))]
    simp [List.take_append_of_le_length hp.le, List.drop_append_of_le_length hp, List.getElem_append_left hp]
  rw [Globals.insert, containers_update]
  exact congrArg (fun cs => { g with containers := cs, glbMap := g.glbMap.insert fqdn g.containers.length }) hheap

section Laws

variable {K : List (Frame LockId Scope)} {f h : Globals → Globals} {fr fr' : Frame LockId Scope} {g : Globals}

/-- A change leaves no pointer dangling. -/
theorem Change.grows (hf : Change K g f) :
    (Allocated g → Allocated (f g)) ∧ g.containers.length ≤ (f g).containers.length := by
  cases hf with
  | none => exact ⟨id, le_refl _⟩
  | insert _ fqdn glb =>
      have hlength : (g.insert fqdn glb).containers.length = g.containers.length + 1 := List.length_append
      refine ⟨fun hg name p hp => ?_, Nat.le_of_lt hlength.ge⟩
      rw [find_insert] at hp
      split_ifs at hp with hname
      · rw [← Option.some.inj hp]
        exact hlength.ge
      · exact Nat.lt_trans (hg name p hp) hlength.ge
  | erase _ fqdn =>
      refine ⟨fun hg name p hp => ?_, le_refl _⟩
      rw [find_erase] at hp
      split_ifs at hp
      exact hg name p hp
  | clear _ =>
      refine ⟨fun _ name p hp => ?_, le_refl _⟩
      rw [find_clear] at hp
      cases hp
  | @push glb _ _ r =>
      have hlength := containers_update g glb (·.push r)
      refine ⟨fun hg name p hp => ?_, hlength.ge⟩
      rw [hlength]
      exact hg name p hp

theorem Pushes.grows (hh : Pushes fr h g) :
    (Allocated g → Allocated (h g)) ∧ g.containers.length ≤ (h g).containers.length := by
  cases hh with
  | push hglb r => exact (Change.push List.mem_cons_self hglb r : Change [.lock (.glbMutex _) .exclusive] _ _).grows

/-- Only who holds `glbMapMutex` exclusively changes what is found. -/
theorem Change.find (hf : Change K g f) (m : Mode) (hclash : ¬ Clash (.lock .glbMapMutex m) K) :
    (f g).find = g.find := by
  have hnot : .lock .glbMapMutex .exclusive ∉ K := by
    intro hheld
    cases m with
    | exclusive => exact hclash ⟨_, hheld⟩
    | shared => exact hclash hheld
  cases hf with
  | none => rfl
  | insert hheld => exact absurd hheld hnot
  | erase hheld => exact absurd hheld hnot
  | clear hheld => exact absurd hheld hnot
  | push => rfl

/-- A record that is pushed changes places with the changes of others. -/
theorem Pushes.passes (hh : Pushes fr h g) (hf : Change K g f) (hclash : ¬ Clash fr K) :
    f (h g) = h (f g) ∧ Change K (h g) f ∧ Pushes fr h (f g) := by
  have hgrows := hf.grows.2
  cases hh with
  | @push glb _ hglb r =>
      have hlt := Nat.lt_of_lt_of_le hglb hgrows
      cases hf with
      | none => exact ⟨rfl, .none, .push hlt r⟩
      | insert hheld fqdn c => exact ⟨insert_update g hglb _ fqdn c, .insert hheld fqdn c, .push hlt r⟩
      | erase hheld fqdn => exact ⟨rfl, .erase hheld fqdn, .push hlt r⟩
      | clear hheld => exact ⟨rfl, .clear hheld, .push hlt r⟩
      | @push glb' hheld hglb' r' =>
          have hne : glb ≠ glb' := by
            intro heq
            rw [heq] at hclash
            exact hclash ⟨_, hheld⟩
          have hglb'' : glb' < (g.update glb (·.push r)).containers.length := by rwa [containers_update]
          exact ⟨update_update_ne g hne _ _, .push hheld hglb'' r', .push hlt r⟩

/-- Records that are pushed onto different containers change places. -/
theorem Pushes.swaps (hh : Pushes fr h g) (hf : Pushes fr' f g) (hclash : ¬ Clash fr [fr']) :
    h (f g) = f (h g) ∧ Pushes fr h (f g) := by
  cases hf with
  | push hglb r =>
      have hchange := Change.push (List.mem_singleton_self _) hglb r
      exact ⟨(hh.passes hchange hclash).1.symm, (hh.passes hchange hclash).2.2⟩

theorem Pushes.stays (hh : Pushes fr h g) (hf : Pushes fr f g) : Pushes fr h (f g) := by
  have hgrows := hf.grows.2
  cases hh with
  | push hglb r => exact .push (Nat.lt_of_lt_of_le hglb hgrows) r

end Laws

/-- `glbMapMutex` protects what is found in the map, and the lock of a container its records. -/
def storeProtection : Protection LockId Scope Globals where
  sees fr g g' := ∀ m, fr = .lock .glbMapMutex m → g'.find = g.find
  grows g g' := (Allocated g → Allocated g') ∧ g.containers.length ≤ g'.containers.length
  allows K f g := Change K g f
  follows := Pushes
  refl _ _ _ _ := rfl
  trans h₁ h₂ m hm := (h₂ m hm).trans (h₁ m hm)
  grows_refl _ := ⟨id, le_refl _⟩
  grows_trans h₁ h₂ := ⟨h₂.1 ∘ h₁.1, h₁.2.trans h₂.2⟩
  allows_grows hf := hf.grows
  follows_grows hh := hh.grows
  spares hf hclash m hm := hf.find m (hm ▸ hclash)
  hides hh _ _ _ := by
    cases hh
    rfl
  passes hh hf hclash := hh.passes hf hclash
  swaps hh hf hclash := hh.swaps hf hclash
  stays hh hf := hh.stays hf

/-! ### The sections -/

section Sections

variable {α : Type} {l : LockId} {m : Mode} {c : Scope} {known : Globals → Prop}

/-- The end of a block. -/
theorem reduces_end (ph : Phase LockId Scope Globals) (a : α) :
    storeProtection.ReducesTo (fun _ _ => True) ph [.scope c, .lock l m] (leave c (release l (ret a))) :=
  ⟨_, rfl, m, [], rfl, rfl, _, rfl, trivial⟩

/-- A block that searches the map and then returns, or makes a change and returns. -/
theorem reduces_search (found : Globals → Bool) (hfound : ∀ g g' : Globals, g'.find = g.find → found g = found g')
    (a b : α) {f : Globals → Globals} (hf : ∀ g, Change [.scope c, .lock .glbMapMutex .exclusive] g f) :
    storeProtection.Reduces (guarded .glbMapMutex .exclusive (scope c
      (Proc.read.bind fun g => if found g then ret a else (Proc.modify f).bind fun _ => ret b))) := by
  refine fun known => Or.inl ⟨rfl, fun g _ => ⟨fun g' h => ?_, ?_⟩⟩
  · show ((if found g then ret a else (Proc.modify f).bind fun _ => ret b).bind _).bind _ =
      ((if found g' then ret a else (Proc.modify f).bind fun _ => ret b).bind _).bind _
    rw [hfound g g' (h _ rfl)]
  · show storeProtection.ReducesTo _ _ _
      (((if found g then ret a else (Proc.modify f).bind fun _ => ret b).bind _).bind _)
    cases found g with
    | true => exact reduces_end _ a
    | false => exact Or.inr fun g' _ => ⟨fun _ _ => rfl, hf g', reduces_end _ b⟩

theorem reduces_debug : storeProtection.Reduces debug := fun _ => ⟨_, [], rfl, rfl, _, rfl, trivial⟩

theorem reduces_addSection (fqdn : Str) (glbType : ℤ) : storeProtection.Reduces (addSection fqdn glbType) := by
  refine reduces_search (fun g => (g.find fqdn).isSome) (fun g g' h => ?_) _ _ fun g =>
    .insert (List.mem_cons_of_mem _ List.mem_cons_self) fqdn _
  simp only [h]

theorem reduces_delSection (fqdn : Str) : storeProtection.Reduces (delSection fqdn) := by
  refine reduces_search (fun g => (g.find fqdn).isNone) (fun g g' h => ?_) _ _ fun g =>
    .erase (List.mem_cons_of_mem _ List.mem_cons_self) fqdn
  simp only [h]

theorem reduces_clearSection : storeProtection.Reduces clearSection := fun _ =>
  Or.inr fun _ _ => ⟨fun _ _ => rfl, .clear (List.mem_cons_of_mem _ List.mem_cons_self), reduces_end _ ()⟩

/-- What is found in the map is in the heap, and stays there. -/
theorem reduces_findSection (fqdn : Str) :
    storeProtection.ReducesTo (fun found known => ∀ glb, found = some glb → ∀ g, known g → glb < g.containers.length)
      (.outside Allocated) [] (findSection fqdn) := by
  refine Or.inl ⟨rfl, fun g hg => ⟨fun g' h => ?_, _, rfl, _, [], rfl, rfl, _, rfl, fun glb hglb g'' hg'' => ?_⟩⟩
  · show ((ret (g.find fqdn)).bind _).bind _ = ((ret (g'.find fqdn)).bind _).bind _
    rw [h _ rfl]
  · obtain ⟨g', ⟨-, -, -, hle⟩, -, hle'⟩ := hg''
    exact Nat.lt_of_lt_of_le (hg fqdn glb hglb) (hle.trans hle')

/-- Once a record has been pushed the others may follow. -/
theorem reduces_pushIPs (glb : Ptr) (ips : List IPRecord) (hglb : ∀ g, known g → glb < g.containers.length) :
    storeProtection.ReducesTo (fun _ _ => True) (.after (.lock (.glbMutex glb) .exclusive) known)
      [.scope .setIPs, .lock (.glbMutex glb) .exclusive]
      (((pushIPs glb ips).bind fun a => leave .setIPs (ret a)).bind fun a => release (.glbMutex glb) (ret a)) := by
  induction ips with
  | nil => exact reduces_end _ ()
  | cons r ips ih => exact ⟨fun _ _ => rfl, fun g hg => ⟨.push (hglb g hg) r, ih⟩⟩

theorem reduces_setIPs (glb : Ptr) (ips : List IPRecord) (hglb : ∀ g, known g → glb < g.containers.length) :
    storeProtection.ReducesTo (fun _ _ => True) (.outside known) [] (setIPs glb ips) := by
  cases ips with
  | nil => exact reduces_end _ ()
  | cons r ips =>
      -- the first record counts
      refine Or.inr fun g hg => ⟨fun _ _ => rfl, ?_, ?_⟩
      · exact .push (List.mem_cons_of_mem _ List.mem_cons_self) (hglb g hg) r
      · refine reduces_pushIPs glb ips fun g' hg' => Nat.lt_of_lt_of_le (hglb g hg) ?_
        exact (containers_update g glb (·.push r)).ge.trans hg'.2

/-- **The handlers of the domain commands reduce.** -/
theorem reduces_code (cmd : DomainCommand) :
    storeProtection.ReducesTo (fun _ _ => True) (.outside Allocated) [] cmd.code := by
  cases cmd with
  | add fqdn algoName =>
      rw [DomainCommand.code]
      split_ifs
      · exact Protection.Reduces.ret _ _
      · exact ((reduces_addSection fqdn _).bind fun _ => Protection.Reduces.ret _) _
  | del fqdn => exact ((reduces_delSection fqdn).bind fun _ => Protection.Reduces.ret _) _
  | snapshot fqdn entries =>
      refine (reduces_findSection fqdn).bind fun found known hfound => ?_
      cases found with
      | none => exact Protection.Reduces.ret _ _
      | some glb =>
          exact (reduces_setIPs glb _ (hfound glb rfl)).bind fun _ known' _ => Protection.Reduces.ret _ known'
  | clear =>
      exact (reduces_debug.bind fun _ => reduces_clearSection.bind fun _ => Protection.Reduces.ret _) _
  | unknown line => exact Protection.Reduces.ret _ _

end Sections

/-! ### Linearizability -/

section Runs

variable {T : Type} [DecidableEq T] {ord : MapOrder} {program : T → List Str} {g₀ : Globals}
  {es : List (Event T Str Scope Globals (List Str))} {f : Fine T LockId Scope Globals (List Str)}

/-- **The locks make the sections.**  What clients see of domain commands whose accesses interleave, they could see of
commands whose sections interleave. -/
theorem accesses_sections (hprogram : ∀ t, ∀ line ∈ program t, (domainCommand? line).isSome = true)
    (hg₀ : g₀.WellFormed) (hrun : FineRun (clients ord program) (Fine.start g₀) es f) :
    ∃ es' c owed, Run (clients ord program) (Config.start g₀) es' c ∧ es'.filter Event.isCall = es ∧
      storeProtection.Simulates f owed c := by
  have halloc : Allocated g₀ := by
    intro fqdn glb hfind
    obtain ⟨c, hc, -⟩ := hg₀.mapped fqdn glb hfind
    exact container_lt hc
  refine (hrun.sections storeProtection (fun g hg => hg.1 halloc) fun t line hline => ?_).2
  obtain ⟨cmd, hcmd⟩ := Option.isSome_iff_exists.mp (hprogram t line hline)
  show storeProtection.ReducesTo _ _ [] (dispatch ord line)
  rw [dispatch_eq_code ord hcmd]
  exact reduces_code cmd

/-- **Linearizability, access by access.**  Whatever domain commands any number of clients issue, and however their
single accesses interleave where the locks let them: once all have returned there is an order of the commands, each
with the reply it got, that keeps every client's order and real time, such that the handlers, run one at a time in that
order, give these replies and end in the same map. -/
theorem accesses_linearizable (ord : MapOrder)
    (hprogram : ∀ t, ∀ line ∈ program t, (domainCommand? line).isSome = true) (hg₀ : g₀.WellFormed)
    (hrun : FineRun (clients ord program) (Fine.start g₀) es f)
    (hdone : ∀ t, f.running t = none ∧ f.finished t = (program t).length) :
    ∃ (order : List (Answered T)) (g' : Globals),
      (order.map fun e => (e.thread, e.index)).Nodup ∧
      (∀ t k, (∃ e ∈ order, e.thread = t ∧ e.index = k) ↔ k < (program t).length) ∧
      (∀ e ∈ order, (program e.thread)[e.index]? = some e.op ∧
        Event.respond e.thread e.index e.reply ∈ es) ∧
      (order.Pairwise fun e e' => e.thread = e'.thread → e.index < e'.index) ∧
      (order.Pairwise fun e e' => ¬ Precedes es (e'.thread, e'.index) (e.thread, e.index)) ∧
      Serial ord g₀ order g' ∧
      ∀ name, (g'.find name).isSome = (f.shared.find name).isSome ∧ g'.directory name = f.shared.directory name := by
  obtain ⟨es', c, owed, hsections, rfl, hsim⟩ := accesses_sections hprogram hg₀ hrun
  have hshared := hsim.settled fun t => (hdone t).1
  have hdone' : ∀ t, c.running t = none ∧ c.finished t = (program t).length := fun t =>
    ⟨(hsim.idle t (hdone t).1).1, by rw [hsim.finished]; exact (hdone t).2⟩
  obtain ⟨G, order, hrelated, hlin, hissued⟩ :=
    (domain_simulation ord hprogram).linearized (related_start hg₀) hsections
  have hops : ∀ e ∈ order, (program e.thread)[e.index]? = some e.op := hlin.ops
  have hsome : ∀ e ∈ order, (domainCommand? e.op).isSome = true := fun e he =>
    hprogram e.thread e.op (List.mem_of_getElem? (hops e he))
  obtain ⟨g', hserial, hg', hdir⟩ := legal_serial ord hg₀ hlin.legal hsome
  rw [hrelated.state, hshared] at hdir
  refine ⟨order, g', hlin.nodup, hlin.total hissued hdone', fun e he => ⟨hops e he, ?_⟩, hlin.clients,
    hlin.realTime.imp fun hnot hprec => hnot (precedes_filter.mp hprec), hserial, fun name => ⟨?_, congrFun hdir name⟩⟩
  · refine List.mem_filter.mpr ⟨hlin.replied hissued he ?_, rfl⟩
    rw [(hdone' e.thread).2]
    exact (List.getElem?_eq_some_iff.mp (hops e he)).1
  · rw [← hg'.directory_isSome, hdir, ← hshared, hrelated.sound.inv.directory_isSome]

end Runs

/-! #### Two clients fill the same domain -/

/-- Each of two clients adds the domain and then fills it. -/
def fillTwice : Bool → List Str
  | false => ["ADD_DOMAIN a NONE".toList, "SNAPSHOT a 4-60-x-0 4-60-y-0".toList]
  | true => ["ADD_DOMAIN a NONE".toList, "SNAPSHOT a 4-60-z-0".toList]

/-- A run of them under a schedule. -/
def fillTwiceRun (picks : List Bool) :
    List (Event Bool Str Scope Globals (List Str)) × Fine Bool LockId Scope Globals (List Str) :=
  fineSchedule [false, true] (clients MapOrder.entries fillTwice) picks [] (Fine.start (init 0))

/-- The first has searched the map and found nothing when the second comes, and has pushed one record of two when the
second has found the container; both times the lock makes the second wait. -/
def waiting : List Bool :=
  [false, true, false, false, false, true, true, false, false, false, true, true, true, true, true, true, false] ++
    [false, false, false, false, false, false, false, true, true, true, true, true, true, false, false, true, true]

/-- Then the first goes on, and the second after it. -/
def returning : List Bool := [false, false, false, false, true, true, true, true, true, true]

theorem accesses_linearizable_fillTwice :
    (∃ c, (fillTwiceRun waiting).2.shared.container 0 = some c ∧ c.ips.length = 1) ∧
      ∃ (order : List (Answered Bool)) (g' : Globals), Serial MapOrder.entries (init 0) order g' ∧
        (∀ t, ∀ k < 2, ∃ e ∈ order, e.thread = t ∧ e.index = k ∧
          Event.respond t k e.reply ∈ (fillTwiceRun (waiting ++ returning)).1) ∧
        (g'.directory "a".toList).map (fun d => d.records.map IPRecord.ipAddress) =
          some ["x".toList, "y".toList, "z".toList] := by
  have hprogram : ∀ t, ∀ line ∈ fillTwice t, (domainCommand? line).isSome = true := by
    intro t line hline
    cases t with
    | false =>
        rcases List.mem_pair.mp hline with rfl | rfl
        · decide
        · decide
    | true =>
        rcases List.mem_pair.mp hline with rfl | rfl
        · decide
        · decide
  have hrun : FineRun (clients MapOrder.entries fillTwice) (Fine.start (init 0)) (fillTwiceRun (waiting ++ returning)).1
      (fillTwiceRun (waiting ++ returning)).2 :=
    fineSchedule_run (fun t => by cases t <;> decide) _ FineRun.nil
  obtain ⟨order, g', -, htotal, hreplies, -, -, hserial, hsame⟩ :=
    accesses_linearizable MapOrder.entries hprogram (wellFormed_init 0) hrun
      (fun t => by cases t <;> exact ⟨rfl, rfl⟩)
  refine ⟨⟨_, rfl, rfl⟩, order, g', hserial, fun t k hk => ?_, ?_⟩
  · have hlength : (fillTwice t).length = 2 := by cases t <;> rfl
    obtain ⟨e, he, rfl, rfl⟩ := (htotal t k).mpr (hlength ▸ hk)
    exact ⟨e, he, rfl, rfl, (hreplies e he).2⟩
  · rw [(hsame "a".toList).2]
    rfl

end GlbBackend
