import GlbBackend.Daemon

/-!
# A connection: batches and reply framing

Two results about `server`, the thread of one connection.

* `batch_semantics` — the lines received are cut into batches at the `OVER` lines (`batches`), and what the
  connection does is to dispatch the lines of one batch after the other: the loop's two buffers never hold
  anything else.  An `OVER` line more or less before the last one changes neither the state nor the replies.
* `reply_framing` — what is written for a batch is a text that a reader can cut up again: every command
  contributes a known number of lines, none of them is `OVER` or contains a line break, and the last line
  is `OVER`.

Both are inductions over the lines; the step is the dispatch of one line.
-/

namespace GlbBackend

open Text Concurrent Concurrent.Proc Globals

/-! ### Batches -/

/-- The batches of a connection: the runs of lines before each `OVER` line. -/
def batches (lines : List Str) : List (List Str) := (lines.splitOnP isOver).dropLast

/-- The batches that end at the `OVER` lines of `lines`, when `inLines` is stored already. -/
def batchesFrom (inLines lines : List Str) : List (List Str) :=
  ((lines.splitOnP isOver).modifyHead (inLines ++ ·)).dropLast

theorem batchesFrom_over {line : Str} (h : isOver line = true) (inLines rest : List Str) :
    batchesFrom inLines (line :: rest) = inLines :: batchesFrom [] rest := by
  have hid : (rest.splitOnP isOver).modifyHead ([] ++ ·) = rest.splitOnP isOver := by
    cases rest.splitOnP isOver <;> rfl
  rw [batchesFrom, batchesFrom, hid, List.splitOnP_cons_eq_if_modifyHead, if_pos h,
    List.modifyHead_cons, List.append_nil, List.dropLast_cons_of_ne_nil (List.splitOnP_ne_nil _ _)]

theorem batchesFrom_stored {line : Str} (h : ¬ isOver line = true) (inLines rest : List Str) :
    batchesFrom inLines (line :: rest) = batchesFrom (inLines ++ [line]) rest := by
  rw [batchesFrom, batchesFrom, List.splitOnP_cons_eq_if_modifyHead, if_neg h]
  cases rest.splitOnP isOver with
  | nil => rfl
  | cons b bs => simp

theorem flatten_splitOnP (lines : List Str) :
    (lines.splitOnP isOver).flatten = lines.filter fun l => !isOver l := by
  induction lines with
  | nil => rfl
  | cons line rest ih =>
      rw [List.splitOnP_cons_eq_if_modifyHead, List.filter_cons]
      by_cases h : isOver line = true
      · rw [if_pos h, if_neg (by simp [h]), List.flatten_cons, List.nil_append, ih]
      · rw [if_neg h, if_pos (by simp [h]), ← ih]
        cases hs : rest.splitOnP isOver with
        | nil => exact absurd hs (List.splitOnP_ne_nil _ _)
        | cons b bs => simp

/-- **The commands that run** are the lines before the last `OVER` line, without the `OVER` lines among
them. -/
theorem flatten_batches {before after : List Str} {o : Str} (ho : isOver o = true)
    (hafter : ∀ l ∈ after, isOver l = false) :
    (batches (before ++ o :: after)).flatten = before.filter fun l => !isOver l := by
  rw [batches, List.splitOnP_append_cons _ _ ho, List.splitOnP_eq_singleton hafter,
    List.dropLast_concat, flatten_splitOnP]

/-- A list with an `OVER` line has a last one. -/
theorem exists_last_over {lines : List Str} (h : ∃ l ∈ lines, isOver l = true) :
    ∃ before o after, lines = before ++ o :: after ∧ isOver o = true ∧
      ∀ l ∈ after, isOver l = false := by
  induction lines with
  | nil => obtain ⟨l, hl, -⟩ := h; exact absurd hl List.not_mem_nil
  | cons line rest ih =>
      by_cases hrest : ∃ l ∈ rest, isOver l = true
      · obtain ⟨before, o, after, hlines, ho, hafter⟩ := ih hrest
        exact ⟨line :: before, o, after, by rw [hlines]; rfl, ho, hafter⟩
      · have hnone : ∀ l ∈ rest, isOver l = false := fun l hl =>
          Bool.eq_false_iff.mpr fun hover => hrest ⟨l, hl, hover⟩
        obtain ⟨l, hl, hover⟩ := h
        rcases List.mem_cons.mp hl with rfl | hl
        · exact ⟨[], l, rest, rfl, hover, hnone⟩
        · exact absurd ⟨l, hl, hover⟩ hrest

/-- An `OVER` line before the last one does not change which commands run. -/
theorem flatten_batches_insert {before after : List Str} {o : Str} (ho : isOver o = true)
    (hlater : ∃ l ∈ after, isOver l = true) :
    (batches (before ++ o :: after)).flatten = (batches (before ++ after)).flatten := by
  obtain ⟨mid, o', rest, rfl, ho', hrest⟩ := exists_last_over hlater
  have h1 : before ++ o :: (mid ++ o' :: rest) = (before ++ o :: mid) ++ o' :: rest := by simp
  have h2 : before ++ (mid ++ o' :: rest) = (before ++ mid) ++ o' :: rest := by simp
  rw [h1, h2, flatten_batches ho' hrest, flatten_batches ho' hrest, List.filter_append,
    List.filter_append, List.filter_cons, if_neg (by simp [ho])]

/-! ### Running batches -/

/-- `Dispatches g cmds outLines g'`: dispatching the command lines in order, once each, leads from `g` to `g'`, and
`outLines` are the lines they contribute. -/
inductive Dispatches (ord : MapOrder) : Globals → List Str → List Str → Globals → Prop
  | nil (g : Globals) : Dispatches ord g [] [] g
  | cons {g g₁ g₂ : Globals} {line : Str} {cmds out outLines : List Str}
      (hline : (dispatch ord line).run g = some (out, g₁))
      (hrest : Dispatches ord g₁ cmds outLines g₂) : Dispatches ord g (line :: cmds) (out ++ outLines) g₂

theorem Dispatches.append {ord : MapOrder} {cmds cmds' outs outs' : List Str} {g g₁ g₂ : Globals}
    (h : Dispatches ord g cmds outs g₁) (h' : Dispatches ord g₁ cmds' outs' g₂) :
    Dispatches ord g (cmds ++ cmds') (outs ++ outs') g₂ := by
  induction h with
  | nil g => exact h'
  | cons hline _ ih =>
      rw [List.cons_append, List.append_assoc]
      exact Dispatches.cons hline (ih h')

/-- The loop over the stored lines dispatches them. -/
theorem processLines_run {ord : MapOrder} {cmds outs : List Str} {g g' : Globals} :
    (processLines ord cmds).run g = some (outs, g') ↔ Dispatches ord g cmds outs g' := by
  constructor
  · intro h
    induction cmds generalizing g outs with
    | nil =>
        cases h
        exact Dispatches.nil _
    | cons line cmds ih =>
        simp only [processLines, bind_eq, run_bind, Option.bind_eq_some_iff, run_ret, Prod.exists,
          Option.some.injEq, Prod.mk.injEq] at h
        obtain ⟨out, g₁, hline, outLines, g₂, hrest, rfl, rfl⟩ := h
        exact Dispatches.cons hline (ih hrest)
  · intro h
    induction h with
    | nil g => rfl
    | cons hline _ ih => simp only [processLines, bind_eq, run_bind, hline, Option.bind_some, ih, run_ret]

/-- `Replies g bs outs g'`: dispatching the batches one after the other from `g` ends in `g'`, and `outs` are
the lines written for each: the reply lines of its commands, then `OVER`. -/
inductive Replies (ord : MapOrder) : Globals → List (List Str) → List (List Str) → Globals → Prop
  | nil (g : Globals) : Replies ord g [] [] g
  | cons {g g₁ g₂ : Globals} {batch : List Str} {bs outs : List (List Str)} {outLines : List Str}
      (hbatch : Dispatches ord g batch outLines g₁)
      (hrest : Replies ord g₁ bs outs g₂) :
      Replies ord g (batch :: bs) ((outLines ++ ["OVER".toList]) :: outs) g₂

/-- The commands' replies in what was written. -/
def commandReplies (outs : List (List Str)) : List Str := (outs.map List.dropLast).flatten

/-- Batch by batch is the same as all in one. -/
theorem Replies.dispatches {ord : MapOrder} {g g' : Globals} {bs outs : List (List Str)}
    (h : Replies ord g bs outs g') : Dispatches ord g bs.flatten (commandReplies outs) g' := by
  induction h with
  | nil g => exact Dispatches.nil g
  | cons hbatch _ ih =>
      rw [List.flatten_cons, commandReplies, List.map_cons, List.flatten_cons, List.dropLast_concat]
      exact hbatch.append ih

/-- **The loop of `server`** runs the batches. -/
theorem serverLoop_run (ord : MapOrder) {g : Globals} (hg : g.WellFormed) (lines inLines : List Str) :
    ∃ outs g', (serverLoop ord [] lines inLines).run g = some (outs, g') ∧
      Replies ord g (batchesFrom inLines lines) outs g' := by
  induction lines generalizing g inLines with
  | nil => exact ⟨[], g, rfl, Replies.nil g⟩
  | cons line rest ih =>
      rw [serverLoop]
      by_cases h : isOver line = true
      · -- the stored lines are a batch, and nothing is stored after it
        obtain ⟨outLines, g₁, hbatch, hg₁, -, -⟩ :=
          (processLines_safe g ord inLines).run Grows.refl Grows.trans hg (Grows.refl g)
        obtain ⟨outs, g₂, hloop, hreplies⟩ := ih hg₁ []
        refine ⟨(outLines ++ ["OVER".toList]) :: outs, g₂, ?_, ?_⟩
        · rw [if_pos h]
          simp only [bind_eq, run_bind, hbatch, Option.bind_some, hloop, run_ret]
        · rw [batchesFrom_over h]
          exact Replies.cons (processLines_run.mp hbatch) hreplies
      · rw [if_neg h, batchesFrom_stored h]
        exact ih hg (inLines ++ [line])

/-- A connection that receives newline-terminated lines. -/
theorem server_unlines (ord : MapOrder) {lines : List Str} (hlines : ∀ l ∈ lines, '\n' ∉ l) :
    server ord (unlines lines) = serverLoop ord [] lines [] := by
  have hcut := cutLines_unlines hlines (t := []) (by simp)
  rw [List.append_nil] at hcut
  rw [server, hcut]

theorem server_run (ord : MapOrder) {g : Globals} (hg : g.WellFormed) {lines : List Str}
    (hlines : ∀ l ∈ lines, '\n' ∉ l) :
    ∃ outs g', (server ord (unlines lines)).run g = some (outs, g') ∧
      Replies ord g (batches lines) outs g' := by
  obtain ⟨outs, g', hrun, hreplies⟩ := serverLoop_run ord hg lines []
  refine ⟨outs, g', by rw [server_unlines ord hlines, hrun], ?_⟩
  have hid : batchesFrom [] lines = batches lines := by
    rw [batchesFrom, batches]
    cases lines.splitOnP isOver <;> rfl
  rwa [hid] at hreplies

/-- **Batch semantics of a connection.**  From any state, with no other connection active: the state and
the replies after the connection are those of dispatching the batches' commands in order, once each; each write
is its batch's replies followed by `OVER`; and an `OVER` line inserted before the last one changes neither
the state nor the replies. -/
theorem batch_semantics (ord : MapOrder) {g : Globals} (hg : g.WellFormed) {lines : List Str}
    (hlines : ∀ l ∈ lines, '\n' ∉ l) :
    ∃ outs g', (server ord (unlines lines)).run g = some (outs, g') ∧
      Replies ord g (batches lines) outs g' ∧
      Dispatches ord g (batches lines).flatten (commandReplies outs) g' ∧
      (∀ before o after, lines = before ++ o :: after → isOver o = true →
        (∀ l ∈ after, isOver l = false) →
        (batches lines).flatten = before.filter fun l => !isOver l) ∧
      ∀ before o after, lines = before ++ after → '\n' ∉ o → isOver o = true →
        (∃ l ∈ after, isOver l = true) →
        ∃ outs', (server ord (unlines (before ++ o :: after))).run g = some (outs', g') ∧
          commandReplies outs' = commandReplies outs := by
  obtain ⟨outs, g', hrun, hreplies⟩ := server_run ord hg hlines
  refine ⟨outs, g', hrun, hreplies, hreplies.dispatches, ?_, ?_⟩
  · rintro before o after rfl ho hafter
    exact flatten_batches ho hafter
  · rintro before o after rfl hnl ho hlater
    have hlines' : ∀ l ∈ before ++ o :: after, '\n' ∉ l := by
      intro l hl
      rcases List.mem_append.mp hl with hl | hl
      · exact hlines l (List.mem_append_left _ hl)
      · rcases List.mem_cons.mp hl with rfl | hl
        · exact hnl
        · exact hlines l (List.mem_append_right _ hl)
    obtain ⟨outs', g'', hrun', hreplies'⟩ := server_run ord hg hlines'
    have hall := processLines_run.mpr hreplies'.dispatches
    rw [flatten_batches_insert ho hlater, processLines_run.mpr hreplies.dispatches] at hall
    obtain ⟨heq, rfl⟩ := Prod.mk.inj (Option.some.inj hall)
    exact ⟨outs', hrun', heq.symm⟩

/-- Two batches and a line that no `OVER` follows. -/
theorem batch_semantics_two_batches :
    ∃ outs g', (server MapOrder.entries (unlines ["ADD_DOMAIN a NONE".toList, "OVER".toList,
        "DEL_DOMAIN a".toList, "OVER\r".toList, "CLR_DOMAINS".toList])).run (init 0)
        = some (outs, g') ∧
      Dispatches MapOrder.entries (init 0) ["ADD_DOMAIN a NONE".toList, "DEL_DOMAIN a".toList]
        (commandReplies outs) g' := by
  obtain ⟨outs, g', hrun, -, hall, -, -⟩ := batch_semantics MapOrder.entries (wellFormed_init 0)
    (show ∀ l ∈ ["ADD_DOMAIN a NONE".toList, "OVER".toList, "DEL_DOMAIN a".toList, "OVER\r".toList,
      "CLR_DOMAINS".toList], '\n' ∉ l by decide)
  exact ⟨outs, g', hrun, hall⟩

/-! ### Framing -/

theorem debugPass_length {showFull : Bool} {entries : List (Str × Ptr)} {out : List Str}
    {g g' : Globals} (h : (debugPass showFull entries).run g = some (out, g')) :
    out.length = entries.length := by
  induction entries generalizing g g' out with
  | nil =>
      obtain ⟨rfl, -⟩ := Prod.mk.inj (Option.some.inj h)
      rfl
  | cons e rest ih =>
      simp only [debugPass, bind_eq, run_bind, Option.bind_eq_some_iff, run_ret, Prod.exists,
        Option.some.injEq, Prod.mk.injEq] at h
      obtain ⟨val, g₁, -, outs, g₂, hrest, rfl, -⟩ := h
      rw [List.length_cons, List.length_cons, ih hrest]

theorem debugLoop_length {showFull : Bool} {entries : List (Str × Ptr)} {n : ℕ} {out : List Str}
    {g g' : Globals} (h : (debugLoop showFull entries n).run g = some (out, g')) :
    out.length = n * entries.length := by
  induction n generalizing g g' out with
  | zero =>
      obtain ⟨rfl, -⟩ := Prod.mk.inj (Option.some.inj h)
      rw [Nat.zero_mul]
      rfl
  | succ n ih =>
      simp only [debugLoop, bind_eq, run_bind, Option.bind_eq_some_iff, run_ret, Prod.exists,
        Option.some.injEq, Prod.mk.injEq] at h
      obtain ⟨first, g₁, hfirst, outs, g₂, hrest, rfl, -⟩ := h
      rw [List.length_append, debugPass_length hfirst, ih hrest, Nat.succ_mul, Nat.add_comm]

/-- The number of mapped domains. -/
def Globals.size (g : Globals) : ℕ := g.glbMap.keys.length

/-- **A `DEBUG_DOMAINS` contributes** its loop count times the number of mapped domains. -/
theorem debugDomains_length {ord : MapOrder} {line : Str} {out : List Str} {g g' : Globals}
    (h : (debugDomains ord line).run g = some (out, g')) :
    (out.length : ℤ) = max 0 (debugLoops line) * g.size := by
  simp only [debugDomains, bind_eq, run_sharedLock, run_scope, run_bind, run_read,
    Option.bind_some] at h
  have hsize : (ord.traverse g).length = g.size := by
    rw [(ord.traverse_perm g).length_eq, List.length_map, Globals.size, AList.keys, List.keys,
      List.length_map]
  rw [debugLoop_length h, hsize, Nat.cast_mul, Int.toNat_eq_max, max_comm]

/-- `Framed g cmds outs g'`: running the command lines from `g` ends in `g'`, and `outs` are the lines each
contributes, in order: one line, or, for a `DEBUG_DOMAINS`, its loop count times the number of mapped
domains, and none of them `OVER` or broken by a newline. -/
inductive Framed (ord : MapOrder) : Globals → List Str → List (List Str) → Globals → Prop
  | nil (g : Globals) : Framed ord g [] [] g
  | cons {g g₁ g₂ : Globals} {line : Str} {cmds out : List Str} {outs : List (List Str)}
      (hline : (dispatch ord line).run g = some (out, g₁))
      (hone : isDebug line = false → out.length = 1)
      (hdebug : isDebug line = true → (out.length : ℤ) = max 0 (debugLoops line) * g.size)
      (hgood : ∀ l ∈ out, '\n' ∉ l ∧ l ≠ "OVER".toList)
      (hrest : Framed ord g₁ cmds outs g₂) : Framed ord g (line :: cmds) (out :: outs) g₂

/-- Every batch is framed, and its lines are what the commands contribute. -/
theorem processLines_framed (ord : MapOrder) {g : Globals} (hg : g.WellFormed) (cmds : List Str) :
    ∃ outs g', (processLines ord cmds).run g = some (outs.flatten, g') ∧ Framed ord g cmds outs g' := by
  induction cmds generalizing g with
  | nil => exact ⟨[], g, rfl, Framed.nil g⟩
  | cons line cmds ih =>
      obtain ⟨out, g₁, hline, hg₁, -, h', -, hgood, hreply⟩ :=
        (dispatch_safe g ord line).run Grows.refl Grows.trans hg (Grows.refl g)
      obtain ⟨outs, g₂, hrest, hframed⟩ := ih hg₁
      refine ⟨out :: outs, g₂, ?_, Framed.cons hline (fun hd => ?_) (fun hd => ?_) hgood hframed⟩
      · simp only [processLines, bind_eq, run_bind, hline, Option.bind_some, hrest, run_ret,
          List.flatten_cons]
      · obtain ⟨jb, rfl⟩ := hreply hd
        rfl
      · have hdispatch : dispatch ord line = debugDomains ord line := by
          rw [dispatch]
          exact if_pos hd
        rw [hdispatch] at hline
        exact debugDomains_length hline

theorem Framed.good {ord : MapOrder} {g g' : Globals} {cmds : List Str} {outs : List (List Str)}
    (h : Framed ord g cmds outs g') : ∀ l ∈ outs.flatten, '\n' ∉ l ∧ l ≠ "OVER".toList := by
  induction h with
  | nil g => exact fun l hl => absurd hl List.not_mem_nil
  | cons _ _ _ hgood _ ih =>
      intro l hl
      rcases List.mem_append.mp hl with hl | hl
      · exact hgood l hl
      · exact ih l hl

/-- Good lines, written and followed by `OVER`, are read back up to the `OVER`. -/
theorem written_read_back {ls : List Str} (h : ∀ l ∈ ls, '\n' ∉ l ∧ l ≠ "OVER".toList) :
    cutLines (written (ls ++ ["OVER".toList])) = (ls ++ ["OVER".toList], []) ∧
      (ls ++ ["OVER".toList]).takeWhile (fun l => decide (l ≠ "OVER".toList)) = ls := by
  constructor
  · have hnl : ∀ l ∈ ls ++ ["OVER".toList], '\n' ∉ l := by
      intro l hl
      rcases List.mem_append.mp hl with hl | hl
      · exact (h l hl).1
      · rw [List.mem_singleton.mp hl]
        decide
    have hcut := cutLines_unlines hnl (t := []) (by simp)
    rw [List.append_nil] at hcut
    rw [written, joinStr, intercalate_newline (by simp), hcut]
  · rw [List.takeWhile_append_of_pos fun l hl => decide_eq_true (h l hl).2]
    simp

/-- **Reply framing.**  For every reachable state and every batch of command lines followed by an `OVER`
line: one text is written; cut at its newlines it is the contributed lines in command order, then `OVER`,
and nothing is left over; and a reader that stops at the first `OVER` has read exactly the contributed
lines. -/
theorem reply_framing (ord : MapOrder) (rnd : Randomness) {g : Globals} (hg : g.Reachable ord rnd)
    {cmds : List Str} {o : Str} (hcmds : ∀ l ∈ cmds, '\n' ∉ l ∧ isOver l = false)
    (ho : '\n' ∉ o ∧ isOver o = true) :
    ∃ outs g', Framed ord g cmds outs g' ∧
      (server ord (unlines (cmds ++ [o]))).run g = some ([outs.flatten ++ ["OVER".toList]], g') ∧
      cutLines (written (outs.flatten ++ ["OVER".toList])) = (outs.flatten ++ ["OVER".toList], []) ∧
      (cutLines (written (outs.flatten ++ ["OVER".toList]))).1.takeWhile
        (fun l => decide (l ≠ "OVER".toList)) = outs.flatten := by
  obtain ⟨outs, g', hbatch, hframed⟩ := processLines_framed ord hg.wellFormed cmds
  have hlines : ∀ l ∈ cmds ++ [o], '\n' ∉ l := by
    intro l hl
    rcases List.mem_append.mp hl with hl | hl
    · exact (hcmds l hl).1
    · rw [List.mem_singleton.mp hl]
      exact ho.1
  have hbatches : batches (cmds ++ [o]) = [cmds] := by
    rw [batches, List.splitOnP_append_cons_of_forall_mem (fun l hl => (hcmds l hl).2) o ho.2]
    rfl
  obtain ⟨writes, g'', hrun, hreplies⟩ := server_run ord hg.wellFormed hlines
  rw [hbatches] at hreplies
  cases hreplies with
  | cons hbatch' hrest =>
      cases hrest with
      | nil =>
          obtain ⟨rfl, rfl⟩ := Prod.mk.inj (Option.some.inj ((processLines_run.mpr hbatch').symm.trans hbatch))
          obtain ⟨hcut, hread⟩ := written_read_back hframed.good
          refine ⟨outs, _, hframed, hrun, hcut, ?_⟩
          rw [hcut]
          exact hread

/-- A batch with a `DEBUG_DOMAINS`, from the initial state. -/
theorem reply_framing_debug :
    ∃ outs g', Framed MapOrder.entries (init 0)
        ["ADD_DOMAIN a NONE".toList, "DEBUG_DOMAINS 2".toList] outs g' ∧
      (server MapOrder.entries (unlines (["ADD_DOMAIN a NONE".toList, "DEBUG_DOMAINS 2".toList]
        ++ ["OVER\r".toList]))).run (init 0) = some ([outs.flatten ++ ["OVER".toList]], g') := by
  obtain ⟨outs, g', hframed, hrun, -⟩ := reply_framing MapOrder.entries Randomness.counting
    (reachable_init MapOrder.entries Randomness.counting 0)
    (show ∀ l ∈ ["ADD_DOMAIN a NONE".toList, "DEBUG_DOMAINS 2".toList], '\n' ∉ l ∧ isOver l = false by
      decide)
    (show '\n' ∉ "OVER\r".toList ∧ isOver "OVER\r".toList = true by decide)
  exact ⟨outs, g', hframed, hrun⟩

end GlbBackend
