import GlbBackend.WellFormed

/-!
# Every command is safe

One lemma for each handler: at every access it keeps `WellFormed` and changes the state as `Grows` allows,
whatever other threads do in between, and it never reads out of range.  The postconditions record what
later modules need: a handler's result is one written reply (`OneReply`), and the lines of `DEBUG_DOMAINS`
are good lines (`GoodLines`).
-/

namespace GlbBackend

open Text Concurrent Concurrent.Proc Globals

/-! ### Lines of a reply -/

/-- The result is one written reply. -/
def OneReply (out : List Str) (_ : Globals) : Prop :=
  ∃ jb : ServerJsonBuilder, out = [jb.toJson]

theorem oneReply (jb : ServerJsonBuilder) (h : Globals) : OneReply [jb.toJson] h := ⟨jb, rfl⟩

/-- A line that a reader can tell from the end of a batch and cannot cut in two. -/
def ReplyLine (l : Str) : Prop := '\n' ∉ l ∧ l ≠ "OVER".toList

theorem replyLine_toJson (jb : ServerJsonBuilder) : ReplyLine jb.toJson := by
  refine ⟨jb.newline_not_mem_toJson, fun heq => ?_⟩
  have hhead := jb.toJson_head
  rw [heq] at hhead
  exact absurd hhead (by decide)

theorem IPRecord.Valid.newline_not_mem_toString {r : IPRecord} (hr : r.Valid) :
    '\n' ∉ r.toString := by
  have hf : '\n' ∉ ipTypeToStr r.ipType := by
    rcases hr.family with ht | ht <;> rw [ht] <;> decide
  unfold IPRecord.toString
  simp only [List.mem_append, not_or]
  refine ⟨⟨⟨⟨⟨⟨?_, hf⟩, ?_⟩, hr.address_word.newline_not_mem⟩, ?_⟩, newline_not_mem_decimal _⟩, ?_⟩ <;>
    decide

theorem newline_not_mem_glbTypeToStr (t : ℤ) : '\n' ∉ glbTypeToStr t := by
  rw [glbTypeToStr]
  split_ifs <;> decide

theorem GlbContainer.Valid.newline_not_mem_toString {c : GlbContainer} (hc : c.Valid)
    (showIps : Bool) : '\n' ∉ c.toString showIps := by
  have hrecords : '\n' ∉ if showIps then c.ips.flatMap fun r => r.toString ++ " ".toList else [] := by
    intro hmem
    split_ifs at hmem
    · obtain ⟨r, hr, hn⟩ := List.mem_flatMap.mp hmem
      rcases List.mem_append.mp hn with hn | hn
      · exact (hc.records r hr).newline_not_mem_toString hn
      · exact absurd hn (by decide)
    · exact absurd hmem List.not_mem_nil
  unfold GlbContainer.toString
  simp only [List.mem_append, not_or]
  refine ⟨⟨⟨⟨⟨⟨⟨⟨⟨?_, hc.cname_word.newline_not_mem⟩, ?_⟩, newline_not_mem_decimal _⟩, ?_⟩,
    newline_not_mem_glbTypeToStr _⟩, ?_⟩, newline_not_mem_decimal _⟩, ?_⟩, hrecords⟩ <;>
    decide

/-- A `DEBUG_DOMAINS` line is told from `OVER` by its colon. -/
theorem replyLine_debug {key : Str} (hkey : Word key) {c : GlbContainer} (hc : c.Valid)
    (showFull : Bool) : ReplyLine (key ++ ":".toList ++ c.toString showFull) := by
  constructor
  · have h1 := hkey.newline_not_mem
    have h2 := hc.newline_not_mem_toString showFull
    simp [h1, h2]
  · intro heq
    have hcolon : ':' ∈ key ++ ":".toList ++ c.toString showFull := by simp
    rw [heq] at hcolon
    exact absurd hcolon (by decide)

/-! ### The handlers -/

variable (h : Globals) (line : Str)

theorem addDomain_safe : SafeCode OneReply h (addDomain line) := by
  rw [addDomain]
  split_ifs with hlen
  · exact oneReply _ h
  · rcases htok : splitStr line " ".toList with _ | ⟨cmd, _ | ⟨fqdn, _ | ⟨algo, rest⟩⟩⟩
    all_goals simp only [htok, List.length_cons, List.length_nil] at hlen
    · omega
    · omega
    · omega
    simp only [List.getElem?_cons_succ, List.getElem?_cons_zero, expect_some, bind_eq, ret_bind]
    have hne : fqdn ≠ [] := splitStr_inner_ne_nil htok (List.cons_ne_nil algo rest)
    have hw : Word fqdn := word_of_mem_splitStr (show fqdn ∈ splitStr line " ".toList by rw [htok]; simp)
    split_ifs with ht
    · exact oneReply _ h
    · refine Safe.bind (Q := fun _ _ => True) ?_ fun known h' _ => ?_
      · refine safe_lockGuard (Safe.scope (safe_read_bind fun g hg hG => ?_) _) _
        split_ifs
        · trivial
        · refine Safe.bind (Q := fun _ _ => True) (safe_modify fun g hg _ => ?_) fun _ _ _ => trivial
          exact ⟨hg.insert (GlbContainer.valid_new hne hw ht) rfl, grows_insert g fqdn _, trivial⟩
      · split_ifs <;> exact oneReply _ h'

variable {line}

theorem delDomain_safe {cmd fqdn : Str} {rest : List Str}
    (htok : splitStr line " ".toList = cmd :: fqdn :: rest) :
    SafeCode OneReply h (delDomain line) := by
  have hlen : ¬ (splitStr line " ".toList).length < 2 := by
    rw [htok, List.length_cons, List.length_cons]
    omega
  rw [delDomain]
  simp only [if_neg hlen]
  simp only [htok, List.getElem?_cons_succ, List.getElem?_cons_zero, expect_some, bind_eq, ret_bind]
  refine Safe.bind (Q := fun _ _ => True) ?_ fun found h' _ => ?_
  · refine safe_lockGuard (Safe.scope (safe_read_bind fun g hg hG => ?_) _) _
    split_ifs
    · trivial
    · refine Safe.bind (Q := fun _ _ => True) (safe_modify fun g hg _ => ?_) fun _ _ _ => trivial
      exact ⟨hg.erase fqdn, Grows.of_heaps (fun _ => rfl) fun _ => rfl, trivial⟩
  · split_ifs <;> exact oneReply _ h'

theorem clearDomains_safe : SafeCode OneReply h (clearDomains line) := by
  rw [clearDomains]
  refine Safe.bind (Q := fun _ _ => True) (safe_debug trivial) fun _ h₁ _ => ?_
  refine Safe.bind (Q := fun _ _ => True) ?_ fun _ h₂ _ => oneReply _ h₂
  refine safe_lockGuard (Safe.scope (safe_modify fun g hg _ => ?_) _) _
  exact ⟨hg.clear, Grows.of_heaps (fun _ => rfl) fun _ => rfl, trivial⟩

theorem setSOA_safe : SafeCode OneReply h (setSOA line) := by
  rw [setSOA]
  split_ifs with hlen
  · exact oneReply _ h
  · have hlt : 1 < (splitStr line " ".toList).length := by omega
    refine Safe.bind (Q := fun _ _ => True)
      (Safe.expect (List.getElem?_eq_getElem hlt) trivial) fun base h₁ _ => ?_
    refine Safe.bind (Q := fun _ _ => True) ?_ fun _ h₂ _ => oneReply _ h₂
    refine safe_lockGuard (Safe.scope (safe_modify fun g hg _ => ?_) _) _
    exact ⟨⟨hg.mapped, hg.valid, hg.published⟩, Grows.of_heaps (fun _ => rfl) fun _ => rfl, trivial⟩

theorem setNS_safe : SafeCode OneReply h (setNS line) := by
  rw [setNS]
  split_ifs with hlen
  · exact oneReply _ h
  · refine Safe.bind (Q := fun _ _ => True) ?_ fun _ h₂ _ => oneReply _ h₂
    refine safe_lockGuard (Safe.scope (safe_modify fun g hg _ => ?_) _) _
    exact ⟨hg.setNS _, grows_setNS g _, trivial⟩

theorem pushIPs_safe {h₀ : Globals} (hgrows : h₀.Grows h) (glb : Ptr) {ips : List IPRecord}
    (hips : ∀ r ∈ ips, r.Valid) : SafeCode (fun _ h' => h₀.Grows h') h (pushIPs glb ips) := by
  induction ips generalizing h with
  | nil => exact hgrows
  | cons r rest ih =>
      have hu : ∀ c : GlbContainer, (c.push r).glbType = c.glbType ∧ (c.push r).cname = c.cname :=
        fun _ => ⟨rfl, rfl⟩
      have hr : r.Valid := hips r List.mem_cons_self
      refine Safe.bind (Q := fun _ h' => h₀.Grows h') (safe_update (fun c hc => hc.push hr) hu fun g hG => ?_)
        fun _ h₁ hgrows₁ => ih h₁ hgrows₁ fun r' hr' => hips r' (List.mem_cons_of_mem _ hr')
      exact (hgrows.trans hG).trans (grows_update g glb hu)

theorem setIPs_safe (glb : Ptr) {ips : List IPRecord} (hips : ∀ r ∈ ips, r.Valid) :
    SafeCode (fun _ h' => h.Grows h') h (setIPs glb ips) :=
  safe_lockGuard (Safe.scope (pushIPs_safe h (Grows.refl h) glb hips) _) _

theorem snapshotDomain_safe {cmd fqdn : Str} {rest : List Str}
    (htok : splitStr line " ".toList = cmd :: fqdn :: rest) :
    SafeCode OneReply h (snapshotDomain line) := by
  have hlen : ¬ (splitStr line " ".toList).length < 2 := by
    rw [htok, List.length_cons, List.length_cons]
    omega
  rw [snapshotDomain]
  simp only [if_neg hlen, decodeIPs_eq, expect_some, bind_eq, ret_bind]
  simp only [htok, List.getElem?_cons_succ, List.getElem?_cons_zero, expect_some, ret_bind,
    List.nil_append]
  refine Safe.bind (Q := fun _ _ => True) ?_ fun glb h₁ _ => ?_
  · refine safe_sharedLock (Safe.scope (safe_read_bind fun g _ _ => ?_) _) _
    trivial
  · cases glb with
    | none => exact oneReply _ h₁
    | some glb =>
        refine Safe.bind (setIPs_safe h₁ glb ?_) fun _ h₂ _ => oneReply _ h₂
        rw [← htok]
        exact entries_valid

/-! ### Counting and debugging -/

theorem getNLookups_safe {glb : Ptr} (hl : Live glb h) :
    SafeCode (fun _ h' => h.Grows h') h (getNLookups glb) := by
  refine safe_lockGuard (safe_read_bind fun g _ hG => ?_) _
  obtain ⟨c, hc⟩ := hl.grows hG
  exact Safe.bind (Q := fun _ h' => h' = g) (Safe.expect hc rfl) fun _ h' heq => heq ▸ hG

theorem clrNLookups_safe (glb : Ptr) :
    SafeCode (fun _ h' => h.Grows h') h (clrNLookups glb) :=
  have hu : ∀ c : GlbContainer, c.clrNLookups.glbType = c.glbType ∧ c.clrNLookups.cname = c.cname :=
    fun _ => ⟨rfl, rfl⟩
  safe_lockGuard (safe_update (fun _ hc => hc.clrNLookups) hu fun g hG => hG.trans (grows_update g glb hu)) _

theorem countArgs_safe (args : List Str) (jb : ServerJsonBuilder) (failed : Bool) :
    SafeCode (fun _ _ => True) h (countArgs args jb failed) := by
  induction args generalizing h jb failed with
  | nil => trivial
  | cons fqdn rest ih =>
      refine Safe.bind (Q := fun _ _ => True) ?_ fun r h₁ _ => ih h₁ r.1 r.2
      refine safe_sharedLock (Safe.scope (safe_read_bind fun g hg _ => ?_) _) _
      cases hf : g.find fqdn with
      | none => trivial
      | some glb =>
          exact Safe.bind (getNLookups_safe g (live_of_find hg hf)) fun _ _ _ => trivial

theorem countAll_safe (entries : List (Str × Ptr)) (hl : ∀ e ∈ entries, Live e.2 h)
    (jb : ServerJsonBuilder) : SafeCode (fun _ _ => True) h (countAll entries jb) := by
  induction entries generalizing h jb with
  | nil => trivial
  | cons e rest ih =>
      refine Safe.bind (getNLookups_safe h (hl e List.mem_cons_self)) fun n h₁ hG => ?_
      exact ih h₁ (fun e' he' => (hl e' (List.mem_cons_of_mem e he')).grows hG) _

theorem live_traverse (ord : MapOrder) {g : Globals} (hg : g.WellFormed) :
    ∀ e ∈ ord.traverse g, Live e.2 g :=
  fun e he => live_of_find hg (find_of_mem_traverse ord (f := e.1) (p := e.2) he)

theorem getCounts_safe (ord : MapOrder) : SafeCode OneReply h (getCounts ord line) := by
  rw [getCounts]
  split_ifs with hlen
  · exact Safe.bind (countArgs_safe h _ _ _) fun _ h₁ _ => oneReply _ h₁
  · refine Safe.bind (Q := fun _ _ => True) ?_ fun _ h₁ _ => oneReply _ h₁
    refine safe_sharedLock (Safe.scope (safe_read_bind fun g hg _ => ?_) _) _
    exact countAll_safe g _ (live_traverse ord hg) _

theorem clearArgs_safe (args : List Str) (jb : ServerJsonBuilder) (failed : Bool) :
    SafeCode (fun _ _ => True) h (clearArgs args jb failed) := by
  induction args generalizing h jb failed with
  | nil => trivial
  | cons fqdn rest ih =>
      refine safe_read_bind fun g _ _ => ?_
      cases g.find fqdn with
      | none => exact ih g _ true
      | some glb => exact Safe.bind (clrNLookups_safe g glb) fun _ h₁ _ => ih h₁ jb failed

theorem clearAll_safe (entries : List (Str × Ptr)) :
    SafeCode (fun _ _ => True) h (clearAll entries) := by
  induction entries generalizing h with
  | nil => trivial
  | cons e rest ih => exact Safe.bind (clrNLookups_safe h e.2) fun _ h₁ _ => ih h₁

theorem clearCounts_safe (ord : MapOrder) : SafeCode OneReply h (clearCounts ord line) := by
  rw [clearCounts]
  split_ifs with hlen
  · refine Safe.bind (Q := fun _ _ => True) ?_ fun _ h₁ _ => oneReply _ h₁
    exact safe_sharedLock (Safe.scope (clearArgs_safe h _ _ _) _) _
  · refine Safe.bind (Q := fun _ _ => True) ?_ fun _ h₁ _ => oneReply _ h₁
    refine safe_sharedLock (Safe.scope (safe_read_bind fun g _ _ => ?_) _) _
    exact clearAll_safe g _

/-- Every line of the result is a good line. -/
def GoodLines (out : List Str) (_ : Globals) : Prop := ∀ l ∈ out, ReplyLine l

theorem containerToString_safe {glb : Ptr} (hl : Live glb h) (showFull : Bool) :
    SafeCode (fun val h' => h.Grows h' ∧ ∃ c : GlbContainer, c.Valid ∧ val = c.toString showFull) h
      (containerToString glb showFull) := by
  refine safe_sharedLock (safe_read_bind fun g hg hG => ?_) _
  obtain ⟨c, hc⟩ := hl.grows hG
  refine Safe.bind (Q := fun a h' => h' = g ∧ a = c) (Safe.expect hc ⟨rfl, rfl⟩) ?_
  rintro _ _ ⟨rfl, rfl⟩
  exact ⟨hG, _, hg.valid glb _ hc, rfl⟩

theorem debugPass_safe (showFull : Bool) (entries : List (Str × Ptr))
    (hl : ∀ e ∈ entries, Word e.1 ∧ Live e.2 h) :
    SafeCode (fun out h' => h.Grows h' ∧ GoodLines out h') h (debugPass showFull entries) := by
  induction entries generalizing h with
  | nil => exact ⟨Grows.refl h, fun _ hmem => absurd hmem List.not_mem_nil⟩
  | cons e rest ih =>
      obtain ⟨hw, hlive⟩ := hl e List.mem_cons_self
      refine Safe.bind (containerToString_safe h hlive showFull) ?_
      rintro _ h₁ ⟨hG, c, hc, rfl⟩
      refine Safe.bind (ih h₁ fun e' he' => ?_) ?_
      · obtain ⟨hw', hl'⟩ := hl e' (List.mem_cons_of_mem e he')
        exact ⟨hw', hl'.grows hG⟩
      · rintro out h₂ ⟨hG', hout⟩
        refine ⟨hG.trans hG', fun l hmem => ?_⟩
        rcases List.mem_cons.mp hmem with rfl | hmem
        · exact replyLine_debug hw hc showFull
        · exact hout l hmem

theorem debugLoop_safe (showFull : Bool) (entries : List (Str × Ptr)) (n : ℕ)
    (hl : ∀ e ∈ entries, Word e.1 ∧ Live e.2 h) :
    SafeCode GoodLines h (debugLoop showFull entries n) := by
  induction n generalizing h with
  | zero => exact fun _ hmem => absurd hmem List.not_mem_nil
  | succ n ih =>
      refine Safe.bind (debugPass_safe h showFull entries hl) ?_
      rintro first h₁ ⟨hG, hfirst⟩
      refine Safe.bind (ih h₁ fun e he => ⟨(hl e he).1, (hl e he).2.grows hG⟩) ?_
      intro out h₂ hout l hmem
      rcases List.mem_append.mp hmem with hmem | hmem
      · exact hfirst l hmem
      · exact hout l hmem

theorem word_traverse (ord : MapOrder) {g : Globals} (hg : g.WellFormed) :
    ∀ e ∈ ord.traverse g, Word e.1 := by
  intro e he
  obtain ⟨c, hc, hn⟩ := hg.mapped e.1 e.2 (find_of_mem_traverse ord he)
  rw [← hn]
  exact (hg.valid e.2 c hc).cname_word

theorem debugDomains_safe (ord : MapOrder) : SafeCode GoodLines h (debugDomains ord line) := by
  refine safe_sharedLock (Safe.scope (safe_read_bind fun g hg _ => ?_) _) _
  exact debugLoop_safe g _ _ _ fun e he => ⟨word_traverse ord hg e he, live_traverse ord hg e he⟩

theorem unknownCommand_safe : SafeCode OneReply h (unknownCommand line) := oneReply _ h

/-! ### The dispatch -/

theorem cmdMatch_two {sv : List Str} {expected : Str} (hm : cmdMatch 2 sv expected = true) :
    ∃ fqdn rest, sv = expected :: fqdn :: rest := by
  rcases sv with _ | ⟨cmd, _ | ⟨fqdn, rest⟩⟩
  · simp [cmdMatch] at hm
  · simp [cmdMatch] at hm
  · have hcmd : cmd = expected := by simpa [cmdMatch] using hm
    exact ⟨fqdn, rest, by rw [hcmd]⟩

/-- Does the dispatcher hand the line to `debugDomains`? -/
def isDebug (line : Str) : Bool := cmdMatch 1 (splitStr line " ".toList) "DEBUG_DOMAINS".toList

/-- What a dispatched line contributes: good lines, and exactly one unless it is a `DEBUG_DOMAINS`. -/
def Contribution (line : Str) (out : List Str) (h : Globals) : Prop :=
  GoodLines out h ∧ (isDebug line = false → OneReply out h)

theorem contribution_of_oneReply {line : Str} {out : List Str} {h : Globals} (hout : OneReply out h) :
    Contribution line out h := by
  refine ⟨fun l hl => ?_, fun _ => hout⟩
  obtain ⟨jb, rfl⟩ := hout
  rw [List.mem_singleton.mp hl]
  exact replyLine_toJson jb

/-- **Every command is safe.** -/
theorem dispatch_safe (ord : MapOrder) (line : Str) :
    SafeCode (Contribution line) h (dispatch ord line) := by
  have one : ∀ {p : Code (List Str)}, SafeCode OneReply h p → SafeCode (Contribution line) h p :=
    fun hp => Safe.mono hp fun _ _ => contribution_of_oneReply
  rw [dispatch]
  split_ifs with h1 h2 h3 h4
  · exact Safe.mono (debugDomains_safe h ord) fun out h' hout =>
      ⟨hout, fun hnot => absurd h1 (by rw [show cmdMatch 1 (splitStr line " ".toList)
        "DEBUG_DOMAINS".toList = false from hnot]; decide)⟩
  · exact one (addDomain_safe h line)
  · obtain ⟨fqdn, rest, htok⟩ := cmdMatch_two h3
    exact one (delDomain_safe h htok)
  · obtain ⟨fqdn, rest, htok⟩ := cmdMatch_two h4
    exact one (snapshotDomain_safe h htok)
  · exact one (getCounts_safe h ord)
  · exact one (clearCounts_safe h ord)
  · exact one (setSOA_safe h)
  · exact one (setNS_safe h)
  · exact one (clearDomains_safe h)
  · exact one (unknownCommand_safe h)

theorem processLines_safe (ord : MapOrder) (inLines : List Str) :
    SafeCode (fun _ _ => True) h (processLines ord inLines) := by
  induction inLines generalizing h with
  | nil => trivial
  | cons line inLines ih =>
      refine Safe.bind (dispatch_safe h ord line) fun _ h₁ _ => ?_
      exact Safe.bind (ih h₁) fun _ _ _ => trivial

/-- **A whole connection is safe.** -/
theorem serverLoop_safe (ord : MapOrder) (rest : Str) (lines inLines : List Str) :
    SafeCode (fun _ _ => True) h (serverLoop ord rest lines inLines) := by
  induction lines generalizing h inLines with
  | nil =>
      rw [serverLoop]
      split_ifs
      · exact Safe.bind (processLines_safe h ord inLines) fun _ _ _ => trivial
      · trivial
  | cons line lines ih =>
      rw [serverLoop]
      split_ifs
      · refine Safe.bind (processLines_safe h ord inLines) fun _ h₁ _ => ?_
        exact Safe.bind (ih h₁ []) fun _ _ _ => trivial
      · exact ih h (inLines ++ [line])

end GlbBackend
