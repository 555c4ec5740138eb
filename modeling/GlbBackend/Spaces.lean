import GlbBackend.Requests
import GlbBackend.Text.Spacing

/-!
# Extra spaces in a command

The tokeniser takes a run of spaces for one, so a command may have longer runs between its tokens than it
needs.  At the end of a line it does not: a space there starts one more token, the empty one, and most
handlers take that for an argument.

`Recognised` lists the nine commands by their tokens, and `Recognised.trailing` says for each what the empty
token does to it.  `extra_spaces_iff` is the exact condition under which a line with extra spaces does what
the line does.
-/

namespace GlbBackend

open Text Concurrent Concurrent.Proc Globals

/-! ### Tokens of lines with extra spaces -/

theorem isSpace_delim : (" ".toList.contains ' ') = true := by decide

/-- Longer runs between the tokens make no difference. -/
theorem splitStr_stretched {line line' : Str} (h : Stretched ' ' line line') :
    splitStr line' " ".toList = splitStr line " ".toList :=
  (((h.filter (by decide)).filter (by decide)).split isSpace_delim).1

/-- Spaces at the end of a line are one more token, unless the last one is empty already. -/
theorem splitStr_trailing {line : Str} (hne : splitStr line " ".toList ≠ [[]]) (n : ℕ) :
    splitStr (line ++ List.replicate (n + 1) ' ') " ".toList
      = if (splitStr line " ".toList).getLast? = some [] then splitStr line " ".toList
        else splitStr line " ".toList ++ [[]] := by
  have hfilter : ((line ++ List.replicate (n + 1) ' ').filter (· ≠ '\n')).filter (· ≠ '\r')
      = (line.filter (· ≠ '\n')).filter (· ≠ '\r') ++ List.replicate (n + 1) ' ' := by
    rw [List.filter_append, List.filter_append, List.filter_replicate_of_pos (by decide),
      List.filter_replicate_of_pos (by decide)]
  show split _ (((line ++ List.replicate (n + 1) ' ').filter (· ≠ '\n')).filter (· ≠ '\r')) = _
  rw [hfilter]
  refine split_trailing isSpace_delim (fun hnil => hne ?_) n
  show split _ ((line.filter (· ≠ '\n')).filter (· ≠ '\r')) = [[]]
  rw [hnil]
  rfl

/-! ### The commands by their tokens -/

/-- The handlers that the dispatch can choose. -/
inductive Handler
  | debugDomains
  | addDomain
  | delDomain
  | snapshotDomain
  | getCounts
  | clearCounts
  | setSOA
  | setNS
  | clearDomains
  deriving DecidableEq

/-- The name of its command. -/
def Handler.name : Handler → Str
  | debugDomains => "DEBUG_DOMAINS".toList
  | addDomain => "ADD_DOMAIN".toList
  | delDomain => "DEL_DOMAIN".toList
  | snapshotDomain => "SNAPSHOT".toList
  | getCounts => "COUNTS".toList
  | clearCounts => "CLR_COUNTS".toList
  | setSOA => "SET_SOA".toList
  | setNS => "SET_NS".toList
  | clearDomains => "CLR_DOMAINS".toList

/-- The number of tokens that the dispatch asks for. -/
def Handler.nArgs : Handler → ℕ
  | debugDomains => 1
  | addDomain => 3
  | delDomain => 2
  | snapshotDomain => 2
  | getCounts => 1
  | clearCounts => 1
  | setSOA => 3
  | setNS => 2
  | clearDomains => 1

/-- Its code. -/
def Handler.code (ord : MapOrder) (line : Str) : Handler → Code (List Str)
  | debugDomains => GlbBackend.debugDomains ord line
  | addDomain => GlbBackend.addDomain line
  | delDomain => GlbBackend.delDomain line
  | snapshotDomain => GlbBackend.snapshotDomain line
  | getCounts => GlbBackend.getCounts ord line
  | clearCounts => GlbBackend.clearCounts ord line
  | setSOA => GlbBackend.setSOA line
  | setNS => GlbBackend.setNS line
  | clearDomains => GlbBackend.clearDomains line

/-- The handler that the dispatch chooses for a line; `none` is a line it does not recognise. -/
def recognised (line : Str) : Option Handler :=
  let inCmdArgs := splitStr line " ".toList
  if cmdMatch 1 inCmdArgs "DEBUG_DOMAINS".toList then some .debugDomains
  else if cmdMatch 3 inCmdArgs "ADD_DOMAIN".toList then some .addDomain
  else if cmdMatch 2 inCmdArgs "DEL_DOMAIN".toList then some .delDomain
  else if cmdMatch 2 inCmdArgs "SNAPSHOT".toList then some .snapshotDomain
  else if cmdMatch 1 inCmdArgs "COUNTS".toList then some .getCounts
  else if cmdMatch 1 inCmdArgs "CLR_COUNTS".toList then some .clearCounts
  else if cmdMatch 3 inCmdArgs "SET_SOA".toList then some .setSOA
  else if cmdMatch 2 inCmdArgs "SET_NS".toList then some .setNS
  else if cmdMatch 1 inCmdArgs "CLR_DOMAINS".toList then some .clearDomains
  else none

theorem dispatch_eq_recognised (ord : MapOrder) (line : Str) :
    dispatch ord line = (recognised line).elim (unknownCommand line) (Handler.code ord line) := by
  rw [dispatch, recognised]
  simp only [apply_ite fun o : Option Handler => o.elim (unknownCommand line) (Handler.code ord line)]
  rfl

theorem Handler.name_injective : Function.Injective Handler.name := by
  intro h h' heq
  cases h <;> cases h' <;> first | rfl | exact absurd heq (by decide)

/-- The chain of the dispatch chooses a handler that matches, or none does. -/
theorem recognised_cases (line : Str) :
    (∃ h, recognised line = some h ∧ cmdMatch h.nArgs (splitStr line " ".toList) h.name = true) ∨
      (recognised line = none ∧
        ∀ h : Handler, ¬ cmdMatch h.nArgs (splitStr line " ".toList) h.name = true) := by
  rw [recognised]
  split_ifs with h1 h2 h3 h4 h5 h6 h7 h8 h9
  · exact Or.inl ⟨.debugDomains, rfl, h1⟩
  · exact Or.inl ⟨.addDomain, rfl, h2⟩
  · exact Or.inl ⟨.delDomain, rfl, h3⟩
  · exact Or.inl ⟨.snapshotDomain, rfl, h4⟩
  · exact Or.inl ⟨.getCounts, rfl, h5⟩
  · exact Or.inl ⟨.clearCounts, rfl, h6⟩
  · exact Or.inl ⟨.setSOA, rfl, h7⟩
  · exact Or.inl ⟨.setNS, rfl, h8⟩
  · exact Or.inl ⟨.clearDomains, rfl, h9⟩
  · refine Or.inr ⟨rfl, fun h => ?_⟩
    cases h with
    | debugDomains => exact h1
    | addDomain => exact h2
    | delDomain => exact h3
    | snapshotDomain => exact h4
    | getCounts => exact h5
    | clearCounts => exact h6
    | setSOA => exact h7
    | setNS => exact h8
    | clearDomains => exact h9

/-- The chain of the dispatch is a table: no line matches two of its rows. -/
theorem recognised_iff {line : Str} {h : Handler} :
    recognised line = some h ↔ cmdMatch h.nArgs (splitStr line " ".toList) h.name = true := by
  rcases recognised_cases line with ⟨h', hrec, hmatch'⟩ | ⟨hrec, hnone⟩
  · rw [hrec]
    constructor
    · intro heq
      rwa [← Option.some.inj heq]
    · intro hmatch
      by_contra hne
      have hname : h.name ≠ h'.name := fun heq => hne (congrArg some (Handler.name_injective heq).symm)
      have hfalse := cmdMatch_other hmatch hname h'.nArgs
      exact absurd (hfalse.symm.trans hmatch') Bool.false_ne_true
  · rw [hrec]
    constructor
    · intro heq
      cases heq
    · intro hmatch
      exact absurd hmatch (hnone h)

theorem cmdMatch_iff {n : ℕ} {ts : List Str} {name : Str} :
    cmdMatch n ts name = true ↔ n ≤ ts.length ∧ ts.head? = some name := by
  rw [cmdMatch, Bool.and_eq_true, decide_eq_true_eq, beq_iff_eq]

/-- More tokens do no harm. -/
theorem recognised_append {line line' : Str} {h : Handler} (hrec : recognised line = some h) {ts : List Str}
    (htok : splitStr line' " ".toList = splitStr line " ".toList ++ ts) : recognised line' = some h := by
  rw [recognised_iff, cmdMatch_iff] at hrec ⊢
  obtain ⟨hlen, hhead⟩ := hrec
  rw [htok, List.length_append, List.head?_append, hhead]
  exact ⟨by omega, rfl⟩

/-- The nine commands: the tokens of the line, the handler, and what is asked for. -/
inductive Recognised : List Str → Handler → Command → Prop
  | debug (args : List Str) : Recognised ("DEBUG_DOMAINS".toList :: args) .debugDomains
      (.debug (args.head?.elim 1 atoi) (args[1]? == some "FULL".toList))
  | add (fqdn algoName : Str) (rest : List Str) :
      Recognised ("ADD_DOMAIN".toList :: fqdn :: algoName :: rest) .addDomain (.domain (.add fqdn algoName))
  | del (fqdn : Str) (rest : List Str) :
      Recognised ("DEL_DOMAIN".toList :: fqdn :: rest) .delDomain (.domain (.del fqdn))
  | snapshot (fqdn : Str) (entries : List Str) :
      Recognised ("SNAPSHOT".toList :: fqdn :: entries) .snapshotDomain (.domain (.snapshot fqdn entries))
  | counts (args : List Str) : Recognised ("COUNTS".toList :: args) .getCounts (.counts args)
  | clear (args : List Str) : Recognised ("CLR_COUNTS".toList :: args) .clearCounts (.clear args)
  | soa (base s : Str) (rest : List Str) : Recognised ("SET_SOA".toList :: base :: s :: rest) .setSOA
      (.soa base (joinStr (s :: rest) " ".toList))
  | ns (n : Str) (rest : List Str) : Recognised ("SET_NS".toList :: n :: rest) .setNS (.ns (n :: rest))
  | clearDomains (args : List Str) : Recognised ("CLR_DOMAINS".toList :: args) .clearDomains (.domain .clear)

/-- A line with such tokens asks for this. -/
theorem Recognised.command_eq {line : Str} {h : Handler} {cmd : Command}
    (hr : Recognised (splitStr line " ".toList) h cmd) : command line = cmd := by
  rw [command, domainCommand?]
  generalize splitStr line " ".toList = tokens at hr
  cases hr <;> rfl

/-- Every recognised line is one of the nine commands. -/
theorem recognised_tokens {line : Str} {h : Handler} (hrec : recognised line = some h) :
    ∃ cmd, Recognised (splitStr line " ".toList) h cmd := by
  rw [recognised_iff, cmdMatch_iff] at hrec
  generalize splitStr line " ".toList = tokens at hrec
  obtain ⟨hlen, hhead⟩ := hrec
  obtain ⟨args, rfl⟩ : ∃ args, tokens = h.name :: args := by
    cases tokens with
    | nil => exact absurd hhead (by simp)
    | cons t ts => exact ⟨ts, by rw [Option.some.inj hhead]⟩
  have hone : 2 ≤ h.nArgs → ∃ a rest, args = a :: rest := by
    intro h2
    cases args with
    | nil => exact absurd (h2.trans hlen) (by simp)
    | cons a rest => exact ⟨a, rest, rfl⟩
  have htwo : 3 ≤ h.nArgs → ∃ a b rest, args = a :: b :: rest := by
    intro h3
    rcases args with _ | ⟨a, _ | ⟨b, rest⟩⟩
    · exact absurd (h3.trans hlen) (by simp)
    · exact absurd (h3.trans hlen) (by simp)
    · exact ⟨a, b, rest, rfl⟩
  cases h with
  | debugDomains => exact ⟨_, .debug args⟩
  | addDomain =>
      obtain ⟨f, a, rest, rfl⟩ := htwo (le_refl _)
      exact ⟨_, .add f a rest⟩
  | delDomain =>
      obtain ⟨f, rest, rfl⟩ := hone (le_refl _)
      exact ⟨_, .del f rest⟩
  | snapshotDomain =>
      obtain ⟨f, entries, rfl⟩ := hone (le_refl _)
      exact ⟨_, .snapshot f entries⟩
  | getCounts => exact ⟨_, .counts args⟩
  | clearCounts => exact ⟨_, .clear args⟩
  | setSOA =>
      obtain ⟨b, s, rest, rfl⟩ := htwo (le_refl _)
      exact ⟨_, .soa b s rest⟩
  | setNS =>
      obtain ⟨n, rest, rfl⟩ := hone (le_refl _)
      exact ⟨_, .ns n rest⟩
  | clearDomains => exact ⟨_, .clearDomains args⟩

/-! ### What the empty token does -/

/-- The length of an array member that may be missing. -/
def arrayLength : Option Json → ℕ
  | some (.array es) => es.length
  | _ => 0

/-- Replies with the same text have as many errors and as many entries. -/
theorem lengths_of_toJson {jb jb' : ServerJsonBuilder} (h : jb.toJson = jb'.toJson) :
    (if jb.hasErrors then jb.errors.length else 0) = (if jb'.hasErrors then jb'.errors.length else 0) ∧
      (if jb.hasIps then jb.ips.length else 0) = (if jb'.hasIps then jb'.ips.length else 0) := by
  have hmembers : jb.members = jb'.members := by
    injection write_injective h
  have hlength : ∀ (has : Bool) (es : List Json),
      arrayLength (if has then some (.array es) else none) = if has then es.length else 0 := by
    intro has es
    cases has <;> rfl
  obtain ⟨-, -, -, -, -, herrors, hips⟩ := lookup_members jb
  obtain ⟨-, -, -, -, -, herrors', hips'⟩ := lookup_members jb'
  rw [hmembers, herrors'] at herrors
  rw [hmembers, hips'] at hips
  have h1 := congrArg arrayLength herrors
  have h2 := congrArg arrayLength hips
  rw [hlength, hlength, List.length_map, List.length_map] at h1 h2
  exact ⟨h1.symm, h2.symm⟩

section Trailing

variable {r : Registry} {names : List Str}

/-- The errors of the two count commands, as many as there are names that are not mapped. -/
theorem length_errors {jb : ServerJsonBuilder} {tally : Str → Option ℤ} {names : List Str} {text : Str → Str}
    (hhas : jb.hasErrors = names.any fun f => (tally f).isNone)
    (herrors : jb.errors = (names.filter fun f => (tally f).isNone).map text) :
    (if jb.hasErrors then jb.errors.length else 0) = names.countP fun f => (tally f).isNone := by
  rw [hhas, herrors, List.length_map, ← List.countP_eq_length_filter]
  split_ifs with hany
  · rfl
  · symm
    rw [List.countP_eq_zero]
    intro f hf hnone
    exact hany (List.any_eq_true.mpr ⟨f, hf, hnone⟩)

/-- The empty name is one more that is not mapped. -/
theorem countP_covered_trailing {tally : Str → Option ℤ} (hempty : tally [] = none)
    (hnames : ∀ f ∈ names, (tally f).isNone = false) (args : List Str) :
    (covered (args ++ [[]]) names).countP (fun f => (tally f).isNone)
      = (covered args names).countP (fun f => (tally f).isNone) + 1 := by
  have hone : (if (tally []).isNone = true then 1 else 0) = 1 := by
    rw [hempty]
    rfl
  rw [covered, if_neg (by simp), List.countP_append, List.countP_singleton, hone, covered]
  split_ifs with hargs
  · have hzero : names.countP (fun f => (tally f).isNone) = 0 :=
      List.countP_eq_zero.mpr fun f hf => by rw [hnames f hf]; exact Bool.false_ne_true
    rw [hargs, hzero]
    rfl
  · rfl

/-- So the reply of a count command says more. -/
theorem errors_trailing {jb jb' : ServerJsonBuilder} {tally : Str → Option ℤ} {args : List Str}
    {text : Str → Str} (hempty : tally [] = none) (hnames : ∀ f ∈ names, (tally f).isNone = false)
    (hhas : jb.hasErrors = (covered args names).any fun f => (tally f).isNone)
    (herrors : jb.errors = ((covered args names).filter fun f => (tally f).isNone).map text)
    (hhas' : jb'.hasErrors = (covered (args ++ [[]]) names).any fun f => (tally f).isNone)
    (herrors' : jb'.errors = ((covered (args ++ [[]]) names).filter fun f => (tally f).isNone).map text) :
    jb.toJson ≠ jb'.toJson := by
  intro h
  have hlength := (lengths_of_toJson h).1
  rw [length_errors hhas herrors, length_errors hhas' herrors', countP_covered_trailing hempty hnames]
    at hlength
  omega

/-- A `SNAPSHOT` has an element for every entry in its reply. -/
theorem ips_reply (fqdn : Str) (entries : List Str) (ok : Bool) :
    (if ((DomainCommand.snapshot fqdn entries).reply ok).hasIps
      then ((DomainCommand.snapshot fqdn entries).reply ok).ips.length else 0) = entries.length := by
  have hips : ((DomainCommand.snapshot fqdn entries).reply ok).ips = entries.map entryReport ∧
      ((DomainCommand.snapshot fqdn entries).reply ok).hasIps = !entries.isEmpty := by
    rw [DomainCommand.reply]
    simp only [foldl_reportEntry]
    cases ok <;> exact ⟨rfl, rfl⟩
  rw [hips.1, hips.2, List.length_map]
  cases entries <;> rfl

/-- The lines of one pass of `DEBUG_DOMAINS`: there are some if any name is mapped. -/
theorem pass_eq_nil_iff (hnames : ∀ f, f ∈ names ↔ (r.domains f).isSome = true) (showFull : Bool) :
    names.filterMap (fun f => (r.domains f).map (debugLine showFull f)) = [] ↔ ∀ f, r.domains f = none := by
  rw [List.filterMap_eq_nil_iff]
  constructor
  · intro h f
    by_contra hf
    have hmem := (hnames f).mpr (Option.isSome_iff_ne_none.mpr hf)
    exact hf (Option.map_eq_none_iff.mp (h f hmem))
  · intro h f _
    rw [h f, Option.map_none]

/-- A `DEBUG_DOMAINS` without arguments makes one pass, with an empty one none. -/
theorem debug_trailing (hnames : ∀ f, f ∈ names ↔ (r.domains f).isSome = true) (args : List Str) :
    (Command.debug ((args ++ [[]]).head?.elim 1 atoi) ((args ++ [[]])[1]? == some "FULL".toList)).answer names r
        = (Command.debug (args.head?.elim 1 atoi) (args[1]? == some "FULL".toList)).answer names r ↔
      args ≠ [] ∨ ∀ f, r.domains f = none := by
  rcases args with _ | ⟨a, _ | ⟨b, rest⟩⟩
  · have hzero : (Command.debug (([] ++ [[]] : List Str).head?.elim 1 atoi)
        (([] ++ [[]] : List Str)[1]? == some "FULL".toList)).answer names r = [] := rfl
    have hone : (Command.debug (([] : List Str).head?.elim 1 atoi)
        (([] : List Str)[1]? == some "FULL".toList)).answer names r
        = names.filterMap fun f => (r.domains f).map (debugLine false f) := by
      show (List.replicate 1 _).flatten = _
      rw [List.replicate_one, List.flatten_singleton]
      rfl
    rw [hzero, hone, eq_comm, pass_eq_nil_iff hnames]
    simp
  · simp only [ne_eq, List.cons_ne_nil, not_false_eq_true, true_or, iff_true]
    rfl
  · simp only [ne_eq, List.cons_ne_nil, not_false_eq_true, true_or, iff_true]
    rfl

/-- The text of a `SET_SOA` gets longer. -/
theorem joinStr_trailing (s : Str) (rest : List Str) :
    joinStr (s :: (rest ++ [[]])) " ".toList ≠ joinStr (s :: rest) " ".toList := by
  have hjoin : joinStr (s :: (rest ++ [[]])) " ".toList = joinStr (s :: rest) " ".toList ++ " ".toList := by
    induction rest generalizing s with
    | nil => simp [joinStr, List.intercalate]
    | cons t rest ih =>
        have hstep : ∀ ts : List Str, joinStr (s :: t :: ts) " ".toList
            = s ++ (" ".toList ++ joinStr (t :: ts) " ".toList) := fun ts => by
          simp [joinStr, List.intercalate, List.intersperse]
        rw [List.cons_append, hstep, hstep, ih t, List.append_assoc, List.append_assoc]
  intro h
  rw [hjoin] at h
  exact absurd (congrArg List.length h) (by simp)

/-- The commands to which an empty token at the end makes no difference. -/
def IgnoresEmpty (h : Handler) (ts : List Str) (r : Registry) : Prop :=
  h = .addDomain ∨ h = .delDomain ∨ h = .clearDomains ∨
    (h = .debugDomains ∧ (1 < ts.length ∨ ∀ f, r.domains f = none))

/-- **One more, empty token**: the command is the same, and does the same if its handler ignores it. -/
theorem Recognised.trailing {ts : List Str} {h : Handler} {cmd : Command} (hr : Recognised ts h cmd)
    (hempty : r.domains [] = none) (hnames : ∀ f, f ∈ names ↔ (r.domains f).isSome = true) :
    ∃ cmd', Recognised (ts ++ [[]]) h cmd' ∧
      (cmd'.answer names r = cmd.answer names r ∧ cmd'.apply r = cmd.apply r ↔ IgnoresEmpty h ts r) := by
  have htally : r.tally [] = none := by
    rw [Registry.tally, hempty, Option.map_none]
  have hmapped : ∀ f ∈ names, (r.tally f).isNone = false := by
    intro f hf
    rw [Registry.tally, Option.isNone_map, ← Option.not_isSome, (hnames f).mp hf]
    rfl
  cases hr
  all_goals simp only [List.cons_append]
  case debug args =>
    refine ⟨_, .debug (args ++ [[]]), ?_⟩
    have hlen : 1 < ("DEBUG_DOMAINS".toList :: args).length ↔ args ≠ [] := by
      cases args <;> simp
    rw [IgnoresEmpty, hlen, debug_trailing hnames]
    simp [Command.apply]
  case add fqdn algoName rest => exact ⟨_, .add fqdn algoName (rest ++ [[]]), by simp [IgnoresEmpty]⟩
  case del fqdn rest => exact ⟨_, .del fqdn (rest ++ [[]]), by simp [IgnoresEmpty]⟩
  case snapshot fqdn entries =>
    refine ⟨_, .snapshot fqdn (entries ++ [[]]), iff_of_false ?_ (by simp [IgnoresEmpty])⟩
    rintro ⟨hanswer, -⟩
    have hlength := (lengths_of_toJson (List.singleton_injective hanswer)).2
    rw [ips_reply, ips_reply, List.length_append, List.length_singleton] at hlength
    omega
  case counts args =>
    refine ⟨_, .counts (args ++ [[]]), iff_of_false ?_ (by simp [IgnoresEmpty])⟩
    rintro ⟨hanswer, -⟩
    exact errors_trailing htally hmapped rfl rfl rfl rfl (List.singleton_injective hanswer).symm
  case clear args =>
    refine ⟨_, .clear (args ++ [[]]), iff_of_false ?_ (by simp [IgnoresEmpty])⟩
    rintro ⟨hanswer, -⟩
    exact errors_trailing htally hmapped rfl rfl rfl rfl (List.singleton_injective hanswer).symm
  case soa base s rest =>
    refine ⟨_, .soa base s (rest ++ [[]]), iff_of_false ?_ (by simp [IgnoresEmpty])⟩
    rintro ⟨-, happly⟩
    have hsoa : (⟨joinStr (s :: (rest ++ [[]])) " ".toList, base⟩ : SOAContainer)
        = ⟨joinStr (s :: rest) " ".toList, base⟩ := congrArg Registry.soa happly
    exact joinStr_trailing s rest (congrArg SOAContainer.soaRecord hsoa)
  case ns n rest =>
    refine ⟨_, .ns n (rest ++ [[]]), iff_of_false ?_ (by simp [IgnoresEmpty])⟩
    rintro ⟨-, happly⟩
    have hns : n :: (rest ++ [[]]) = n :: rest := congrArg Registry.ns happly
    exact absurd (congrArg List.length hns) (by simp)
  case clearDomains args => exact ⟨_, .clearDomains (args ++ [[]]), by simp [IgnoresEmpty]⟩

end Trailing

/-! ### Lines with extra spaces -/

/-- Two lines get the same reply, and leave the same registry. -/
def SameEffect (ord : MapOrder) (g : Globals) (line line' : Str) : Prop :=
  ∃ out g₁ g₂, (dispatch ord line).run g = some (out, g₁) ∧ (dispatch ord line').run g = some (out, g₂) ∧
    g₂.registry = g₁.registry

section Lines

variable {ord : MapOrder} {g : Globals} {line line' : Str}

theorem sameEffect_iff (hg : g.WellFormed) :
    SameEffect ord g line line' ↔
      (command line').answer (ord.names g) g.registry = (command line).answer (ord.names g) g.registry ∧
        (command line').apply g.registry = (command line).apply g.registry := by
  obtain ⟨g₁, hrun₁, -, hregistry₁⟩ := dispatch_registry ord hg line
  obtain ⟨g₂, hrun₂, -, hregistry₂⟩ := dispatch_registry ord hg line'
  constructor
  · rintro ⟨out, g₁', g₂', h₁, h₂, hsame⟩
    obtain ⟨hout₁, rfl⟩ := Prod.mk.inj (Option.some.inj (h₁.symm.trans hrun₁))
    obtain ⟨hout₂, rfl⟩ := Prod.mk.inj (Option.some.inj (h₂.symm.trans hrun₂))
    exact ⟨hout₂.symm.trans hout₁, by rw [← hregistry₁, ← hregistry₂, hsame]⟩
  · rintro ⟨hanswer, happly⟩
    exact ⟨_, g₁, g₂, hrun₁, by rw [hrun₂, hanswer], by rw [hregistry₁, hregistry₂, happly]⟩

/-- A line with the same tokens is the same command. -/
theorem sameEffect_of_tokens (hg : g.WellFormed) {h : Handler} (hrec : recognised line = some h)
    (htok : splitStr line' " ".toList = splitStr line " ".toList) : SameEffect ord g line line' := by
  obtain ⟨cmd, hcmd⟩ := recognised_tokens hrec
  have hcmd' : Recognised (splitStr line' " ".toList) h cmd := htok ▸ hcmd
  rw [sameEffect_iff hg, hcmd.command_eq, hcmd'.command_eq]
  exact ⟨rfl, rfl⟩

/-- No domain has the empty name. -/
theorem domains_nil (hg : g.WellFormed) : g.registry.domains [] = none := by
  cases hf : g.find [] with
  | none => exact lookupContainer_of_find_none hf
  | some p =>
      obtain ⟨c, hc, hname⟩ := hg.mapped [] p hf
      exact absurd hname (hg.valid p c hc).cname_ne

theorem mem_names_iff (hg : g.WellFormed) (f : Str) :
    f ∈ ord.names g ↔ (g.registry.domains f).isSome = true := by
  rw [ord.mem_names, ← hg.lookupContainer_isSome]
  rfl

theorem domains_eq_none_iff (hg : g.WellFormed) :
    (∀ f, g.registry.domains f = none) ↔ ∀ f, g.find f = none := by
  refine forall_congr' fun f => ?_
  rw [← Option.not_isSome_iff_eq_none, ← Option.not_isSome_iff_eq_none, ← hg.lookupContainer_isSome]
  rfl

end Lines

/-- **When extra spaces do not change a command.**  A line with longer runs of spaces, and with some at its
end, is always recognised as the same command.  It has the same effect if and only if there are none at the
end, or the line has an empty token there already, or the handler ignores it: that of `ADD_DOMAIN`,
`DEL_DOMAIN` and `CLR_DOMAINS`, and that of `DEBUG_DOMAINS` if it has an argument or there is no domain. -/
theorem extra_spaces_iff (ord : MapOrder) (rnd : Randomness) {g : Globals} (hg : g.Reachable ord rnd)
    {line line' : Str} {h : Handler} (hrec : recognised line = some h) (hstretch : Stretched ' ' line line')
    (k : ℕ) :
    recognised (line' ++ List.replicate k ' ') = some h ∧
      (SameEffect ord g line (line' ++ List.replicate k ' ') ↔
        k = 0 ∨ (splitStr line " ".toList).getLast? = some [] ∨
          h = .addDomain ∨ h = .delDomain ∨ h = .clearDomains ∨
            (h = .debugDomains ∧ (1 < (splitStr line " ".toList).length ∨ ∀ f, g.find f = none))) := by
  have hwf := hg.wellFormed
  have hsame := splitStr_stretched hstretch
  obtain ⟨cmd, hcmd⟩ := recognised_tokens hrec
  have hne : splitStr line' " ".toList ≠ [[]] := by
    rw [hsame]
    intro hnil
    rw [hnil] at hcmd
    cases hcmd
  rcases k with _ | n
  · rw [List.replicate_zero, List.append_nil]
    refine ⟨recognised_append hrec (by rw [hsame, List.append_nil]), iff_of_true ?_ (Or.inl rfl)⟩
    exact sameEffect_of_tokens hwf hrec hsame
  · have htrail := splitStr_trailing hne n
    rw [hsame] at htrail
    by_cases hempty : (splitStr line " ".toList).getLast? = some []
    · rw [if_pos hempty] at htrail
      refine ⟨recognised_append hrec (by rw [htrail, List.append_nil]),
        iff_of_true ?_ (Or.inr (Or.inl hempty))⟩
      exact sameEffect_of_tokens hwf hrec htrail
    · rw [if_neg hempty] at htrail
      have hnames : ∀ f, f ∈ ord.names g ↔ (g.registry.domains f).isSome = true := mem_names_iff hwf
      obtain ⟨cmd', hcmd', hiff⟩ := hcmd.trailing (domains_nil hwf) hnames
      rw [← htrail] at hcmd'
      refine ⟨recognised_append hrec htrail, ?_⟩
      rw [sameEffect_iff hwf, hcmd.command_eq, hcmd'.command_eq, hiff, IgnoresEmpty, domains_eq_none_iff hwf]
      simp only [Nat.succ_ne_zero, hempty, false_or]

theorem stretched_addDomain : Stretched ' ' "ADD_DOMAIN b NONE".toList "ADD_DOMAIN   b NONE".toList := by
  have h : Stretched ' ' ("ADD_DOMAIN".toList ++ ' ' :: "b NONE".toList)
      ("ADD_DOMAIN".toList ++ (List.replicate 3 ' ' ++ "b NONE".toList)) :=
    (Stretched.run 2 (Stretched.refl ' ' _)).append_left _
  exact h

theorem extra_spaces_iff_addDomain :
    ∃ g : Globals, g.Reachable MapOrder.entries Randomness.counting ∧
      SameEffect MapOrder.entries g "ADD_DOMAIN b NONE".toList
        ("ADD_DOMAIN   b NONE".toList ++ List.replicate 2 ' ') := by
  obtain ⟨g, hg, -⟩ := exists_reachable_domain
  have hiff := extra_spaces_iff MapOrder.entries Randomness.counting hg
    (recognised_iff.mpr (by decide) : recognised "ADD_DOMAIN b NONE".toList = some .addDomain)
    stretched_addDomain 2
  exact ⟨g, hg, hiff.2.mpr (Or.inr (Or.inr (Or.inl rfl)))⟩

/-- **A space at the end changes a command**: `COUNTS` passes and the same line with a space fails. -/
theorem trailing_space_fails :
    ¬ ∀ (ord : MapOrder) (rnd : Randomness) (g : Globals) (line line' : Str) (h : Handler) (k : ℕ),
      g.Reachable ord rnd → line.head? ≠ some ' ' → line.getLast? ≠ some ' ' → recognised line = some h →
      Stretched ' ' line line' → recognised (line' ++ List.replicate k ' ') = some h ∧
        SameEffect ord g line (line' ++ List.replicate k ' ') := by
  intro h
  have hrec : recognised "COUNTS".toList = some .getCounts := recognised_iff.mpr (by decide)
  obtain ⟨-, out, g₁, g₂, hrun₁, hrun₂, -⟩ := h MapOrder.entries Randomness.counting (init 0)
    "COUNTS".toList _ _ 1 (reachable_init _ _ 0) (by decide) (by decide) hrec (Stretched.refl ' ' _)
  have hpassed : ((dispatch MapOrder.entries "COUNTS".toList).run (init 0)).map Prod.fst
      = some [(countsReply (fun _ => none) []).toJson] := rfl
  have hfailed : ((dispatch MapOrder.entries ("COUNTS".toList ++ List.replicate 1 ' ')).run (init 0)).map Prod.fst
      = some [(countsReply (fun _ => none) [[]]).toJson] := rfl
  rw [hrun₁, Option.map_some] at hpassed
  rw [hrun₂, Option.map_some, hpassed] at hfailed
  exact absurd (List.singleton_injective (Option.some.inj hfailed)) (by decide)

end GlbBackend
