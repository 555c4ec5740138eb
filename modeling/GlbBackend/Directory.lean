import GlbBackend.Safety

/-!
# The directory: what the domain commands are for

Above the globals, what a client sees of the domains: a `Directory` says for each name whether there is a
domain of that name, with which algorithm and which records.  The four domain commands are operations on
it (`DomainCommand.apply`), and each answers with one of two replies (`DomainCommand.reply`).

`Globals.directory` reads the directory off the globals, and `run_dispatch` is the refinement: run alone,
the handler that the dispatch chooses for a domain command changes the directory as the operation does and
pushes the reply that the operation's result calls for.
-/

namespace GlbBackend

open Text Concurrent Concurrent.Proc Globals

/-! ### Directories -/

/-- What is kept of one domain. -/
structure Domain where
  algorithm : ℤ
  records : List IPRecord

/-- The domains by name. -/
abbrev Directory : Type := Str → Option Domain

namespace Directory

variable (d : Directory) (fqdn : Str)

/-- A new domain without records, unless the name is taken. -/
def add (algorithm : ℤ) : Bool × Directory :=
  if (d fqdn).isSome then (false, d) else (true, Function.update d fqdn (some ⟨algorithm, []⟩))

/-- The domain goes, if there is one. -/
def remove : Bool × Directory :=
  if (d fqdn).isSome then (true, Function.update d fqdn none) else (false, d)

/-- The records go behind those of the domain, if there is one. -/
def fill (ips : List IPRecord) : Bool × Directory :=
  match d fqdn with
  | none => (false, d)
  | some x => (true, Function.update d fqdn (some { x with records := x.records ++ ips }))

/-- No domain. -/
def empty : Directory := fun _ => none

variable {d fqdn}

theorem add_of_none (algorithm : ℤ) (h : d fqdn = none) :
    d.add fqdn algorithm = (true, Function.update d fqdn (some ⟨algorithm, []⟩)) := by
  rw [add, h]
  rfl

theorem add_of_some (algorithm : ℤ) {x : Domain} (h : d fqdn = some x) :
    d.add fqdn algorithm = (false, d) := by
  rw [add, h]
  rfl

theorem remove_of_none (h : d fqdn = none) : d.remove fqdn = (false, d) := by
  rw [remove, h]
  rfl

theorem remove_of_some {x : Domain} (h : d fqdn = some x) :
    d.remove fqdn = (true, Function.update d fqdn none) := by
  rw [remove, h]
  rfl

theorem fill_of_none (ips : List IPRecord) (h : d fqdn = none) : d.fill fqdn ips = (false, d) := by
  rw [fill, h]

theorem fill_of_some (ips : List IPRecord) {x : Domain} (h : d fqdn = some x) :
    d.fill fqdn ips
      = (true, Function.update d fqdn (some { x with records := x.records ++ ips })) := by
  rw [fill, h]

end Directory

/-! ### The commands -/

/-- A command about domains; the last one is a line that no handler takes. -/
inductive DomainCommand
  | add (fqdn algoName : Str)
  | del (fqdn : Str)
  | snapshot (fqdn : Str) (entries : List Str)
  | clear
  | unknown (line : Str)

namespace DomainCommand

/-- The records that the entries of a snapshot stand for. -/
def records (entries : List Str) : List IPRecord := entries.filterMap decodeEntry

/-- The name a command is about. -/
def subject : DomainCommand → Option Str
  | add fqdn _ => some fqdn
  | del fqdn => some fqdn
  | snapshot fqdn _ => some fqdn
  | clear => none
  | unknown _ => none

/-- What a command does to a directory, and whether it succeeds. -/
def apply : DomainCommand → Directory → Bool × Directory
  | add fqdn algoName, d =>
      if strToGlbType algoName < 0 then (false, d) else d.add fqdn (strToGlbType algoName)
  | del fqdn, d => d.remove fqdn
  | snapshot fqdn entries, d => d.fill fqdn (records entries)
  | clear, _ => (true, Directory.empty)
  | unknown _, d => (false, d)

/-- The reply of a command that succeeded, or did not. -/
def reply : DomainCommand → Bool → ServerJsonBuilder
  | add fqdn algoName, ok =>
      let jb := (({} : ServerJsonBuilder).setType "ADD_DOMAIN".toList).setFqdn fqdn
      if strToGlbType algoName < 0 then
        (jb.setStatus "FAILED".toList).setError ("Unknown Algo: ".toList ++ algoName)
      else if ok then jb.setStatus "PASSED".toList
      else (jb.setStatus "FAILED".toList).setError "fqdn already exists".toList
  | del fqdn, ok =>
      let jb := (({} : ServerJsonBuilder).setType "DEL_DOMAIN".toList).setFqdn fqdn
      if ok then jb.setStatus "PASSED".toList
      else (jb.setStatus "FAILED".toList).setError (fqdn ++ " not found".toList)
  | snapshot fqdn entries, ok =>
      let jb := (({} : ServerJsonBuilder).setType "SNAPSHOT".toList).setFqdn fqdn
      let jb := entries.foldl reportEntry jb
      if ok then
        jb.setStatus
          (if entries.all fun t => (decodeEntry t).isSome then "PASSED".toList else "FAILED".toList)
      else (jb.setStatus "FAILED".toList).setError (fqdn ++ " Not found".toList)
  | clear, _ => (({} : ServerJsonBuilder).setType "clr_domains".toList).setStatus "PASSED".toList
  | unknown line, _ => (({} : ServerJsonBuilder).setType "UNKNOWN COMMAND".toList).setError line

/-- The lines a handler pushes for a reply. -/
def answer (cmd : DomainCommand) (ok : Bool) : List Str := [(cmd.reply ok).toJson]

/-- A command leaves every name alone that it is not about, unless it clears them all. -/
theorem apply_of_ne {cmd : DomainCommand} {d : Directory} {f : Str} (hclear : cmd ≠ clear)
    (hf : cmd.subject ≠ some f) : (cmd.apply d).2 f = d f := by
  cases cmd with
  | add fqdn algoName =>
      have hne : f ≠ fqdn := fun h => hf (congrArg some h.symm)
      rw [apply, Directory.add]
      split_ifs
      · rfl
      · rfl
      · exact Function.update_of_ne hne _ _
  | del fqdn =>
      have hne : f ≠ fqdn := fun h => hf (congrArg some h.symm)
      rw [apply, Directory.remove]
      split_ifs
      · exact Function.update_of_ne hne _ _
      · rfl
  | snapshot fqdn entries =>
      have hne : f ≠ fqdn := fun h => hf (congrArg some h.symm)
      rw [apply, Directory.fill]
      split
      · rfl
      · exact Function.update_of_ne hne _ _
  | clear => exact absurd rfl hclear
  | unknown line => rfl

/-- What a command can do to one name: make the domain, take it away, fill it, or leave it. -/
inductive Effect (f : Str) (d : Directory) : DomainCommand → Prop
  | created {algoName : Str} (hknown : ¬ strToGlbType algoName < 0) (hfree : d f = none)
      (happly : (add f algoName).apply d
        = (true, Function.update d f (some ⟨strToGlbType algoName, []⟩))) : Effect f d (add f algoName)
  | refused {algoName : Str} (hrefused : strToGlbType algoName < 0 ∨ (d f).isSome = true)
      (happly : (add f algoName).apply d = (false, d)) : Effect f d (add f algoName)
  | removed {x : Domain} (hfound : d f = some x)
      (happly : (del f).apply d = (true, Function.update d f none)) : Effect f d (del f)
  | notFound (hfree : d f = none) (happly : (del f).apply d = (false, d)) : Effect f d (del f)
  | filled {entries : List Str} {x : Domain} (hfound : d f = some x)
      (happly : (snapshot f entries).apply d
        = (true, Function.update d f (some { x with records := x.records ++ records entries }))) :
      Effect f d (snapshot f entries)
  | notFilled {entries : List Str} (hfree : d f = none)
      (happly : (snapshot f entries).apply d = (false, d)) : Effect f d (snapshot f entries)
  | cleared : Effect f d clear
  | other {cmd : DomainCommand} (hclear : cmd ≠ clear) (hf : cmd.subject ≠ some f)
      (happly : (cmd.apply d).2 f = d f) : Effect f d cmd

/-- **What a command does to one name**, said once. -/
theorem effect (cmd : DomainCommand) (f : Str) (d : Directory) : Effect f d cmd := by
  by_cases hf : cmd.subject = some f
  · cases cmd with
    | add fqdn algoName =>
        obtain rfl : fqdn = f := Option.some.inj hf
        by_cases ht : strToGlbType algoName < 0
        · exact .refused (Or.inl ht) (by rw [apply, if_pos ht])
        · cases hd : d fqdn with
          | none => exact .created ht hd (by rw [apply, if_neg ht, Directory.add_of_none _ hd])
          | some x =>
              refine .refused (Or.inr (by rw [hd]; rfl)) ?_
              rw [apply, if_neg ht, Directory.add_of_some _ hd]
    | del fqdn =>
        obtain rfl : fqdn = f := Option.some.inj hf
        cases hd : d fqdn with
        | none => exact .notFound hd (Directory.remove_of_none hd)
        | some x => exact .removed hd (Directory.remove_of_some hd)
    | snapshot fqdn entries =>
        obtain rfl : fqdn = f := Option.some.inj hf
        cases hd : d fqdn with
        | none => exact .notFilled hd (Directory.fill_of_none _ hd)
        | some x => exact .filled hd (Directory.fill_of_some _ hd)
    | clear => exact .cleared
    | unknown line => exact absurd hf (by simp [subject])
  · by_cases hclear : cmd = clear
    · rw [hclear]
      exact .cleared
    · exact .other hclear hf (apply_of_ne hclear hf)

end DomainCommand

/-- The domain command on a line: one of the four, or a line that begins like one of them and has too few
arguments. -/
def domainCommand? (line : Str) : Option DomainCommand :=
  match splitStr line " ".toList with
  | [] => none
  | cmd :: args =>
      if cmd = "ADD_DOMAIN".toList then
        match args with
        | fqdn :: algoName :: _ => some (.add fqdn algoName)
        | _ => some (.unknown line)
      else if cmd = "DEL_DOMAIN".toList then
        match args with
        | fqdn :: _ => some (.del fqdn)
        | _ => some (.unknown line)
      else if cmd = "SNAPSHOT".toList then
        match args with
        | fqdn :: entries => some (.snapshot fqdn entries)
        | _ => some (.unknown line)
      else if cmd = "CLR_DOMAINS".toList then some .clear
      else none

/-! ### The handlers, section by section -/

/-- The map section of `addDomain`: is the name taken? -/
def addSection (fqdn : Str) (glbType : ℤ) : Code Bool :=
  lockGuard .glbMapMutex <| scope .addDomain <| do
    let g ← read
    if (g.find fqdn).isSome then ret true
    else do
      modify fun g => g.insert fqdn (GlbContainer.new fqdn glbType)
      ret false

/-- The map section of `delDomain`: was there a domain? -/
def delSection (fqdn : Str) : Code Bool :=
  lockGuard .glbMapMutex <| scope .delDomain <| do
    let g ← read
    if (g.find fqdn).isNone then ret false
    else do
      modify fun g => g.erase fqdn
      ret true

/-- The map section of `snapshotDomain`. -/
def findSection (fqdn : Str) : Code (Option Ptr) :=
  sharedLock .glbMapMutex <| scope .snapshotDomain <| do
    let g ← read
    ret (g.find fqdn)

/-- The map section of `clearDomains`. -/
def clearSection : Code Unit :=
  lockGuard .glbMapMutex <| scope .clearDomains <| modify fun g => g.clear

namespace DomainCommand

/-- What `snapshotDomain` does once it has looked for the container. -/
def filling (fqdn : Str) (entries : List Str) : Option Ptr → Code (List Str)
  | none => ret ((snapshot fqdn entries).answer false)
  | some glb => (setIPs glb (records entries)).bind fun _ => ret ((snapshot fqdn entries).answer true)

/-- What `clearDomains` does after its console output. -/
def clearing : Code (List Str) := clearSection.bind fun _ => ret (clear.answer true)

/-- The code of a command. -/
def code : DomainCommand → Code (List Str)
  | add fqdn algoName =>
      if strToGlbType algoName < 0 then ret ((add fqdn algoName).answer false)
      else (addSection fqdn (strToGlbType algoName)).bind fun known =>
        ret ((add fqdn algoName).answer !known)
  | del fqdn => (delSection fqdn).bind fun found => ret ((del fqdn).answer found)
  | snapshot fqdn entries => (findSection fqdn).bind (filling fqdn entries)
  | clear => debug.bind fun _ => clearing
  | unknown line => ret ((unknown line).answer false)

end DomainCommand

theorem addDomain_eq {line cmd fqdn algoName : Str} {rest : List Str}
    (htok : splitStr line " ".toList = cmd :: fqdn :: algoName :: rest) :
    addDomain line = (DomainCommand.add fqdn algoName).code := by
  have hlen : ¬ (splitStr line " ".toList).length < 3 := by
    rw [htok, List.length_cons, List.length_cons, List.length_cons]
    omega
  rw [addDomain]
  simp only [if_neg hlen]
  simp only [htok, List.getElem?_cons_succ, List.getElem?_cons_zero, expect_some, bind_eq, ret_bind]
  rw [DomainCommand.code]
  by_cases ht : strToGlbType algoName < 0
  · rw [if_pos ht, if_pos ht]
    simp only [DomainCommand.answer, DomainCommand.reply, if_pos ht]
  · rw [if_neg ht, if_neg ht]
    show (addSection fqdn (strToGlbType algoName)).bind _ = (addSection fqdn (strToGlbType algoName)).bind _
    congr 1
    funext known
    simp only [DomainCommand.answer, DomainCommand.reply, if_neg ht]
    cases known <;> rfl

theorem delDomain_eq {line cmd fqdn : Str} {rest : List Str}
    (htok : splitStr line " ".toList = cmd :: fqdn :: rest) :
    delDomain line = (DomainCommand.del fqdn).code := by
  have hlen : ¬ (splitStr line " ".toList).length < 2 := by
    rw [htok, List.length_cons, List.length_cons]
    omega
  rw [delDomain]
  simp only [if_neg hlen]
  simp only [htok, List.getElem?_cons_succ, List.getElem?_cons_zero, expect_some, bind_eq, ret_bind]
  show (delSection fqdn).bind _ = (delSection fqdn).bind _
  congr 1
  funext found
  cases found <;> rfl

theorem snapshotDomain_eq {line cmd fqdn : Str} {entries : List Str}
    (htok : splitStr line " ".toList = cmd :: fqdn :: entries) :
    snapshotDomain line = (DomainCommand.snapshot fqdn entries).code := by
  have hlen : ¬ (splitStr line " ".toList).length < 2 := by
    rw [htok, List.length_cons, List.length_cons]
    omega
  rw [snapshotDomain]
  simp only [if_neg hlen, decodeIPs_eq, expect_some, bind_eq, ret_bind]
  simp only [htok, List.getElem?_cons_succ, List.getElem?_cons_zero, expect_some, ret_bind,
    List.nil_append, List.drop_succ_cons, List.drop_zero, Bool.true_and]
  rfl

/-- **The dispatch runs the code of the command.** -/
theorem dispatch_eq_code (ord : MapOrder) {line : Str} {cmd : DomainCommand}
    (h : domainCommand? line = some cmd) : dispatch ord line = cmd.code := by
  rw [domainCommand?] at h
  rw [dispatch]
  rcases htok : splitStr line " ".toList with _ | ⟨name, args⟩
  · rw [htok] at h
    exact absurd h (by simp)
  rw [htok] at h
  simp only at h
  by_cases hadd : name = "ADD_DOMAIN".toList
  · rw [if_pos hadd] at h
    subst hadd
    rcases args with _ | ⟨fqdn, _ | ⟨algoName, rest⟩⟩
    · rw [← Option.some.inj h]
      rfl
    · rw [← Option.some.inj h]
      rfl
    · rw [← Option.some.inj h, ← addDomain_eq htok]
      rfl
  by_cases hdel : name = "DEL_DOMAIN".toList
  · rw [if_neg hadd, if_pos hdel] at h
    subst hdel
    rcases args with _ | ⟨fqdn, rest⟩
    · rw [← Option.some.inj h]
      rfl
    · rw [← Option.some.inj h, ← delDomain_eq htok]
      cases rest <;> rfl
  by_cases hsnap : name = "SNAPSHOT".toList
  · rw [if_neg hadd, if_neg hdel, if_pos hsnap] at h
    subst hsnap
    rcases args with _ | ⟨fqdn, rest⟩
    · rw [← Option.some.inj h]
      rfl
    · rw [← Option.some.inj h, ← snapshotDomain_eq htok]
      cases rest <;> rfl
  rw [if_neg hadd, if_neg hdel, if_neg hsnap] at h
  split_ifs at h with hclr
  subst hclr
  rw [← Option.some.inj h]
  rcases args with _ | ⟨_, _ | ⟨_, _⟩⟩ <;> rfl

/-! ### Replies tell success from failure -/

namespace DomainCommand

/-- The members that the replies of a command about a domain begin with. -/
def header (type fqdn : Str) : List (Str × Json) :=
  [("type".toList, ServerJsonBuilder.cValue type), ("fqdn".toList, ServerJsonBuilder.cValue fqdn)]

/-- Two replies that differ in the member after the header are different texts. -/
theorem toJson_ne {jb jb' : ServerJsonBuilder} {pre ms ms' : List (Str × Json)} {n n' : Str} {v v' : Json}
    (h : jb.members = pre ++ (n, v) :: ms) (h' : jb'.members = pre ++ (n', v') :: ms')
    (hne : ∀ tail tail', writeString n ++ ':' :: (write v ++ tail)
      ≠ writeString n' ++ ':' :: (write v' ++ tail')) : jb.toJson ≠ jb'.toJson := by
  intro heq
  rw [ServerJsonBuilder.toJson, ServerJsonBuilder.toJson, h, h', write, write] at heq
  have heq := writeMembers_cancel (List.append_cancel_right (List.cons_inj_right _ |>.mp heq))
  obtain ⟨tail, ht⟩ := writeMembers_cons n v ms
  obtain ⟨tail', ht'⟩ := writeMembers_cons n' v' ms'
  rw [ht, ht'] at heq
  exact hne tail tail' heq

theorem passed_ne_failed (tail tail' : Str) :
    writeString "status".toList ++ ':' :: (write (ServerJsonBuilder.cValue "PASSED".toList) ++ tail)
      ≠ writeString "status".toList ++ ':' :: (write (ServerJsonBuilder.cValue "FAILED".toList) ++ tail') := by
  have hpassed : write (ServerJsonBuilder.cValue "PASSED".toList) = "\"PASSED\"".toList := by decide
  have hfailed : write (ServerJsonBuilder.cValue "FAILED".toList) = "\"FAILED\"".toList := by decide
  rw [hpassed, hfailed]
  simp

/-- The reply of an `ADD_DOMAIN` that passed. -/
def addPassed (fqdn : Str) : ServerJsonBuilder :=
  ((({} : ServerJsonBuilder).setType "ADD_DOMAIN".toList).setFqdn fqdn).setStatus "PASSED".toList

theorem answer_add_true (fqdn : Str) {algoName : Str} (ht : ¬ strToGlbType algoName < 0) :
    (add fqdn algoName).answer true = [(addPassed fqdn).toJson] := by
  rw [answer, reply]
  simp only [if_neg ht, if_true]
  rfl

theorem answer_add_false (fqdn algoName : Str) :
    (add fqdn algoName).answer false ≠ [(addPassed fqdn).toJson] := by
  intro h
  have hmembers : ((add fqdn algoName).reply false).members = header "ADD_DOMAIN".toList fqdn ++
      ("status".toList, ServerJsonBuilder.cValue "FAILED".toList) ::
        [("error".toList, ServerJsonBuilder.cValue ((add fqdn algoName).reply false).error)] := by
    by_cases ht : strToGlbType algoName < 0
    · simp only [reply, if_pos ht]
      rfl
    · simp only [reply, if_neg ht]
      rfl
  have hpassed : (addPassed fqdn).members = header "ADD_DOMAIN".toList fqdn ++
      [("status".toList, ServerJsonBuilder.cValue "PASSED".toList)] := rfl
  exact toJson_ne hpassed hmembers passed_ne_failed (List.singleton_injective h).symm

/-- A `SNAPSHOT` that finds no domain says so: `error` stands where a found one's `ips` would. -/
theorem answer_snapshot_ne (fqdn : Str) (entries : List Str) :
    (snapshot fqdn entries).answer true ≠ (snapshot fqdn entries).answer false := by
  intro h
  have heq := List.singleton_injective h
  have hfalse : ((snapshot fqdn entries).reply false).members = header "SNAPSHOT".toList fqdn ++
      ("status".toList, ServerJsonBuilder.cValue "FAILED".toList) ::
        ("error".toList, ServerJsonBuilder.cValue (fqdn ++ " Not found".toList)) ::
        (if entries.isEmpty then []
          else [("ips".toList, .array ((entries.map entryReport).map ServerJsonBuilder.ipObj))]) := by
    rw [reply, foldl_reportEntry]
    cases entries <;> rfl
  by_cases hall : (entries.all fun t => (decodeEntry t).isSome) = true
  · have htrue : ((snapshot fqdn entries).reply true).members = header "SNAPSHOT".toList fqdn ++
        ("status".toList, ServerJsonBuilder.cValue "PASSED".toList) ::
          (if entries.isEmpty then []
            else [("ips".toList, .array ((entries.map entryReport).map ServerJsonBuilder.ipObj))]) := by
      rw [reply, foldl_reportEntry, if_pos rfl, if_pos hall]
      cases entries <;> rfl
    exact toJson_ne htrue hfalse passed_ne_failed heq
  · -- the status is the same; the next member is not
    obtain ⟨t, ts, rfl⟩ : ∃ t ts, entries = t :: ts := by
      cases entries with
      | nil => exact absurd rfl hall
      | cons t ts => exact ⟨t, ts, rfl⟩
    have htrue : ((snapshot fqdn (t :: ts)).reply true).members = (header "SNAPSHOT".toList fqdn ++
        [("status".toList, ServerJsonBuilder.cValue "FAILED".toList)]) ++
          ("ips".toList, .array (((t :: ts).map entryReport).map ServerJsonBuilder.ipObj)) :: [] := by
      rw [reply, foldl_reportEntry, if_pos rfl, if_neg hall]
      rfl
    have hnames : ∀ v v' : Json, ∀ tail tail' : Str, writeString "ips".toList ++ ':' :: (write v ++ tail)
        ≠ writeString "error".toList ++ ':' :: (write v' ++ tail') := by
      intro v v' tail tail'
      rw [show writeString "ips".toList = "\"ips\"".toList by decide,
        show writeString "error".toList = "\"error\"".toList by decide]
      simp
    exact toJson_ne htrue (hfalse.trans (List.append_cons _ _ _)) (hnames _ _) heq

end DomainCommand

/-! ### The directory of the globals -/

/-- What a container says of its domain. -/
def GlbContainer.domain (c : GlbContainer) : Domain := ⟨c.glbType, c.ips⟩

namespace DomainCommand

/-- What a command does to the containers. -/
def applyTo : DomainCommand → (Str → Option GlbContainer) → Str → Option GlbContainer
  | add fqdn algoName, d =>
      if strToGlbType algoName < 0 ∨ (d fqdn).isSome then d
      else Function.update d fqdn (some (GlbContainer.new fqdn (strToGlbType algoName)))
  | del fqdn, d => Function.update d fqdn none
  | snapshot fqdn entries, d => Function.update d fqdn ((d fqdn).map (·.setIPs (records entries)))
  | clear, _ => fun _ => none
  | unknown _, d => d

/-- What a change of the containers at one name is to the domains. -/
theorem map_domain_update (d : Str → Option GlbContainer) (fqdn : Str) (o : Option GlbContainer) :
    (fun f => (Function.update d fqdn o f).map GlbContainer.domain)
      = Function.update (fun f => (d f).map GlbContainer.domain) fqdn (o.map GlbContainer.domain) :=
  Function.comp_update (Option.map GlbContainer.domain) d fqdn o

/-- The domains change as the containers do. -/
theorem domains_applyTo (cmd : DomainCommand) (d : Str → Option GlbContainer) :
    (fun f => (cmd.applyTo d f).map GlbContainer.domain)
      = (cmd.apply fun f => (d f).map GlbContainer.domain).2 := by
  cases cmd with
  | add fqdn algoName =>
      rw [applyTo, apply, Directory.add, Option.isSome_map]
      by_cases ht : strToGlbType algoName < 0
      · rw [if_pos (Or.inl ht), if_pos ht]
      · rw [if_neg ht]
        by_cases hd : (d fqdn).isSome = true
        · rw [if_pos (Or.inr hd), if_pos hd]
        · rw [if_neg (by simp [ht, hd]), if_neg hd, map_domain_update]
          rfl
  | del fqdn =>
      rw [applyTo, apply, Directory.remove, Option.isSome_map, map_domain_update]
      cases hd : d fqdn with
      | none => exact Function.update_eq_self_iff.mpr (by rw [hd])
      | some c => rfl
  | snapshot fqdn entries =>
      rw [applyTo, apply, Directory.fill, map_domain_update]
      cases hd : d fqdn with
      | none => exact Function.update_eq_self_iff.mpr (by rw [hd]; rfl)
      | some c =>
          rw [Option.map_some, Option.map_some, GlbContainer.setIPs_eq]
          rfl
  | clear => rfl
  | unknown line => rfl

end DomainCommand

namespace Globals

/-- The directory a client sees. -/
def directory (g : Globals) : Directory := fun f => (g.lookupContainer f).map GlbContainer.domain

variable {g : Globals}

theorem directory_of_find {f : Str} {p : Ptr} {c : GlbContainer} (hf : g.find f = some p)
    (hc : g.container p = some c) : g.directory f = some c.domain := by
  rw [directory, lookupContainer, hf, Option.bind_some, hc, Option.map_some]

theorem directory_of_find_none {f : Str} (hf : g.find f = none) : g.directory f = none := by
  rw [directory, lookupContainer, hf, Option.bind_none, Option.map_none]

/-- No container is reachable under two names. -/
theorem WellFormed.find_injective (hg : g.WellFormed) {f f' : Str} {p : Ptr} (h : g.find f = some p)
    (h' : g.find f' = some p) : f = f' := by
  obtain ⟨c, hc, hn⟩ := hg.mapped f p h
  obtain ⟨c', hc', hn'⟩ := hg.mapped f' p h'
  have hcc : c = c' := Option.some.inj (hc.symm.trans hc')
  rw [← hn, ← hn', hcc]

/-! #### The containers by name -/

theorem WellFormed.lookupContainer_of_find (hg : g.WellFormed) {f : Str} {p : Ptr} (hf : g.find f = some p) :
    ∃ c, g.container p = some c ∧ g.lookupContainer f = some c ∧ c.cname = f := by
  obtain ⟨c, hc, hn⟩ := hg.mapped f p hf
  exact ⟨c, hc, by rw [lookupContainer, hf, Option.bind_some, hc], hn⟩

theorem lookupContainer_of_find_none {f : Str} (hf : g.find f = none) : g.lookupContainer f = none := by
  rw [lookupContainer, hf, Option.bind_none]

theorem WellFormed.lookupContainer_isSome (hg : g.WellFormed) (f : Str) :
    (g.lookupContainer f).isSome = (g.find f).isSome := by
  cases hf : g.find f with
  | none =>
      rw [lookupContainer_of_find_none hf]
      rfl
  | some p =>
      obtain ⟨c, -, hc, -⟩ := hg.lookupContainer_of_find hf
      rw [hc]
      rfl

theorem WellFormed.lookupContainer_insert (hg : g.WellFormed) (fqdn : Str) (c : GlbContainer) :
    (g.insert fqdn c).lookupContainer = Function.update g.lookupContainer fqdn (some c) := by
  funext f
  rw [Function.update_apply, lookupContainer, find_insert]
  split_ifs with hf
  · rw [Option.bind_some, container_insert, if_pos rfl]
  · cases hfind : g.find f with
    | none => rw [lookupContainer_of_find_none hfind, Option.bind_none]
    | some p =>
        obtain ⟨c', hc', hlook, -⟩ := hg.lookupContainer_of_find hfind
        rw [Option.bind_some, container_insert, if_neg (ne_of_lt (container_lt hc')), hc', hlook]

theorem lookupContainer_erase (g : Globals) (fqdn : Str) :
    (g.erase fqdn).lookupContainer = Function.update g.lookupContainer fqdn none := by
  funext f
  rw [Function.update_apply, lookupContainer, find_erase]
  split_ifs
  · rfl
  · rfl

/-- A change of the container of a mapped name. -/
theorem WellFormed.lookupContainer_update (hg : g.WellFormed) {fqdn : Str} {p : Ptr}
    (hf : g.find fqdn = some p) (u : GlbContainer → GlbContainer) :
    (g.update p u).lookupContainer
      = Function.update g.lookupContainer fqdn ((g.lookupContainer fqdn).map u) := by
  funext f
  rw [Function.update_apply, lookupContainer, find_update]
  split_ifs with hff
  · rw [hff, hf, Option.bind_some, container_update, if_pos rfl, lookupContainer, hf, Option.bind_some]
  · cases hfind : g.find f with
    | none => rw [lookupContainer_of_find_none hfind, Option.bind_none]
    | some q =>
        have hq : q ≠ p := by
          intro heq
          rw [heq] at hfind
          exact hff (hg.find_injective hfind hf)
        rw [Option.bind_some, container_update, if_neg hq, lookupContainer, hfind, Option.bind_some]

/-- A change of a container that no name leads to. -/
theorem lookupContainer_update_orphan {p : Ptr} (hp : ∀ f, g.find f ≠ some p)
    (u : GlbContainer → GlbContainer) : (g.update p u).lookupContainer = g.lookupContainer := by
  funext f
  rw [lookupContainer, lookupContainer, find_update]
  cases hfind : g.find f with
  | none => rfl
  | some q =>
      have hq : q ≠ p := by
        intro heq
        rw [heq] at hfind
        exact hp f hfind
      rw [Option.bind_some, Option.bind_some, container_update, if_neg hq]

/-! #### The domains by name -/

theorem WellFormed.directory_isSome (hg : g.WellFormed) (f : Str) :
    (g.directory f).isSome = (g.find f).isSome := by
  rw [directory, Option.isSome_map, hg.lookupContainer_isSome]

/-- A directory after a change of the containers at one name. -/
theorem directory_of_update {g' : Globals} {fqdn : Str} {o : Option GlbContainer}
    (h : g'.lookupContainer = Function.update g.lookupContainer fqdn o) :
    g'.directory = Function.update g.directory fqdn (o.map GlbContainer.domain) := by
  show Option.map GlbContainer.domain ∘ g'.lookupContainer = _
  rw [h, Function.comp_update]
  rfl

theorem WellFormed.directory_insert (hg : g.WellFormed) (fqdn : Str) (c : GlbContainer) :
    (g.insert fqdn c).directory = Function.update g.directory fqdn (some c.domain) :=
  directory_of_update (hg.lookupContainer_insert fqdn c)

theorem directory_erase (g : Globals) (fqdn : Str) :
    (g.erase fqdn).directory = Function.update g.directory fqdn none :=
  directory_of_update (lookupContainer_erase g fqdn)

/-- The container of a mapped name is filled. -/
theorem WellFormed.directory_setIPs (hg : g.WellFormed) {fqdn : Str} {p : Ptr} {c : GlbContainer}
    (hf : g.find fqdn = some p) (hc : g.container p = some c) (ips : List IPRecord) :
    (g.update p (·.setIPs ips)).directory
      = Function.update g.directory fqdn (some ⟨c.glbType, c.ips ++ ips⟩) := by
  rw [directory_of_update (hg.lookupContainer_update hf _), lookupContainer, hf, Option.bind_some, hc,
    Option.map_some, Option.map_some, GlbContainer.setIPs_eq]
  rfl

/-- A container that no name leads to is filled. -/
theorem directory_setIPs_orphan {p : Ptr} (hp : ∀ f, g.find f ≠ some p) (ips : List IPRecord) :
    (g.update p (·.setIPs ips)).directory = g.directory := by
  funext f
  rw [directory, directory, lookupContainer_update_orphan hp]

end Globals

/-! ### One section at a time -/

section Sections

variable {g : Globals} {fqdn : Str}

theorem run_addSection (g : Globals) (fqdn : Str) (glbType : ℤ) :
    (addSection fqdn glbType).run g
      = some ((g.find fqdn).isSome,
          if (g.find fqdn).isSome then g else g.insert fqdn (GlbContainer.new fqdn glbType)) := by
  simp only [addSection, run_lockGuard, run_scope, bind_eq, run_bind, run_read, Option.bind_some]
  cases g.find fqdn <;> rfl

theorem run_delSection (g : Globals) (fqdn : Str) :
    (delSection fqdn).run g
      = some ((g.find fqdn).isSome, if (g.find fqdn).isSome then g.erase fqdn else g) := by
  simp only [delSection, run_lockGuard, run_scope, bind_eq, run_bind, run_read, Option.bind_some]
  cases g.find fqdn <;> rfl

theorem run_findSection (g : Globals) (fqdn : Str) :
    (findSection fqdn).run g = some (g.find fqdn, g) := by
  rw [findSection, run_sharedLock, run_scope]
  rfl

theorem run_clearSection (g : Globals) : clearSection.run g = some ((), g.clear) := by
  rw [clearSection, run_lockGuard, run_scope, run_modify]

theorem run_pushIPs (g : Globals) (glb : Ptr) (ips : List IPRecord) :
    (pushIPs glb ips).run g = some ((), g.update glb (·.setIPs ips)) := by
  induction ips generalizing g with
  | nil => exact congrArg (fun g' => some ((), g')) (update_id g glb).symm
  | cons r rest ih =>
      rw [pushIPs, bind_eq, run_bind, run_modify, Option.bind_some, ih, update_update]
      rfl

theorem run_setIPs (g : Globals) (glb : Ptr) (ips : List IPRecord) :
    (setIPs glb ips).run g = some ((), g.update glb (·.setIPs ips)) := by
  rw [setIPs, run_lockGuard, run_scope, run_pushIPs]

theorem balanced_pushIPs (glb : Ptr) (ips : List IPRecord) : Balanced (pushIPs glb ips) := by
  induction ips with
  | nil => exact Balanced.ret ()
  | cons r rest ih => exact Balanced.bind (Balanced.atom fun _ => Balanced.ret ()) fun _ => ih

/-- **One command, run alone**: the containers change as the command says, the SOA and the NS list do not,
and it pushes the reply that its result calls for. -/
theorem DomainCommand.run_containers (cmd : DomainCommand) (hg : g.WellFormed) :
    ∃ g', cmd.code.run g = some (cmd.answer (cmd.apply g.directory).1, g') ∧
      g'.lookupContainer = cmd.applyTo g.lookupContainer ∧ g'.globalSOA = g.globalSOA ∧
      g'.nsList = g.nsList := by
  cases cmd with
  | add fqdn algoName =>
      rw [code, apply, applyTo]
      by_cases ht : strToGlbType algoName < 0
      · rw [if_pos ht, if_pos ht, if_pos (Or.inl ht)]
        exact ⟨g, rfl, rfl, rfl, rfl⟩
      · rw [if_neg ht, if_neg ht, Directory.add, hg.directory_isSome, hg.lookupContainer_isSome]
        simp only [run_bind, run_addSection, Option.bind_some, ht, false_or]
        cases g.find fqdn with
        | some p => exact ⟨g, rfl, rfl, rfl, rfl⟩
        | none => exact ⟨_, rfl, hg.lookupContainer_insert fqdn _, rfl, rfl⟩
  | del fqdn =>
      rw [code, apply, applyTo, Directory.remove, hg.directory_isSome]
      simp only [run_bind, run_delSection, Option.bind_some]
      cases hf : g.find fqdn with
      | none =>
          refine ⟨g, rfl, ?_, rfl, rfl⟩
          rw [← lookupContainer_of_find_none hf, Function.update_eq_self]
      | some p => exact ⟨_, rfl, lookupContainer_erase g fqdn, rfl, rfl⟩
  | snapshot fqdn entries =>
      rw [code, apply, applyTo]
      simp only [run_bind, run_findSection, Option.bind_some]
      cases hf : g.find fqdn with
      | none =>
          rw [Directory.fill_of_none _ (directory_of_find_none hf), lookupContainer_of_find_none hf,
            Option.map_none]
          refine ⟨g, rfl, ?_, rfl, rfl⟩
          rw [← lookupContainer_of_find_none hf, Function.update_eq_self]
      | some p =>
          obtain ⟨c, hc, -⟩ := hg.mapped fqdn p hf
          rw [Directory.fill_of_some _ (directory_of_find hf hc)]
          simp only [filling, run_bind, run_setIPs, Option.bind_some]
          exact ⟨_, rfl, hg.lookupContainer_update hf _, rfl, rfl⟩
  | clear =>
      rw [code, clearing]
      simp only [run_bind, run_debug, run_clearSection, Option.bind_some]
      exact ⟨_, rfl, rfl, rfl, rfl⟩
  | unknown line => exact ⟨g, rfl, rfl, rfl, rfl⟩

/-- **The refinement.**  Alone, the code of a command changes the directory as the command does, leaves the
SOA and the NS list, and pushes the reply that its result calls for. -/
theorem DomainCommand.run_code (cmd : DomainCommand) (hg : g.WellFormed) :
    ∃ g', cmd.code.run g = some (cmd.answer (cmd.apply g.directory).1, g') ∧
      g'.directory = (cmd.apply g.directory).2 ∧ g'.globalSOA = g.globalSOA ∧ g'.nsList = g.nsList := by
  obtain ⟨g', hrun, hcontainers, hsoa, hns⟩ := cmd.run_containers hg
  refine ⟨g', hrun, ?_, hsoa, hns⟩
  show (fun f => (g'.lookupContainer f).map GlbContainer.domain) = _
  rw [hcontainers]
  exact cmd.domains_applyTo g.lookupContainer

end Sections

/-- One command run alone: the state stays well-formed, and the directory changes as the command says. -/
theorem dispatch_command (ord : MapOrder) {g : Globals} (hg : g.WellFormed) {line : Str} {cmd : DomainCommand}
    (hcmd : domainCommand? line = some cmd) :
    ∃ g', (dispatch ord line).run g = some (cmd.answer (cmd.apply g.directory).1, g') ∧
      g'.WellFormed ∧ g'.directory = (cmd.apply g.directory).2 := by
  obtain ⟨g', hrun, hdir, -, -⟩ := cmd.run_code hg
  rw [← dispatch_eq_code ord hcmd] at hrun
  obtain ⟨out, g₁, hrun', hg₁, -⟩ := (dispatch_safe g ord line).run Grows.refl Grows.trans hg (Grows.refl g)
  obtain ⟨-, rfl⟩ := Prod.mk.inj (Option.some.inj (hrun'.symm.trans hrun))
  exact ⟨_, hrun, hg₁, hdir⟩

end GlbBackend
