import GlbBackend.Spaces
import GlbBackend.Imperative.Loop

/-!
# No command line makes a handler read past its arguments

`CommandServer` takes the elements of a vector from the list where a test or the bound of a loop stands
before the access.  The definitions here, under the same names in the namespace `Checked`, index every vector
as the source does, and an index out of range is a `fault`.  What a handler does if it finds too few
arguments is a parameter of them, `few`.

For every value of `few` the checked code is the code of `CommandServer` (`Checked.serverLoop_eq`): no index is
out of range, and no branch for too few arguments is reached from the dispatch.
-/

namespace GlbBackend

open Text Concurrent Concurrent.Proc Globals Imperative

namespace Checked

/-! ### The code with its indices -/

/-- `cmdMatch`; the first token is read only if the size allows. -/
def cmdMatch (nArgs : ℕ) (sv : List Str) (expected : Str) : Option Bool :=
  if nArgs ≤ sv.length then do
    let name ← sv[0]?
    some (name == expected)
  else some false

/-- `joinStr(strIn, delim, start_i)`. -/
def joinStrFrom (strIn : List Str) (_delim : Str) (start_i : ℕ) : Option Str := do
  let strVec ← forLoop (fun i strVec => do
    let s ← strIn[i]?
    some (strVec ++ [s])) (strIn.length - start_i) start_i []
  some (joinStr strVec " ".toList)

section Handlers

variable (few : Handler → Str → Code (List Str)) (ord : MapOrder) (line : Str)

def addDomain : Code (List Str) :=
  let jb : ServerJsonBuilder := {}
  let jb := jb.setType "ADD_DOMAIN".toList
  let inArgs := splitStr line " ".toList
  if inArgs.length < 3 then few .addDomain line
  else do
    let fqdn ← expect inArgs[1]?
    let algoName ← expect inArgs[2]?
    let jb := jb.setFqdn fqdn
    let glbType := strToGlbType algoName
    if glbType < 0 then
      let jb := jb.setStatus "FAILED".toList
      let jb := jb.setError ("Unknown Algo: ".toList ++ algoName)
      ret [jb.toJson]
    else
      let glb := GlbContainer.new fqdn glbType
      let known ← lockGuard .glbMapMutex <| scope .addDomain <| do
        let g ← read
        if (g.find fqdn).isSome then ret true
        else do
          modify fun g => g.insert fqdn glb
          ret false
      if known then
        let jb := jb.setStatus "FAILED".toList
        let jb := jb.setError "fqdn already exists".toList
        ret [jb.toJson]
      else
        let jb := jb.setStatus "PASSED".toList
        ret [jb.toJson]

/-- `inArgs[1]` is read before the number of arguments is looked at. -/
def delDomain : Code (List Str) :=
  let inArgs := splitStr line " ".toList
  do
    let fqdn ← expect inArgs[1]?
    let jb : ServerJsonBuilder := {}
    let jb := jb.setType "DEL_DOMAIN".toList
    if inArgs.length < 2 then few .delDomain line
    else
      let jb := jb.setFqdn fqdn
      let found ← lockGuard .glbMapMutex <| scope .delDomain <| do
        let g ← read
        if (g.find fqdn).isNone then ret false
        else do
          modify fun g => g.erase fqdn
          ret true
      if found then
        let jb := jb.setStatus "PASSED".toList
        ret [jb.toJson]
      else
        let jb := jb.setStatus "FAILED".toList
        let jb := jb.setError (fqdn ++ " not found".toList)
        ret [jb.toJson]

def setSOA : Code (List Str) :=
  let jb : ServerJsonBuilder := {}
  let jb := jb.setType "SET_SOA".toList
  let args := splitStr line " ".toList
  if args.length < 3 then few .setSOA line
  else do
    let baseFQDNValue ← expect args[1]?
    let soaValue ← expect (joinStrFrom args " ".toList 2)
    setGlobalSOARecord soaValue baseFQDNValue
    let jb := jb.setStatus "PASSED".toList
    ret [jb.toJson]

def setNS : Code (List Str) :=
  let args := splitStr line " ".toList
  let jb : ServerJsonBuilder := {}
  let jb := jb.setType "SET_NS".toList
  if args.length < 2 then few .setNS line
  else do
    let (newRecords, jb) ← expect <| forLoop (fun i (newRecords, jb) => do
      let pushed ← args[i]?
      let shown ← args[i]?
      some (newRecords ++ [pushed], jb.addNSRecord shown)) (args.length - 1) 1 (([] : List Str), jb)
    setNSRecords newRecords
    let jb := jb.setStatus "PASSED".toList
    ret [jb.toJson]

/-- The loop of `snapshotDomain`. -/
def decodeIPs (inArgs : List Str) (v : IpVars) (ips : List IPRecord) (jb : ServerJsonBuilder)
    (snapPassed : Bool) : Option (List IPRecord × ServerJsonBuilder × Bool) := do
  let (_, ips, jb, snapPassed) ← forLoop (fun i (v, ips, jb, snapPassed) => do
    let curr_ip ← inArgs[i]?
    let (ok, v) ← decodeIP curr_ip v
    if ok then
      some (v, ips ++ [⟨v.ipType, v.ipAddr, v.ipTTL⟩], jb.addIp curr_ip [], snapPassed)
    else some (v, ips, jb.addIp curr_ip v.errorMsg, false)) (inArgs.length - 2) 2 (v, ips, jb, snapPassed)
  some (ips, jb, snapPassed)

def snapshotDomain : Code (List Str) :=
  let jb : ServerJsonBuilder := {}
  let jb := jb.setType "SNAPSHOT".toList
  let inArgs := splitStr line " ".toList
  if inArgs.length < 2 then few .snapshotDomain line
  else do
    let fqdn ← expect inArgs[1]?
    let jb := jb.setFqdn fqdn
    let (ips, jb, snapPassed) ← expect (decodeIPs inArgs IpVars.init [] jb true)
    let snapPassedMsg := if snapPassed then "PASSED".toList else "FAILED".toList
    let glb ← sharedLock .glbMapMutex <| scope .snapshotDomain <| do
      let g ← read
      ret (g.find fqdn)
    match glb with
    | none =>
        let jb := jb.setStatus "FAILED".toList
        let jb := jb.setError (fqdn ++ " Not found".toList)
        ret [jb.toJson]
    | some glb => do
        setIPs glb ips
        let jb := jb.setStatus snapPassedMsg
        ret [jb.toJson]

/-- The loop of `getCounts` over its arguments; the argument is read under the lock. -/
def countArgs (args : List Str) (jb : ServerJsonBuilder) : Code (ServerJsonBuilder × Bool) :=
  forLoop (fun i (jb, failed) =>
    sharedLock .glbMapMutex <| scope .getCounts <| do
      let fqdn ← expect args[i]?
      let g ← read
      match g.find fqdn with
      | none =>
          let jb := jb.setStatus "FAILED".toList
          ret (jb.addError ("fqdn ".toList ++ fqdn ++ " doesn't exist".toList), true)
      | some glb => do
          let n ← getNLookups glb
          ret (jb.addCount fqdn n, failed)) (args.length - 1) 1 (jb, false)

def getCounts : Code (List Str) :=
  let jb : ServerJsonBuilder := {}
  let jb := jb.setType "GET_COUNTS".toList
  let args := splitStr line " ".toList
  if 1 < args.length then do
    let (jb, failed) ← countArgs args jb
    let jb := if failed then jb.setStatus "FAILED".toList else jb.setStatus "PASSED".toList
    ret [jb.toJson]
  else do
    let jb ← sharedLock .glbMapMutex <| scope .getCounts <| do
      let g ← read
      countAll (ord.traverse g) jb
    let jb := jb.setStatus "PASSED".toList
    ret [jb.toJson]

/-- The loop of `clearCounts` over its arguments. -/
def clearArgs (args : List Str) (jb : ServerJsonBuilder) : Code (ServerJsonBuilder × Bool) :=
  forLoop (fun i (jb, failed) => do
    let fqdn ← expect args[i]?
    let g ← read
    match g.find fqdn with
    | none => ret (jb.addError ("fqdn".toList ++ fqdn ++ " doesn't exist".toList), true)
    | some glb => do
        clrNLookups glb
        ret (jb, failed)) (args.length - 1) 1 (jb, false)

def clearCounts : Code (List Str) :=
  let args := splitStr line " ".toList
  let jb : ServerJsonBuilder := {}
  let jb := jb.setType "CLR_COUNTS".toList
  if 1 < args.length then do
    let (jb, failed) ← sharedLock .glbMapMutex <| scope .clearCounts <| clearArgs args jb
    let jb := if failed then jb.setStatus "FAILED".toList else jb.setStatus "PASSED".toList
    ret [jb.toJson]
  else do
    sharedLock .glbMapMutex <| scope .clearCounts <| do
      let g ← read
      clearAll (ord.traverse g)
    let jb := jb.setStatus "PASSED".toList
    ret [jb.toJson]

def debugDomains : Code (List Str) :=
  let args := splitStr line " ".toList
  do
    let nLoops ← expect (if 2 ≤ args.length then args[1]?.map atoi else some 1)
    let showFull ← expect (if 3 ≤ args.length then args[2]?.map (· == "FULL".toList) else some false)
    sharedLock .glbMapMutex <| scope .debugDomains <| do
      let g ← read
      debugLoop showFull (ord.traverse g) nLoops.toNat

/-- The dispatch chain: every test reads the first token again. -/
def dispatch : Code (List Str) :=
  let inCmdArgs := splitStr line " ".toList
  do
    if ← expect (cmdMatch 1 inCmdArgs "DEBUG_DOMAINS".toList) then debugDomains ord line
    else if ← expect (cmdMatch 3 inCmdArgs "ADD_DOMAIN".toList) then addDomain few line
    else if ← expect (cmdMatch 2 inCmdArgs "DEL_DOMAIN".toList) then delDomain few line
    else if ← expect (cmdMatch 2 inCmdArgs "SNAPSHOT".toList) then snapshotDomain few line
    else if ← expect (cmdMatch 1 inCmdArgs "COUNTS".toList) then getCounts ord line
    else if ← expect (cmdMatch 1 inCmdArgs "CLR_COUNTS".toList) then clearCounts ord line
    else if ← expect (cmdMatch 3 inCmdArgs "SET_SOA".toList) then setSOA few line
    else if ← expect (cmdMatch 2 inCmdArgs "SET_NS".toList) then setNS few line
    else if ← expect (cmdMatch 1 inCmdArgs "CLR_DOMAINS".toList) then clearDomains line
    else unknownCommand line

/-- Is the first token of the line `OVER`? -/
def isOver : Option Bool :=
  let mainCmd := splitStr line " ".toList
  if 0 < mainCmd.length then do
    let name ← mainCmd[0]?
    some (name == "OVER".toList)
  else some false

/-- The loop over the stored lines. -/
def processLines (inLines : List Str) : Code (List Str) :=
  forLoop (fun i outLines => do
    let line ← expect inLines[i]?
    let out ← dispatch few ord line
    ret (outLines ++ out)) inLines.length 0 []

/-- The loop of `server`. -/
def serverLoop (rest : Str) : List Str → List Str → Code (List (List Str))
  | [], inLines => do
      if ← expect (isOver rest) then do
        let _ ← processLines few ord inLines
        ret []
      else ret []
  | line :: lines, inLines => do
      if ← expect (isOver line) then do
        let outLines ← processLines few ord inLines
        let later ← serverLoop rest lines []
        ret ((outLines ++ ["OVER".toList]) :: later)
      else serverLoop rest lines (inLines ++ [line])

end Handlers

/-! ### The indices are in range -/

theorem cmdMatch_eq {nArgs : ℕ} (hn : 0 < nArgs) (sv : List Str) (expected : Str) :
    cmdMatch nArgs sv expected = some (GlbBackend.cmdMatch nArgs sv expected) := by
  rw [cmdMatch, GlbBackend.cmdMatch]
  split_ifs with hle
  · rw [decide_eq_true hle, Bool.true_and]
    cases sv with
    | nil => exact absurd (hn.trans_le hle) (Nat.lt_irrefl 0)
    | cons name rest => rfl
  · rw [decide_eq_false hle, Bool.false_and]

theorem isOver_eq (line : Str) : isOver line = some (GlbBackend.isOver line) := by
  rw [isOver, GlbBackend.isOver]
  cases hsv : splitStr line " ".toList with
  | nil => rfl
  | cons name rest => rfl

/-- A loop that pushes something for every element of a vector. -/
theorem forLoop_push {σ : Type} (xs : List Str) (push : Str → σ → σ) {body : ℕ → σ → Option σ}
    (hbody : ∀ i x s, xs[i]? = some x → body i s = some (push x s)) (first : ℕ) (s : σ) :
    forLoop body (xs.length - first) first s
      = some ((xs.drop first).foldl (fun s x => push x s) s) :=
  forLoop_index (fun x s => some (push x s)) (fun xs s => some (xs.foldl (fun s x => push x s) s))
    (fun _ => rfl) (fun _ _ _ => rfl) hbody first s

theorem joinStrFrom_eq (strIn : List Str) (delim : Str) (start_i : ℕ) :
    joinStrFrom strIn delim start_i = some (GlbBackend.joinStrFrom strIn delim start_i) := by
  have hcopy : ∀ xs out : List Str, xs.foldl (fun out s => out ++ [s]) out = out ++ xs := by
    intro xs
    induction xs with
    | nil => simp
    | cons x xs ih => simp [ih]
  rw [joinStrFrom, forLoop_push strIn (fun s strVec => strVec ++ [s]) (fun i x s hx => by rw [hx]; rfl),
    hcopy]
  rfl

/-- The loop of `setNS` pushes each argument twice. -/
theorem setNS_loop (args : List Str) (jb : ServerJsonBuilder) :
    forLoop (fun i ((newRecords, jb) : List Str × ServerJsonBuilder) => do
        let pushed ← args[i]?
        let shown ← args[i]?
        some (newRecords ++ [pushed], jb.addNSRecord shown)) (args.length - 1) 1 ([], jb)
      = some (args.drop 1, (args.drop 1).foldl (fun jb ns => jb.addNSRecord ns) jb) := by
  have hpush : ∀ (xs out : List Str) (jb : ServerJsonBuilder),
      xs.foldl (fun (s : List Str × ServerJsonBuilder) x => (s.1 ++ [x], s.2.addNSRecord x)) (out, jb)
        = (out ++ xs, xs.foldl (fun jb ns => jb.addNSRecord ns) jb) := by
    intro xs
    induction xs with
    | nil => simp
    | cons x xs ih => simp [ih]
  rw [forLoop_push args (fun x s => (s.1 ++ [x], s.2.addNSRecord x)) fun i x s hx => by rw [hx]; rfl]
  rw [hpush, List.nil_append]

/-- One round of the loop of `snapshotDomain`. -/
def decodeRound (curr_ip : Str) :
    IpVars × List IPRecord × ServerJsonBuilder × Bool →
      Option (IpVars × List IPRecord × ServerJsonBuilder × Bool)
  | (v, ips, jb, snapPassed) => do
      let (ok, v) ← decodeIP curr_ip v
      if ok then
        some (v, ips ++ [⟨v.ipType, v.ipAddr, v.ipTTL⟩], jb.addIp curr_ip [], snapPassed)
      else some (v, ips, jb.addIp curr_ip v.errorMsg, false)

theorem decodeRounds_eq (entries : List Str) (v : IpVars) (ips : List IPRecord) (jb : ServerJsonBuilder)
    (snapPassed : Bool) :
    (entries.foldlM (fun s curr_ip => decodeRound curr_ip s) (v, ips, jb, snapPassed)).map Prod.snd
      = GlbBackend.decodeIPs entries v ips jb snapPassed := by
  induction entries generalizing v ips jb snapPassed with
  | nil => rfl
  | cons curr_ip entries ih =>
      rw [List.foldlM_cons, GlbBackend.decodeIPs]
      show Option.map Prod.snd ((decodeRound curr_ip (v, ips, jb, snapPassed)).bind _) = _
      rw [decodeRound]
      cases decodeIP curr_ip v with
      | none => rfl
      | some r =>
          obtain ⟨ok, v⟩ := r
          cases ok with
          | true => exact ih v _ _ snapPassed
          | false => exact ih v ips _ false

theorem decodeIPs_eq (inArgs : List Str) (v : IpVars) (ips : List IPRecord) (jb : ServerJsonBuilder)
    (snapPassed : Bool) :
    decodeIPs inArgs v ips jb snapPassed = GlbBackend.decodeIPs (inArgs.drop 2) v ips jb snapPassed := by
  rw [← decodeRounds_eq, decodeIPs]
  rw [forLoop_index decodeRound (fun entries s => entries.foldlM (fun s curr_ip => decodeRound curr_ip s) s)
    (fun _ => rfl) (fun _ _ _ => rfl) fun i x s hx => by rw [hx]; rfl]
  cases List.foldlM (fun s curr_ip => decodeRound curr_ip s) (v, ips, jb, snapPassed) (inArgs.drop 2) <;> rfl

theorem countArgs_eq (args : List Str) (jb : ServerJsonBuilder) :
    countArgs args jb = GlbBackend.countArgs (args.drop 1) jb false := by
  rw [countArgs]
  refine forLoop_index (fun fqdn (jb, failed) =>
    sharedLock .glbMapMutex <| scope .getCounts <| do
      let g ← read
      match g.find fqdn with
      | none =>
          let jb := jb.setStatus "FAILED".toList
          ret (jb.addError ("fqdn ".toList ++ fqdn ++ " doesn't exist".toList), true)
      | some glb => do
          let n ← getNLookups glb
          ret (jb.addCount fqdn n, failed)) (fun args (jb, failed) => GlbBackend.countArgs args jb failed)
    (fun _ => rfl) (fun _ _ _ => rfl) (fun i x s hx => ?_) 1 (jb, false)
  rw [hx]
  rfl

theorem clearArgs_eq (args : List Str) (jb : ServerJsonBuilder) :
    clearArgs args jb = GlbBackend.clearArgs (args.drop 1) jb false := by
  rw [clearArgs]
  refine forLoop_index (fun fqdn (jb, failed) => do
    let g ← read
    match g.find fqdn with
    | none => ret (jb.addError ("fqdn".toList ++ fqdn ++ " doesn't exist".toList), true)
    | some glb => do
        clrNLookups glb
        ret (jb, failed)) (fun args (jb, failed) => GlbBackend.clearArgs args jb failed)
    (fun _ => rfl) (fun fqdn rest s => ?_) (fun i x s hx => ?_) 1 (jb, false)
  · show (Proc.bind read fun g => _) = Proc.bind (Proc.bind read fun g => _) _
    rw [bind_assoc]
    congr 1
    funext g
    cases g.find fqdn with
    | none => rfl
    | some glb =>
        show (clrNLookups glb).bind (fun _ => GlbBackend.clearArgs rest s.1 s.2)
          = ((clrNLookups glb).bind fun _ => ret (s.1, s.2)).bind _
        rw [bind_assoc]
        rfl
  · rw [hx]
    rfl

/-! ### The handlers that the dispatch chooses -/

section Handlers

variable (few : Handler → Str → Code (List Str)) (ord : MapOrder) {line : Str}

theorem addDomain_eq (h : 3 ≤ (splitStr line " ".toList).length) :
    addDomain few line = GlbBackend.addDomain line := by
  rw [addDomain, GlbBackend.addDomain]
  simp only [if_neg (Nat.not_lt.mpr h)]

theorem delDomain_eq (h : 2 ≤ (splitStr line " ".toList).length) :
    delDomain few line = GlbBackend.delDomain line := by
  rw [delDomain, GlbBackend.delDomain]
  simp only [if_neg (Nat.not_lt.mpr h)]

theorem setSOA_eq (h : 3 ≤ (splitStr line " ".toList).length) :
    setSOA few line = GlbBackend.setSOA line := by
  rw [setSOA, GlbBackend.setSOA]
  simp only [if_neg (Nat.not_lt.mpr h), joinStrFrom_eq, expect_some, bind_eq, ret_bind]

theorem setNS_eq (h : 2 ≤ (splitStr line " ".toList).length) :
    setNS few line = GlbBackend.setNS line := by
  rw [setNS, GlbBackend.setNS]
  simp only [if_neg (Nat.not_lt.mpr h)]
  rw [setNS_loop]
  rfl

theorem snapshotDomain_eq (h : 2 ≤ (splitStr line " ".toList).length) :
    snapshotDomain few line = GlbBackend.snapshotDomain line := by
  rw [snapshotDomain]
  simp only [if_neg (Nat.not_lt.mpr h), decodeIPs_eq]
  exact (if_neg (Nat.not_lt.mpr h)).symm

theorem getCounts_eq : getCounts ord line = GlbBackend.getCounts ord line := by
  rw [getCounts, GlbBackend.getCounts]
  simp only [countArgs_eq]

theorem clearCounts_eq : clearCounts ord line = GlbBackend.clearCounts ord line := by
  rw [clearCounts, GlbBackend.clearCounts]
  simp only [clearArgs_eq]

theorem debugDomains_eq : debugDomains ord line = GlbBackend.debugDomains ord line := by
  rw [debugDomains, GlbBackend.debugDomains, debugLoops]
  rcases splitStr line " ".toList with _ | ⟨cmd, _ | ⟨n, _ | ⟨full, rest⟩⟩⟩ <;> simp

/-- **The dispatch hands no handler a line with too few arguments, and all of it is in range.** -/
theorem dispatch_eq (line : Str) : dispatch few ord line = GlbBackend.dispatch ord line := by
  have hlen : ∀ {n : ℕ} {name : Str}, GlbBackend.cmdMatch n (splitStr line " ".toList) name = true →
      n ≤ (splitStr line " ".toList).length := fun h => (cmdMatch_iff.mp h).1
  rw [dispatch, GlbBackend.dispatch]
  simp only [cmdMatch_eq (Nat.succ_pos _), expect_some, bind_eq, ret_bind]
  split_ifs with h1 h2 h3 h4 h5 h6 h7 h8
  · exact debugDomains_eq ord
  · exact addDomain_eq few (hlen h2)
  · exact delDomain_eq few (hlen h3)
  · exact snapshotDomain_eq few (hlen h4)
  · exact getCounts_eq ord
  · exact clearCounts_eq ord
  · exact setSOA_eq few (hlen h7)
  · exact setNS_eq few (hlen h8)
  · rfl
  · rfl

theorem processLines_eq (inLines : List Str) :
    processLines few ord inLines = GlbBackend.processLines ord inLines := by
  have hloop : processLines few ord inLines
      = (GlbBackend.processLines ord (inLines.drop 0)).bind fun out => ret ([] ++ out) :=
    forLoop_index (fun line outLines => (GlbBackend.dispatch ord line).bind fun out => ret (outLines ++ out))
      (fun inLines outLines => (GlbBackend.processLines ord inLines).bind fun out => ret (outLines ++ out))
      (fun outLines => by rw [GlbBackend.processLines, ret_bind, List.append_nil]; rfl)
      (fun line inLines outLines => by
        simp only [GlbBackend.processLines, bind_eq, bind_assoc, ret_bind, List.append_assoc])
      (fun i line outLines hline => by rw [hline, ← dispatch_eq few ord line]; rfl) 0 []
  exact hloop.trans (bind_ret _)

/-- **A whole connection.** -/
theorem serverLoop_eq (rest : Str) (lines inLines : List Str) :
    serverLoop few ord rest lines inLines = GlbBackend.serverLoop ord rest lines inLines := by
  induction lines generalizing inLines with
  | nil =>
      rw [serverLoop, GlbBackend.serverLoop]
      simp only [isOver_eq, expect_some, bind_eq, ret_bind, processLines_eq]
  | cons line lines ih =>
      rw [serverLoop, GlbBackend.serverLoop]
      simp only [isOver_eq, expect_some, bind_eq, ret_bind, processLines_eq, ih]

end Handlers

end Checked

/-- **No command line makes a handler read past its arguments.**  In every reachable state and for every
sequence of lines and whatever comes behind the last one, the code with its indices, whatever its branches for too few arguments do, is the code of
the connection: no index is out of range, and none of these branches is reached.  It runs to the end, and
nothing that other threads do meanwhile brings it to a fault. -/
theorem arguments_in_range (ord : MapOrder) (rnd : Randomness) {g : Globals} (hg : g.Reachable ord rnd)
    (few : Handler → Str → Code (List Str)) (lines : List Str) (rest : Str) :
    Checked.serverLoop few ord rest lines [] = serverLoop ord rest lines [] ∧
      SafeCode (fun _ _ => True) g (Checked.serverLoop few ord rest lines []) ∧
      ∃ written g', (Checked.serverLoop few ord rest lines []).run g = some (written, g') := by
  have hsafe := serverLoop_safe g ord rest lines []
  rw [← Checked.serverLoop_eq few] at hsafe
  obtain ⟨written, g', hrun, -⟩ := hsafe.run Grows.refl Grows.trans hg.wellFormed (Grows.refl g)
  exact ⟨Checked.serverLoop_eq few ord rest lines [], hsafe, written, g', hrun⟩

/-- Lines with too few arguments, an empty one and one of delimiters only. -/
theorem arguments_in_range_shortLines :
    ∃ written g', (Checked.serverLoop (fun _ _ => fault) MapOrder.entries "OVER".toList
        ["DEL_DOMAIN".toList, "SET_NS\r".toList, [], "  ".toList, "SNAPSHOT a 4-".toList] []).run (init 0)
          = some (written, g') :=
  (arguments_in_range MapOrder.entries Randomness.counting (reachable_init _ _ 0) (fun _ _ => fault) _ _).2.2

end GlbBackend
