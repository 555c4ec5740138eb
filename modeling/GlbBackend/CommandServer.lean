import GlbBackend.Store
import GlbBackend.ServerJsonBuilder

/-!
# `GLBCommandServer`: the command handlers, the dispatch and the connection loop

The handlers of `GLBCommandServer.cc` as processes.  A handler returns the lines it pushes onto
`outLines`; every vector access outside a loop that bounds its index is an `expect`, so reading past the
end is the `fault` it is in C++; locks are held where the source's guards are in scope.

`server` is the thread of one connection: it stores lines until one whose first token is `OVER` arrives,
then runs the stored commands and writes their lines followed by `OVER`.
-/

namespace GlbBackend

open Text Concurrent Concurrent.Proc

/-! ### Tokenising -/

/-- `splitStr`: newlines and carriage returns are dropped, then the text is split at the runs of
characters of `delim`. -/
def splitStr (strIn delim : Str) : List Str :=
  let strIn := strIn.filter (· ≠ '\n')
  let strIn := strIn.filter (· ≠ '\r')
  split (fun c => delim.contains c) strIn

/-- `joinStr(strIn, delim)`. -/
def joinStr (strIn : List Str) (delim : Str) : Str := List.intercalate delim strIn

/-- `joinStr(strIn, delim, start_i)`: the delimiter is ignored in favour of a space. -/
def joinStrFrom (strIn : List Str) (_delim : Str) (start_i : ℕ) : Str :=
  joinStr (strIn.drop start_i) " ".toList

/-- `cmdMatch`. -/
def cmdMatch (nArgs : ℕ) (sv : List Str) (expected : Str) : Bool :=
  decide (nArgs ≤ sv.length) && sv.head? == some expected

/-! ### Adding and removing domains -/

def addDomain (line : Str) : Code (List Str) :=
  let jb : ServerJsonBuilder := {}
  let jb := jb.setType "ADD_DOMAIN".toList
  let inArgs := splitStr line " ".toList
  if inArgs.length < 3 then
    let jb := jb.setStatus "FAILED".toList
    let jb := jb.setError
      "Needed fqdn and algo argument for command arguments for command".toList
    ret [jb.toJson]
  else do
    let fqdn ← expect inArgs[1]?
    let algoName ← expect inArgs[2]?
    let jb := jb.setFqdn fqdn
    let glbType := strToGlbType algoName
    if glbType < 0 then
      let jb := jb.setStatus "FAILED".toList
      let jb := jb.setError ("Unknown Algo: ".toList ++ algoName)
      ret [jb.toJson]
    else
      -- the container is private to this thread until the map assignment publishes it
      let glb := GlbContainer.new fqdn glbType
      let known ← lockGuard .glbMapMutex <| scope .addDomain <| do
        let g ← read
        if (g.find fqdn).isSome then ret true
        else do
          modify fun g => g.insert fqdn glb
          ret false
      if known then
        let jb := jb.setStatus "FAILED".toList
        let jb := jb.setError "fqdn already exists".toList
        ret [jb.toJson]
      else
        let jb := jb.setStatus "PASSED".toList
        ret [jb.toJson]

def delDomain (line : Str) : Code (List Str) :=
  let inArgs := splitStr line " ".toList
  do
    -- read before the argument count is checked
    let fqdn ← expect inArgs[1]?
    let jb : ServerJsonBuilder := {}
    let jb := jb.setType "DEL_DOMAIN".toList
    if inArgs.length < 2 then
      let jb := jb.setStatus "FAILED".toList
      let jb := jb.setError "DEL_DOMAIN FAILED: Needed fqdn argument for command".toList
      ret [jb.toJson]
    else
      let jb := jb.setFqdn fqdn
      let found ← lockGuard .glbMapMutex <| scope .delDomain <| do
        let g ← read
        if (g.find fqdn).isNone then ret false
        else do
          modify fun g => g.erase fqdn
          ret true
      if found then
        let jb := jb.setStatus "PASSED".toList
        ret [jb.toJson]
      else
        let jb := jb.setStatus "FAILED".toList
        let jb := jb.setError (fqdn ++ " not found".toList)
        ret [jb.toJson]

def clearDomains (_line : Str) : Code (List Str) := do
  debug
  lockGuard .glbMapMutex <| scope .clearDomains <| modify fun g => g.clear
  let jb : ServerJsonBuilder := {}
  let jb := jb.setType "clr_domains".toList
  let jb := jb.setStatus "PASSED".toList
  ret [jb.toJson]

/-! ### The SOA record and the NS list -/

def setGlobalSOARecord (soaValue baseFQDNValue : Str) : Code Unit :=
  lockGuard .soaMutex <| scope .setGlobalSOARecord <|
    modify fun g => g.setSOA soaValue baseFQDNValue

def getGlobalSOARecord : Code SOAContainer :=
  sharedLock .soaMutex <| scope .getGlobalSOARecord <| do
    let g ← read
    ret g.globalSOA

/-- The records are copied into a new vector, which is published under the lock. -/
def setNSRecords (recs : List Str) : Code Unit :=
  lockGuard .soaMutex <| scope .setNSRecords <| modify fun g => g.setNS recs

def getNSRecords : Code Ptr :=
  sharedLock .soaMutex <| scope .getNSRecords <| do
    let g ← read
    ret g.globalNsRecords

def setSOA (line : Str) : Code (List Str) :=
  let jb : ServerJsonBuilder := {}
  let jb := jb.setType "SET_SOA".toList
  let args := splitStr line " ".toList
  if args.length < 3 then
    let jb := jb.setStatus "FAILED".toList
    let jb := jb.setError
      ("expected atleast 3 arguments but found only ".toList ++ decimal args.length)
    ret [jb.toJson]
  else do
    let baseFQDNValue ← expect args[1]?
    let soaValue := joinStrFrom args " ".toList 2
    setGlobalSOARecord soaValue baseFQDNValue
    let jb := jb.setStatus "PASSED".toList
    ret [jb.toJson]

def setNS (line : Str) : Code (List Str) :=
  let args := splitStr line " ".toList
  let jb : ServerJsonBuilder := {}
  let jb := jb.setType "SET_NS".toList
  if args.length < 2 then
    let jb := jb.setStatus "FAILED".toList
    let jb := jb.setError
      ("expected atleast 2 parameters only got ".toList ++ decimal args.length)
    ret [jb.toJson]
  else do
    let newRecords := args.drop 1
    let jb := newRecords.foldl (fun jb ns => jb.addNSRecord ns) jb
    setNSRecords newRecords
    let jb := jb.setStatus "PASSED".toList
    ret [jb.toJson]

/-! ### Snapshots -/

/-- The variables of `snapshotDomain` that `decodeIP` fills. -/
structure IpVars where
  errorMsg : Str
  ipType : ℤ
  ipTTL : ℤ
  ipAddr : Str
  ipAttr : Str

/-- The variables before the loop; the two integers are indeterminate in the source. -/
def IpVars.init : IpVars := ⟨[], 0, 0, [], []⟩

/-- `decodeIP`: its verdict and the variables as it leaves them; `none` is an access out of range. -/
def decodeIP (inputStr : Str) (v : IpVars) : Option (Bool × IpVars) :=
  let ipVec := splitStr inputStr "-".toList
  if ipVec.length < 4 then
    some (false, { v with errorMsg := "-epected4Vals".toList })
  else do
    let ipt := atoi (← ipVec[0]?)
    let ttl := atoi (← ipVec[1]?)
    let addr ← ipVec[2]?
    let attr ← ipVec[3]?
    let v := { v with ipType := ipt, ipTTL := ttl, ipAddr := addr, ipAttr := attr }
    if ttl ≤ 0 then
      some (false, { v with errorMsg := "-ttl_less_than_0".toList })
    else if ipt = 4 then some (true, { v with ipType := IPRecordType.IPv4 })
    else if ipt = 6 then some (true, { v with ipType := IPRecordType.IPv6 })
    else some (false, { v with errorMsg := "-Unknown_ipType".toList })

/-- The loop of `snapshotDomain` over the entry tokens. -/
def decodeIPs : List Str → IpVars → List IPRecord → ServerJsonBuilder → Bool →
    Option (List IPRecord × ServerJsonBuilder × Bool)
  | [], _, ips, jb, snapPassed => some (ips, jb, snapPassed)
  | curr_ip :: rest, v, ips, jb, snapPassed =>
      (decodeIP curr_ip v).bind fun (ok, v) =>
        if ok then
          decodeIPs rest v (ips ++ [⟨v.ipType, v.ipAddr, v.ipTTL⟩]) (jb.addIp curr_ip []) snapPassed
        else
          decodeIPs rest v ips (jb.addIp curr_ip v.errorMsg) false

/-- The loop of `setIPs`. -/
def pushIPs (glb : Ptr) : List IPRecord → Code Unit
  | [] => ret ()
  | r :: rest => do
      modify fun g => g.update glb (·.push r)
      pushIPs glb rest

/-- `(*glb).setIPs(ips)`: the container is filled under its own lock. -/
def setIPs (glb : Ptr) (ips : List IPRecord) : Code Unit :=
  lockGuard (.glbMutex glb) <| scope .setIPs <| pushIPs glb ips

def snapshotDomain (line : Str) : Code (List Str) :=
  let jb : ServerJsonBuilder := {}
  let jb := jb.setType "SNAPSHOT".toList
  let inArgs := splitStr line " ".toList
  if inArgs.length < 2 then
    -- the reply is built but never pushed
    ret []
  else do
    let fqdn ← expect inArgs[1]?
    let jb := jb.setFqdn fqdn
    let (ips, jb, snapPassed) ← expect (decodeIPs (inArgs.drop 2) IpVars.init [] jb true)
    let snapPassedMsg := if snapPassed then "PASSED".toList else "FAILED".toList
    let glb ← sharedLock .glbMapMutex <| scope .snapshotDomain <| do
      let g ← read
      ret (g.find fqdn)
    match glb with
    | none =>
        let jb := jb.setStatus "FAILED".toList
        let jb := jb.setError (fqdn ++ " Not found".toList)
        ret [jb.toJson]
    | some glb => do
        setIPs glb ips
        let jb := jb.setStatus snapPassedMsg
        ret [jb.toJson]

/-! ### Counts -/

def getNLookups (glb : Ptr) : Code ℤ :=
  lockGuard (.nLookupsMutex glb) <| do
    let g ← read
    let c ← expect (g.container glb)
    ret c.nLookups

def clrNLookups (glb : Ptr) : Code Unit :=
  lockGuard (.nLookupsMutex glb) <| modify fun g => g.update glb (·.clrNLookups)

def incNLookups (glb : Ptr) : Code Unit :=
  lockGuard (.nLookupsMutex glb) <| modify fun g => g.update glb (·.incNLookups)

/-- The loop of `getCounts` over its arguments; the map lock is taken anew for each. -/
def countArgs : List Str → ServerJsonBuilder → Bool → Code (ServerJsonBuilder × Bool)
  | [], jb, failed => ret (jb, failed)
  | fqdn :: rest, jb, failed => do
      let (jb, failed) ← sharedLock .glbMapMutex <| scope .getCounts <| do
        let g ← read
        match g.find fqdn with
        | none =>
            let jb := jb.setStatus "FAILED".toList
            ret (jb.addError ("fqdn ".toList ++ fqdn ++ " doesn't exist".toList), true)
        | some glb => do
            let n ← getNLookups glb
            ret (jb.addCount fqdn n, failed)
      countArgs rest jb failed

/-- The loop of `getCounts` over the whole map. -/
def countAll : List (Str × Ptr) → ServerJsonBuilder → Code ServerJsonBuilder
  | [], jb => ret jb
  | (fqdn, glb) :: rest, jb => do
      let n ← getNLookups glb
      countAll rest (jb.addCount fqdn n)

def getCounts (ord : MapOrder) (line : Str) : Code (List Str) :=
  let jb : ServerJsonBuilder := {}
  let jb := jb.setType "GET_COUNTS".toList
  let args := splitStr line " ".toList
  if 1 < args.length then do
    let (jb, failed) ← countArgs (args.drop 1) jb false
    let jb := if failed then jb.setStatus "FAILED".toList else jb.setStatus "PASSED".toList
    ret [jb.toJson]
  else do
    let jb ← sharedLock .glbMapMutex <| scope .getCounts <| do
      let g ← read
      countAll (ord.traverse g) jb
    let jb := jb.setStatus "PASSED".toList
    ret [jb.toJson]

/-- The loop of `clearCounts` over its arguments, under one map lock. -/
def clearArgs : List Str → ServerJsonBuilder → Bool → Code (ServerJsonBuilder × Bool)
  | [], jb, failed => ret (jb, failed)
  | fqdn :: rest, jb, failed => do
      let g ← read
      match g.find fqdn with
      | none =>
          clearArgs rest (jb.addError ("fqdn".toList ++ fqdn ++ " doesn't exist".toList)) true
      | some glb => do
          clrNLookups glb
          clearArgs rest jb failed

/-- The loop of `clearCounts` over the whole map. -/
def clearAll : List (Str × Ptr) → Code Unit
  | [] => ret ()
  | (_, glb) :: rest => do
      clrNLookups glb
      clearAll rest

def clearCounts (ord : MapOrder) (line : Str) : Code (List Str) :=
  let args := splitStr line " ".toList
  let jb : ServerJsonBuilder := {}
  let jb := jb.setType "CLR_COUNTS".toList
  if 1 < args.length then do
    let (jb, failed) ← sharedLock .glbMapMutex <| scope .clearCounts <|
      clearArgs (args.drop 1) jb false
    let jb := if failed then jb.setStatus "FAILED".toList else jb.setStatus "PASSED".toList
    ret [jb.toJson]
  else do
    sharedLock .glbMapMutex <| scope .clearCounts <| do
      let g ← read
      clearAll (ord.traverse g)
    let jb := jb.setStatus "PASSED".toList
    ret [jb.toJson]

/-! ### Debugging and unknown commands -/

/-- `(*glb).to_string(showFull)`, under the container's lock. -/
def containerToString (glb : Ptr) (showFull : Bool) : Code Str :=
  sharedLock (.glbMutex glb) <| do
    let g ← read
    let c ← expect (g.container glb)
    ret (c.toString showFull)

/-- One pass of `debugDomains` over the map. -/
def debugPass (showFull : Bool) : List (Str × Ptr) → Code (List Str)
  | [] => ret []
  | (key, glb) :: rest => do
      let val ← containerToString glb showFull
      let outLines ← debugPass showFull rest
      ret ((key ++ ":".toList ++ val) :: outLines)

/-- The outer loop of `debugDomains`. -/
def debugLoop (showFull : Bool) (entries : List (Str × Ptr)) : ℕ → Code (List Str)
  | 0 => ret []
  | n + 1 => do
      let first ← debugPass showFull entries
      let outLines ← debugLoop showFull entries n
      ret (first ++ outLines)

/-- The loop argument of a `DEBUG_DOMAINS` line, `1` if there is none. -/
def debugLoops (line : Str) : ℤ :=
  match (splitStr line " ".toList)[1]? with
  | some n => atoi n
  | none => 1

def debugDomains (ord : MapOrder) (line : Str) : Code (List Str) :=
  let args := splitStr line " ".toList
  let nLoops := debugLoops line
  let showFull := args[2]? == some "FULL".toList
  sharedLock .glbMapMutex <| scope .debugDomains <| do
    let g ← read
    debugLoop showFull (ord.traverse g) nLoops.toNat

def unknownCommand (line : Str) : Code (List Str) :=
  let jb : ServerJsonBuilder := {}
  let jb := jb.setType "UNKNOWN COMMAND".toList
  let jb := jb.setError line
  ret [jb.toJson]

/-! ### The connection -/

/-- The dispatch chain of `server`: one stored line, run. -/
def dispatch (ord : MapOrder) (line : Str) : Code (List Str) :=
  let inCmdArgs := splitStr line " ".toList
  if cmdMatch 1 inCmdArgs "DEBUG_DOMAINS".toList then debugDomains ord line
  else if cmdMatch 3 inCmdArgs "ADD_DOMAIN".toList then addDomain line
  else if cmdMatch 2 inCmdArgs "DEL_DOMAIN".toList then delDomain line
  else if cmdMatch 2 inCmdArgs "SNAPSHOT".toList then snapshotDomain line
  else if cmdMatch 1 inCmdArgs "COUNTS".toList then getCounts ord line
  else if cmdMatch 1 inCmdArgs "CLR_COUNTS".toList then clearCounts ord line
  else if cmdMatch 3 inCmdArgs "SET_SOA".toList then setSOA line
  else if cmdMatch 2 inCmdArgs "SET_NS".toList then setNS line
  else if cmdMatch 1 inCmdArgs "CLR_DOMAINS".toList then clearDomains line
  else unknownCommand line

/-- Is the first token of the line `OVER`? -/
def isOver (line : Str) : Bool :=
  let mainCmd := splitStr line " ".toList
  decide (0 < mainCmd.length) && mainCmd.head? == some "OVER".toList

/-- The loop over the stored lines; the result is `outLines`. -/
def processLines (ord : MapOrder) : List Str → Code (List Str)
  | [] => ret []
  | line :: inLines => do
      let out ← dispatch ord line
      let outLines ← processLines ord inLines
      ret (out ++ outLines)

/-- The loop of `server`, over the lines that `getline` delivers, with the lines stored so far; `rest` is what comes
behind the last newline.  The result is the vector `outLines` at each write, `OVER` included. -/
def serverLoop (ord : MapOrder) (rest : Str) : List Str → List Str → Code (List (List Str))
  | [], inLines =>
      -- the rest is delivered as well, but the stream is then at its end: the commands run and the write fails
      if isOver rest then do
        let _ ← processLines ord inLines
        ret []
      else ret []
  | line :: lines, inLines =>
      if isOver line then do
        let outLines ← processLines ord inLines
        let later ← serverLoop ord rest lines []
        ret ((outLines ++ ["OVER".toList]) :: later)
      else serverLoop ord rest lines (inLines ++ [line])

/-- The thread of one connection, from the bytes received on it. -/
def server (ord : MapOrder) (bytes : Str) : Code (List (List Str)) :=
  let (lines, rest) := cutLines bytes
  serverLoop ord rest lines []

/-- The text written at one write: `joinStr(outLines, "\n") << endl`. -/
def written (outLines : List Str) : Str := joinStr outLines ['\n'] ++ ['\n']

end GlbBackend
