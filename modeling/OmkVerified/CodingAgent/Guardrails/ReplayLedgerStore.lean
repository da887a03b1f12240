import OmkVerified.Lib.CanonicalJson
import OmkVerified.Lib.Interruptible
import OmkVerified.CodingAgent.Guardrails.ReplayLedger

/-!
# The store of the replay ledger

Embedding of `replay-ledger-store.ts`, `replay-ledger-quarantine.ts` and of `ReplayLedgerManager`,
as programs over the files of a ledger. Each system call is a step that may fail or be the last one
of its process; a write that does not go through may have written some of its bytes. What the
operating system chooses (the identity of a new file, the random part of a name) is an argument. The
lock is two steps around an operation; it admits one process at a time.
-/

namespace CodingAgent.Replay

open Lib Program

/-! ## Heads -/

/-- `ReplayLedgerFileIdentity`. -/
structure FileIdentity where
  dev : String
  ino : String

/-- `ReplayLedgerHead`. -/
structure Head where
  fileIdentity : Option FileIdentity
  size : Nat
  lastSeq : Nat
  lastHash : String

/-- `EMPTY_REPLAY_LEDGER_HEAD`. -/
def emptyReplayLedgerHead : Head := ⟨none, 0, 0, genesisHash⟩

/-- `sameIdentity(left, right)`. -/
def sameIdentity (left right : Option FileIdentity) : Bool :=
  match left, right with
  | none, right => right.isNone
  | some _, none => false
  | some left, some right => left.dev = right.dev && left.ino = right.ino

/-- `replayLedgerHeadsEqual(left, right)`. -/
def replayLedgerHeadsEqual (left right : Head) : Bool :=
  sameIdentity left.fileIdentity right.fileIdentity && left.size = right.size &&
    left.lastSeq = right.lastSeq && left.lastHash = right.lastHash

def FileIdentity.toJson (identity : FileIdentity) : Json :=
  .obj [("dev", .str identity.dev), ("ino", .str identity.ino)]

def Head.toJson (head : Head) : Json :=
  .obj [("fileIdentity", (head.fileIdentity.map FileIdentity.toJson).getD .null),
    ("size", .num (.ofNat head.size)), ("lastSeq", .num (.ofNat head.lastSeq)),
    ("lastHash", .str head.lastHash)]

/-- The text of a head file. -/
def headText (head : Head) : List UInt8 := Utf8.encode (Json.stringify head.toJson ++ ['\n'])

/-- `Object.keys(record).sort().join(",")`. -/
def sortedKeys (fields : List (String × Json)) : String :=
  ",".intercalate ((Json.sortFields fields).map Prod.fst)

/-- `/^\d+$/` -/
def isDigits (text : String) : Bool := !text.toList.isEmpty && text.toList.all Char.isDigit

/-- The field `fileIdentity` of a head. -/
def parseFileIdentity (value : Option Json) : Result (Option FileIdentity) :=
  match value with
  | some .null => .ok none
  | some (.obj fields) =>
    match fields.lookup "dev", fields.lookup "ino" with
    | some (.str dev), some (.str ino) =>
      if sortedKeys fields = "dev,ino" ∧ isDigits dev ∧ isDigits ino then .ok (some ⟨dev, ino⟩)
      else raise "replay file identity is invalid"
    | _, _ => raise "replay file identity is invalid"
  | _ => raise "replay file identity is invalid"

/-- A safe integer that is not negative. -/
def safeInteger? (value : Option Json) : Option Nat :=
  (number? value).bind fun n => n.toNat?.filter fun k => k ≤ maxSafeInteger

/-- `parseHead(value)`. -/
def parseHead (value : Json) : Result Head :=
  match value with
  | .obj fields =>
    if sortedKeys fields = "fileIdentity,lastHash,lastSeq,size" then do
      let fileIdentity ← parseFileIdentity (fields.lookup "fileIdentity")
      match safeInteger? (fields.lookup "size"), safeInteger? (fields.lookup "lastSeq"),
        text? (fields.lookup "lastHash") with
      | some size, some lastSeq, some lastHash =>
        if (if lastSeq = 0 then lastHash = genesisHash else isSha256 lastHash = true) then
          .ok ⟨fileIdentity, size, lastSeq, lastHash⟩
        else raise "replay committed head fields are invalid"
      | _, _, _ => raise "replay committed head fields are invalid"
    else raise "replay committed head has an invalid key set"
  | _ => raise "replay committed head is invalid"

/-- `parseHead(JSON.parse(text))`. -/
def parseHeadText (bytes : List UInt8) : Result Head :=
  match Json.parse (Utf8.decode bytes) with
  | some value => parseHead value
  | none => raise "SyntaxError"

/-! ## Files -/

/-- The file of a ledger. -/
structure LedgerFile where
  dev : Nat
  ino : Nat
  bytes : List UInt8

/-- `identity(stat)`. -/
def LedgerFile.identity (file : LedgerFile) : FileIdentity := ⟨toString file.dev, toString file.ino⟩

/-- The files of a ledger: itself, its committed head, the files that become heads, and the suffixes
in quarantine. -/
structure LedgerDisk where
  ledger : Option LedgerFile
  head : Option (List UInt8)
  temps : String → Option (List UInt8)
  quarantined : String → Option (List UInt8)

/-- What the operating system chooses during an operation. -/
structure Environment where
  dev : Nat
  ino : Nat
  quarantineName : String
  genesisName : String
  headName : String
  timestamp : String

abbrev StoreProgram := Program LedgerDisk SessionError

def failed : SessionError := .thrown "EIO"

/-- A system call on the ledger, which has to exist. -/
def onLedger {α : Type} (f : LedgerFile → α × LedgerFile) (disk : LedgerDisk) :
    Except SessionError (α × LedgerDisk) :=
  match disk.ledger with
  | some file => .ok ((f file).1, { disk with ledger := some (f file).2 })
  | none => .error (.thrown "ENOENT")

/-- A call that flushes, closes or locks a file. -/
def flush : StoreProgram Unit := idle failed

/-- `fstatSync(fd)`: the identity and the size. -/
def fstat : StoreProgram (FileIdentity × Nat) :=
  atomic failed (onLedger fun file => ((file.identity, file.bytes.length), file))

/-- `openSync(path, ...)` without `O_CREAT`. -/
def openLedger : StoreProgram Unit := atomic failed (onLedger fun file => ((), file))

/-- `readFileSync(fd)`. -/
def readLedger : StoreProgram (List UInt8) := atomic failed (onLedger fun file => (file.bytes, file))

/-- `ftruncateSync(fd, size)`. -/
def truncateLedger (size : Nat) : StoreProgram Unit :=
  atomic failed (onLedger fun file => ((), { file with bytes := file.bytes.take size }))

/-- `unlinkSync(path)`. -/
def unlinkLedger : StoreProgram Unit :=
  atomic failed fun disk => (onLedger (fun file => ((), file)) disk).map fun (_, disk) =>
    ((), { disk with ledger := none })

/-- `openSync(path, O_CREAT | O_EXCL | O_WRONLY)`. -/
def createLedger (env : Environment) : StoreProgram Unit :=
  atomic failed fun disk =>
    match disk.ledger with
    | some _ => .error (.thrown "EEXIST")
    | none => .ok ((), { disk with ledger := some ⟨env.dev, env.ino, []⟩ })

/-- `openSync(path, O_CREAT | O_APPEND | O_WRONLY)`. -/
def openLedgerForAppend (env : Environment) : StoreProgram Unit :=
  atomic failed fun disk =>
    .ok ((), { disk with ledger := some (disk.ledger.getD ⟨env.dev, env.ino, []⟩) })

/-- `writeAll(fd, line)` at the end of the ledger. The sizes of files are safe integers. -/
def writeLedger (line : List UInt8) : StoreProgram Unit :=
  step failed
    (fun disk =>
      match disk.ledger with
      | some file =>
        if file.bytes.length + line.length ≤ maxSafeInteger then
          .ok ((), { disk with ledger := some { file with bytes := file.bytes ++ line } })
        else .error (.thrown "EFBIG")
      | none => .error (.thrown "EBADF"))
    (fun progress disk =>
      { disk with ledger := disk.ledger.map fun file =>
          { file with bytes := file.bytes ++ line.take progress } })

/-- `readFileSync(headPath)`. -/
def readHead : StoreProgram (List UInt8) :=
  atomic failed fun disk =>
    match disk.head with
    | some text => .ok (text, disk)
    | none => .error (.thrown "ENOENT")

/-- A new file with some bytes. -/
def createFile (files : String → Option (List UInt8)) (name : String) :
    Except SessionError (String → Option (List UInt8)) :=
  match files name with
  | some _ => .error (.thrown "EEXIST")
  | none => .ok (Function.update files name (some []))

/-- The bytes of a new file are written. -/
def writeFile (files : String → Option (List UInt8)) (name : String) (bytes : List UInt8) :
    String → Option (List UInt8) :=
  Function.update files name (some bytes)

def createTemp (name : String) : StoreProgram Unit :=
  atomic failed fun disk => (createFile disk.temps name).map fun temps =>
    ((), { disk with temps := temps })

def writeTemp (name : String) (bytes : List UInt8) : StoreProgram Unit :=
  step failed (fun disk => .ok ((), { disk with temps := writeFile disk.temps name bytes }))
    fun progress disk => { disk with temps := writeFile disk.temps name (bytes.take progress) }

def removeTemp (name : String) : StoreProgram Unit :=
  atomic failed fun disk => .ok ((), { disk with temps := Function.update disk.temps name none })

/-- `renameSync(temp, headPath)`. -/
def renameTemp (name : String) : StoreProgram Unit :=
  atomic failed fun disk =>
    match disk.temps name with
    | some text =>
      .ok ((), { disk with head := some text, temps := Function.update disk.temps name none })
    | none => .error (.thrown "ENOENT")

def createQuarantine (name : String) : StoreProgram Unit :=
  atomic failed fun disk => (createFile disk.quarantined name).map fun files =>
    ((), { disk with quarantined := files })

def writeQuarantine (name : String) (bytes : List UInt8) : StoreProgram Unit :=
  step failed (fun disk => .ok ((), { disk with quarantined := writeFile disk.quarantined name bytes }))
    fun progress disk =>
      { disk with quarantined := writeFile disk.quarantined name (bytes.take progress) }

/-! ## The store -/

/-- `StoreSnapshot`. -/
structure StoreSnapshot where
  bytes : List UInt8
  head : Head

/-- The number and the hash of the last event of a ledger. -/
abbrev Inspect := List UInt8 → Result (Nat × String)

/-- `quarantineReplayLedgerSuffix(ledgerPath, suffix)`. -/
def quarantineReplayLedgerSuffix (name : String) (suffix : List UInt8) : StoreProgram Unit := do
  createQuarantine name
  tryFinally (do
    writeQuarantine name suffix
    flush) flush
  flush

/-- What `readVerified` does with the open ledger of a head. -/
def verifyLedger (inspect : Inspect) (env : Environment) (head : Head) :
    StoreProgram StoreSnapshot := do
  let before ← fstat
  let bytes ← readLedger
  let after ← fstat
  Program.require
    (sameIdentity (some before.1) (some after.1) && before.2 = after.2 && after.2 = bytes.length &&
      sameIdentity head.fileIdentity (some after.1) && head.size ≤ after.2)
    (.thrown "replay ledger tampered: file identity or size does not match its committed head")
  let committedBytes := if head.size = after.2 then bytes else bytes.take head.size
  let inspected ← ofExcept (inspect committedBytes)
  Program.require (inspected.1 = head.lastSeq && inspected.2 = head.lastHash)
    (.thrown "replay ledger suffix does not match its committed head")
  if head.size < after.2 then do
    quarantineReplayLedgerSuffix env.quarantineName (bytes.drop head.size)
    truncateLedger head.size
    flush
    flush
    return ⟨committedBytes, head⟩
  else return ⟨committedBytes, head⟩

/-- `readVerified()`. -/
def readVerified (inspect : Inspect) (env : Environment) : StoreProgram StoreSnapshot := do
  let ledgerExists ← look fun disk => disk.ledger.isSome
  let headExists ← look fun disk => disk.head.isSome
  if !ledgerExists && !headExists then return ⟨[], emptyReplayLedgerHead⟩
  else if !headExists then do
    openLedger
    tryFinally (do
      let stat ← fstat
      Program.require (stat.2 = 0)
        (.thrown "replay ledger or committed head suffix is missing")) flush
    unlinkLedger
    flush
    return ⟨[], emptyReplayLedgerHead⟩
  else if !ledgerExists then
    Program.throw (.thrown "replay ledger or committed head suffix is missing")
  else do
    let text ← readHead
    let head ← ofExcept (parseHeadText text)
    openLedger
    tryFinally (verifyLedger inspect env head) flush

/-- `publishHead(head)`. -/
def publishHead (temp : String) (head : Head) : StoreProgram Unit := do
  createTemp temp
  tryFinally (do
    writeTemp temp (headText head)
    flush) flush
  tryCatch (do
    renameTemp temp
    flush) fun error => do
      let found ← look fun disk => (disk.temps temp).isSome
      if found then do
        removeTemp temp
        Program.throw error
      else Program.throw error

/-- `initializeGenesis()`. -/
def initializeGenesis (env : Environment) : StoreProgram Head := do
  createLedger env
  tryFinally (do
    flush
    let stat ← fstat
    let head := { emptyReplayLedgerHead with fileIdentity := some stat.1 }
    publishHead env.genesisName head
    return head) flush

/-- `withLock(operation)`. -/
def withLock {α : Type} (operation : StoreProgram α) : StoreProgram α := do
  flush
  tryFinally operation flush

/-- `load(expectedHead)`. -/
def loadStore (inspect : Inspect) (env : Environment) (expectedHead : Option Head) :
    StoreProgram StoreSnapshot :=
  withLock do
    let snapshot ← readVerified inspect env
    Program.require (expectedHead.all fun expected => replayLedgerHeadsEqual snapshot.head expected)
      (.thrown "replay ledger expected-head CAS verification failed")
    return snapshot

/-- What `append` does with the ledger that is open for appending. -/
def writeEvent (env : Environment) (line : List UInt8) (nextSeq : Nat) (nextHash : String)
    (appendHead : Head) : StoreProgram Head := do
  let before ← fstat
  Program.require (before.2 = appendHead.size && sameIdentity appendHead.fileIdentity (some before.1))
    (.thrown "replay ledger file identity or size changed before CAS append")
  writeLedger line
  flush
  let after ← fstat
  Program.require (sameIdentity (some before.1) (some after.1) &&
      after.2 = appendHead.size + line.length)
    (.thrown "replay ledger file changed during CAS append")
  let head : Head := ⟨some after.1, after.2, nextSeq, nextHash⟩
  publishHead env.headName head
  return head

/-- `append(line, nextSeq, nextHash, expectedHead)`. -/
def appendStore (inspect : Inspect) (env : Environment) (line : List UInt8) (nextSeq : Nat)
    (nextHash : String) (expectedHead : Head) : StoreProgram Head :=
  withLock do
    let snapshot ← readVerified inspect env
    Program.require (replayLedgerHeadsEqual snapshot.head expectedHead)
      (.thrown "replay ledger concurrent append failed expected-head CAS")
    let appendHead ←
      if snapshot.head.fileIdentity.isNone then initializeGenesis env else pure snapshot.head
    openLedgerForAppend env
    tryFinally (writeEvent env line nextSeq nextHash appendHead) flush

/-! ## Managers -/

/-- `ReplayLedgerManager`. -/
structure Manager where
  goalId : String
  events : List ReplayEvent
  committedHead : Head

/-- The callback that the constructor passes to the store. -/
def inspectLedger (sha256 : Digest) (goalId : String) : Inspect := fun bytes => do
  let events ← parseReplayLedgerBytes sha256 bytes goalId
  return (lastSeq events, lastHash events)

/-- `refresh(expectedHead)` of a manager of the goal. -/
def refresh (sha256 : Digest) (env : Environment) (goalId : String) (expectedHead : Option Head) :
    StoreProgram Manager := do
  let snapshot ← loadStore (inspectLedger sha256 goalId) env expectedHead
  let events ← ofExcept (parseReplayLedgerBytes sha256 snapshot.bytes goalId)
  return ⟨goalId, events, snapshot.head⟩

/-- `append(event, expectedHead)`, with the manager after it. -/
def Manager.append (sha256 : Digest) (env : Environment) (manager : Manager) (input : AppendInput)
    (expectedHead : Head) : StoreProgram (ReplayEvent × Manager) := do
  Program.require (input.goalId = manager.goalId)
    (.thrown "Replay event goalId does not match the ledger")
  Program.require (replayLedgerHeadsEqual expectedHead manager.committedHead)
    (.thrown "Replay manager expected-head CAS is stale")
  let event := chainEvent sha256 input env.timestamp expectedHead.lastSeq expectedHead.lastHash
  let head ← appendStore (inspectLedger sha256 manager.goalId) env (eventLine event)
    (expectedHead.lastSeq + 1) event.eventHash expectedHead
  return (event, { manager with events := manager.events ++ [event], committedHead := head })

/-! ## Runs -/

/-- A call on a manager, with what the environment does during it. The constructor takes the goal;
the others take their default head from the manager. -/
inductive Call (ι : Type)
  | new (i : ι) (goalId : String) (expectedHead : Option Head)
  | load (i : ι) (expectedHead : Option Head)
  | append (i : ι) (input : AppendInput) (expectedHead : Option Head)
  | exit (i : ι)

/-- The files, the managers of all processes, and the events that calls of `append` have returned. -/
structure World (ι : Type) where
  disk : LedgerDisk
  managers : ι → Option Manager
  returned : List ReplayEvent

variable {ι : Type} [DecidableEq ι]

/-- Manager `i` is this one. -/
def World.keep (i : ι) (manager : Manager) (world : World ι) : World ι :=
  { world with managers := Function.update world.managers i (some manager) }

/-- Manager `i` has appended the event. -/
def World.append (i : ι) (result : ReplayEvent × Manager) (world : World ι) : World ι :=
  { world with
    managers := Function.update world.managers i (some result.2)
    returned := world.returned ++ [result.1] }

/-- The world after a call of manager `i`, when `f` says what follows from its result. -/
def World.after {α : Type} (world : World ι) (i : ι)
    (f : α → World ι → World ι) : Outcome SessionError α × LedgerDisk × List Fate → World ι
  | (.returned value, disk, _) => f value { world with disk := disk }
  | (.thrown _, disk, _) => { world with disk := disk }
  | (.ended, disk, _) =>
    { world with disk := disk, managers := Function.update world.managers i none }

/-- One call, whose steps have the given fates. -/
def World.step (sha256 : Digest) (world : World ι) (call : Call ι) (env : Environment)
    (fates : List Fate) : World ι :=
  match call with
  | .new i goalId expectedHead =>
    world.after i (World.keep i) (refresh sha256 env goalId expectedHead fates world.disk)
  | .load i expectedHead =>
    match world.managers i with
    | some manager =>
      world.after i (World.keep i) (refresh sha256 env manager.goalId
        (some (expectedHead.getD manager.committedHead)) fates world.disk)
    | none => world
  | .append i input expectedHead =>
    match world.managers i with
    | some manager =>
      world.after i (World.append i)
        (manager.append sha256 env input (expectedHead.getD manager.committedHead) fates world.disk)
    | none => world
  | .exit i => { world with managers := Function.update world.managers i none }

/-- The world after a sequence of calls. -/
def World.run (sha256 : Digest) (world : World ι) :
    List (Call ι × Environment × List Fate) → World ι
  | [] => world
  | (call, env, fates) :: calls => (world.step sha256 call env fates).run sha256 calls

/-- No file of the ledger exists and no manager. -/
def World.start : World ι :=
  { disk := ⟨none, none, fun _ => none, fun _ => none⟩, managers := fun _ => none, returned := [] }

end CodingAgent.Replay
