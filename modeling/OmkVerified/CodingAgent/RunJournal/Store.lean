import OmkVerified.CodingAgent.RunJournal.Inspect
import OmkVerified.CodingAgent.Session.Manager

/-!
# The store of the run journal

Embedding of `run-journal-store.ts`: the journal file, the durable head by which a store recognises
that nobody else wrote it, the replay of the accepted records through the writer, and `open`, which
moves a torn line into quarantine and closes a run that was left open.

The locks and the owner lease serialise the stores of a session; they are not modelled, and neither
are the seams for tests. A write takes effect as a whole. Appending to a file keeps its identity and
gives it the change time that the environment names.
-/

namespace CodingAgent.Journal

open Lib

/-! ## Replay -/

/-- The method call that appends `record` again. -/
def replayOperation (record : RunJournalRecord) : JournalOperation :=
  let sessionRevision := Decimal.ofNat record.sessionRevision
  match record.event with
  | .runStarted => .start ⟨record.runId, sessionRevision, record.timestamp⟩
  | .audit event details => .audit ⟨event, details, sessionRevision, record.timestamp⟩
  | .terminal .runFinished termination => .finish ⟨termination, sessionRevision, record.timestamp⟩
  | .terminal .runAbandoned termination => .abandon ⟨termination, sessionRevision, record.timestamp⟩
  | .terminal .runRecovered termination => .recover ⟨termination, sessionRevision, record.timestamp⟩

/-- The loop of `replayRecords`. -/
def replayFrom (hashFn : HashFn) : (journal : RunJournal) → List RunJournalRecord → Result RunJournal
  | journal, [] => .ok journal
  | journal, record :: records => do
    let (replayed, journal) ← (replayOperation record).run hashFn journal
    require (serializeRunJournalLine replayed = serializeRunJournalLine record)
      "run journal replay did not reproduce the accepted chain"
    replayFrom hashFn journal records

/-- `replayRecords(records, sessionId, hashFn)`. -/
def replayRecords (hashFn : HashFn) (records : List RunJournalRecord) (sessionId : String) :
    Result RunJournal := do
  let journal ← RunJournal.new hashFn
    { sessionId := sessionId, runId := "replay", sessionRevision := .zero
      timestamp := "1970-01-01T00:00:00.000Z", openInitialRun := some false }
  replayFrom hashFn journal records

/-! ## The durable head -/

/-- `RunJournalDurableHead`. -/
structure JournalHead where
  size : Nat
  lastSeq : Nat
  lastHash : Option String
  generation : Option Generation
deriving DecidableEq

/-- The head of a journal without a file. -/
def JournalHead.absent : JournalHead := ⟨0, 0, none, none⟩

/-- The head of a file with these records. -/
def JournalHead.ofRecords (records : List RunJournalRecord) (file : DiskFile) : JournalHead where
  size := file.bytes.length
  lastSeq := (records.getLast?.map fun r => r.seq).getD 0
  lastHash := records.getLast?.map fun r => r.hash
  generation := some file.generation

/-- Throws when there are findings to stop at. -/
def rejectFindings (findings : List Finding) : Result Unit :=
  require findings.isEmpty
    ("run journal is corrupt: " ++ ", ".intercalate (findings.map fun f => f.code.text))

/-- `readDurableHead(path, hashFn)`. -/
def readDurableHead (hashFn : HashFn) (disk : Disk) (path : String) : Result JournalHead :=
  match disk.get? path with
  | none => .ok .absent
  | some file => do
    let report ← inspectRunJournal file.bytes hashFn
    rejectFindings (report.findings.filter fun f => f.code ≠ .runUnclosed)
    return .ofRecords report.records file

/-! ## The store -/

/-- `RunJournalQuarantineReport`. -/
structure QuarantineReport where
  path : String
  byteCount : Nat
  completePrefixByteCount : Nat

/-- The state of a `RunJournalStore`, without its hash function and clock. -/
structure RunJournalStore where
  journalPath : Option String
  sessionId : String
  acceptedRecords : List RunJournalRecord
  acceptedOpenRunId : Option String
  acceptedDurableHead : JournalHead
  quarantineReport : Option QuarantineReport

/-- What appending to the file takes from the file system: its change time, and the generation of a
file that is created. -/
structure AppendEnvironment where
  ctimeNs : Int
  created : Generation

/-- The generation of the file after an append. -/
def AppendEnvironment.generation (env : AppendEnvironment) (disk : Disk) (path : String) :
    Generation :=
  match disk.get? path with
  | some file => { file.generation with ctimeNs := env.ctimeNs }
  | none => env.created

/-- The head that the store expects after its record was appended. -/
def expectedHead (accepted next : JournalHead) (record : RunJournalRecord) (lineLength : Nat) :
    JournalHead where
  size := accepted.size + lineLength
  lastSeq := record.seq
  lastHash := some record.hash
  generation := next.generation.map fun g =>
    { accepted.generation.getD g with ctimeNs := g.ctimeNs }

/-- The part of `commit` that writes the record to the file: the disk and the next head. -/
def persistJournalRecord (hashFn : HashFn) (env : AppendEnvironment) (path : String)
    (accepted : JournalHead) (record : RunJournalRecord) (disk : Disk) : Disk × Result JournalHead :=
  let line := Utf8.encode (serializeRunJournalLine record ++ ['\n'])
  let disk := appendFile disk path line (env.generation disk path)
  (disk, do
    let next ← readDurableHead hashFn disk path
    require (next = expectedHead accepted next record line.length)
      "persisted run journal head does not match appended record"
    return next)

/-- The store after the journal was accepted. -/
def RunJournalStore.accept (store : RunJournalStore) (journal : RunJournal) (head : JournalHead) :
    RunJournalStore :=
  { store with
    acceptedRecords := journal.records
    acceptedOpenRunId := journal.openRun
    acceptedDurableHead := head }

/-- `RunJournalStoreStaleWriteError`. -/
def staleJournal : String := "Run journal changed since this store accepted its durable head"

/-- The comparison of the file with the accepted head. -/
def RunJournalStore.assertFresh (hashFn : HashFn) (store : RunJournalStore) (disk : Disk) :
    Result Unit :=
  match store.journalPath with
  | none => .ok ()
  | some path => do
    let current ← readDurableHead hashFn disk path
    require (current = store.acceptedDurableHead) staleJournal

/-- `commit(append)`, which is each of the methods `start`, `finish`, `abandon`, `recover` and
`audit` of the store. -/
def RunJournalStore.commit (hashFn : HashFn) (env : AppendEnvironment) (op : JournalOperation)
    (store : RunJournalStore) (disk : Disk) : Disk × RunJournalStore × Result RunJournalRecord :=
  let appended := do
    store.assertFresh hashFn disk
    let candidate ← replayRecords hashFn store.acceptedRecords store.sessionId
    op.run hashFn candidate
  match appended with
  | .error e => (disk, store, .error e)
  | .ok (record, candidate) =>
    match store.journalPath with
    | none => (disk, store.accept candidate store.acceptedDurableHead, .ok record)
    | some path =>
      match persistJournalRecord hashFn env path store.acceptedDurableHead record disk with
      | (disk, .error e) => (disk, store, .error e)
      | (disk, .ok head) => (disk, store.accept candidate head, .ok record)

/-! ## Opening -/

/-- What `open` takes from its environment: `now()`, a UUID, and what the file system gives to the
files it writes. -/
structure StoreEnvironment where
  now : String
  quarantineId : Uuid
  quarantineGeneration : Generation
  trimmedGeneration : Generation
  recovery : AppendEnvironment

/-- The inspection of the file and the checks that `open` makes on the report. -/
def acceptJournal (hashFn : HashFn) (sessionId : String) (bytes : List UInt8) : Result Report := do
  let report ← inspectRunJournal bytes hashFn
  rejectFindings (report.findings.filter fun f =>
    f.code ≠ .trailingFragment && f.code ≠ .runUnclosed)
  require (report.records.all fun r => r.sessionId = sessionId)
    "run journal session identity does not match"
  return report

/-- The path of the quarantined bytes. -/
def journalQuarantinePath (path : String) (env : StoreEnvironment) : String :=
  path ++ ".quarantine-" ++ env.quarantineId.text

/-- Moves the bytes after the complete prefix into a file of their own. -/
def quarantineFragment (env : StoreEnvironment) (path : String) (file : DiskFile) (report : Report)
    (disk : Disk) : Disk × Result (Option QuarantineReport) :=
  if 0 < report.trailingByteCount then
    let quarantinePath := journalQuarantinePath path env
    if disk.has quarantinePath then
      (disk, raise ("EEXIST: file already exists, open '" ++ quarantinePath ++ "'"))
    else
      let fragment := file.bytes.drop report.byteCount
      let disk := disk.set quarantinePath ⟨fragment, env.quarantineGeneration⟩
      let disk := disk.set path ⟨file.bytes.take report.byteCount, env.trimmedGeneration⟩
      (disk, .ok (some ⟨quarantinePath, fragment.length, report.byteCount⟩))
  else (disk, .ok none)

/-- The termination of a run that its process left open. -/
def recoveryInput (sessionId runId now : String) : ClassifyInput where
  sessionId := sessionId
  runId := runId
  timestamp := now
  source := "inferred_on_resume"
  message := "Previous process exited without closing the run; recovered on startup."
  cause := { area := "process", code := some "crash" }
  sideEffects := "possible"

/-- The recovery of the run that is open after the accepted records. -/
def recoverOpenRun (hashFn : HashFn) (env : StoreEnvironment) (store : RunJournalStore)
    (runId : String) (disk : Disk) : Disk × Result RunJournalStore :=
  let sessionRevision := (store.acceptedRecords.getLast?.map fun r => r.sessionRevision).getD 0
  match classifySessionTermination (recoveryInput store.sessionId runId env.now) with
  | .error e => (disk, .error e)
  | .ok termination =>
    match store.commit hashFn env.recovery
      (.recover ⟨termination, .ofNat sessionRevision, env.now⟩) disk with
    | (disk, _, .error e) => (disk, .error e)
    | (disk, store, .ok _) => (disk, .ok store)

/-- The end of `open`: the store over the accepted records. -/
def openAccepted (hashFn : HashFn) (env : StoreEnvironment) (path sessionId : String)
    (records : List RunJournalRecord) (openRunId : Option String)
    (quarantineReport : Option QuarantineReport) (disk : Disk) : Disk × Result RunJournalStore :=
  match readDurableHead hashFn disk path with
  | .error e => (disk, .error e)
  | .ok head =>
    let store : RunJournalStore := ⟨some path, sessionId, records, openRunId, head, quarantineReport⟩
    match openRunId with
    | some runId => recoverOpenRun hashFn env store runId disk
    | none => (disk, .ok store)

/-- `RunJournalStore.open(options)` with a path. -/
def RunJournalStore.open (hashFn : HashFn) (env : StoreEnvironment) (path sessionId : String)
    (disk : Disk) : Disk × Result RunJournalStore :=
  match disk.get? path with
  | none => openAccepted hashFn env path sessionId [] none none disk
  | some file =>
    match acceptJournal hashFn sessionId file.bytes with
    | .error e => (disk, .error e)
    | .ok report =>
      match quarantineFragment env path file report disk with
      | (disk, .error e) => (disk, .error e)
      | (disk, .ok quarantineReport) =>
        openAccepted hashFn env path sessionId report.records report.openRunId quarantineReport disk

/-! ## Runs -/

/-- The disks and stores that come about when a store is opened where no file is, commits, and is
opened again, also after a crash that left only some bytes of the file. Other files may change at
any time. -/
inductive StoreRun (hashFn : HashFn) (path sessionId : String) : Disk → RunJournalStore → Prop
  | opened {disk disk' : Disk} {store : RunJournalStore} {env : StoreEnvironment}
      (hnew : disk.get? path = none)
      (h : RunJournalStore.open hashFn env path sessionId disk = (disk', .ok store)) :
      StoreRun hashFn path sessionId disk' store
  | committed {disk : Disk} {store : RunJournalStore} (env : AppendEnvironment)
      (op : JournalOperation) (h : StoreRun hashFn path sessionId disk store) (hop : op.WellFormed) :
      StoreRun hashFn path sessionId (store.commit hashFn env op disk).1
        (store.commit hashFn env op disk).2.1
  | reopened {disk disk' : Disk} {store store' : RunJournalStore} {file : DiskFile}
      {env : StoreEnvironment} (count : Nat) (generation : Generation)
      (h : StoreRun hashFn path sessionId disk store) (hfile : disk.get? path = some file)
      (hopen : RunJournalStore.open hashFn env path sessionId
        (disk.set path ⟨file.bytes.take count, generation⟩) = (disk', .ok store')) :
      StoreRun hashFn path sessionId disk' store'
  | elsewhere {disk disk' : Disk} {store : RunJournalStore}
      (h : StoreRun hashFn path sessionId disk store) (hsame : disk'.get? path = disk.get? path) :
      StoreRun hashFn path sessionId disk' store

end CodingAgent.Journal
