import OmkVerified.Lib.CanonicalJson
import OmkVerified.CodingAgent.RunJournal.Termination

/-!
# The writer of the run journal

Embedding of the records and of the class `RunJournal` of `run-journal.ts`. A method takes the state
of the journal and returns its record and the next state, or it throws and the state stays.

The hash function is injected by the caller; `none` is a call that throws. An array holds fewer than
`2 ^ 32` items, so that a journal with that many records takes no more.
-/

namespace CodingAgent.Journal

open Lib

/-! ## Records -/

/-- The events that close a run. -/
inductive TerminalEvent
  | runFinished | runRecovered | runAbandoned
deriving DecidableEq

/-- `RunJournalAuditEvent`. -/
inductive AuditEvent
  | toolTimeout | toolLateSettlement | transcriptRepaired
deriving DecidableEq

/-- `RunJournalEvent`. -/
inductive EventKind
  | runStarted
  | terminal (event : TerminalEvent)
  | audit (event : AuditEvent)

/-- The event as it is written. -/
def EventKind.text : EventKind → String
  | runStarted => "run_started"
  | terminal .runFinished => "run_finished"
  | terminal .runRecovered => "run_recovered"
  | terminal .runAbandoned => "run_abandoned"
  | audit .toolTimeout => "tool_timeout"
  | audit .toolLateSettlement => "tool_late_settlement"
  | audit .transcriptRepaired => "transcript_repaired"

/-- `RUN_JOURNAL_EVENTS`. -/
def runJournalEvents : List EventKind :=
  [.runStarted, .terminal .runFinished, .terminal .runRecovered, .terminal .runAbandoned,
    .audit .toolTimeout, .audit .toolLateSettlement, .audit .transcriptRepaired]

/-- The event that is written as `text`. -/
def EventKind.ofText? (text : String) : Option EventKind :=
  runJournalEvents.find? fun event => event.text = text

/-- The event of a record with what it carries. -/
inductive Event
  | runStarted
  | terminal (event : TerminalEvent) (termination : Json)
  | audit (event : AuditEvent) (details : Json)

def Event.kind : Event → EventKind
  | runStarted => .runStarted
  | terminal event _ => .terminal event
  | audit event _ => .audit event

/-- The field that the event adds to the record. -/
def Event.fields : Event → List (String × Json)
  | runStarted => []
  | terminal _ termination => [("termination", termination)]
  | audit _ details => [("details", details)]

/-- A record without its hash. -/
structure RecordBase where
  seq : Nat
  event : Event
  runId : String
  sessionId : String
  sessionRevision : Nat
  timestamp : String
  prevHash : String

/-- `RunJournalRecord`. -/
structure RunJournalRecord extends RecordBase where
  hash : String

/-- The fields of the object literal of a record. -/
def RecordBase.fields (r : RecordBase) : List (String × Json) :=
  [("schemaVersion", number 1), ("seq", number r.seq), ("event", .str r.event.kind.text),
    ("runId", .str r.runId), ("sessionId", .str r.sessionId),
    ("sessionRevision", number r.sessionRevision), ("timestamp", .str r.timestamp),
    ("prevHash", .str r.prevHash)] ++ r.event.fields

def RecordBase.toJson (r : RecordBase) : Json := .obj r.fields

def RunJournalRecord.toJson (r : RunJournalRecord) : Json :=
  .obj (r.toRecordBase.fields ++ [("hash", .str r.hash)])

/-- `stripHashKey(record)`. -/
def stripHashKey : Json → Json
  | .obj fields => .obj (fields.filter fun f => f.1 ≠ "hash")
  | _ => .obj []

/-- `serializeRunJournalMaterial(record)`. -/
def serializeRunJournalMaterial (record : RecordBase) : List Char :=
  Json.canonicalJson (stripHashKey record.toJson)

/-- `serializeRunJournalLine(record)`. -/
def serializeRunJournalLine (record : RunJournalRecord) : List Char :=
  Json.canonicalJson record.toJson

/-! ## Checks -/

/-- `GENESIS_HASH`. -/
def genesisHash : String := String.ofList (List.replicate 64 '0')

/-- `AUDIT_DETAIL_KEYS`. -/
def auditDetailKeys : List String :=
  ["toolCallId", "toolName", "disposition", "outcome", "timeoutMs", "executionStarted",
    "insertedToolCallIds", "reason", "sessionRisk"]

/-- `AUDIT_DISPOSITIONS`. -/
def auditDispositions : List String :=
  ["completed", "failed", "blocked", "aborted", "timeout", "skipped"]

/-- `AUDIT_OUTCOMES`. -/
def auditOutcomes : List String := ["resolved", "rejected"]

/-- The loop over `details.insertedToolCallIds`. -/
def assertInsertedIds : List Json → Result Unit
  | [] => .ok ()
  | id :: ids => do
    assertOpenIdentifier (some id) "details.insertedToolCallIds[]" 512
    assertInsertedIds ids

/-- The check of `details.insertedToolCallIds`. -/
def assertInsertedToolCallIds : Json → Result Unit
  | .arr ids =>
    if ids.length ≤ 64 then assertInsertedIds ids
    else raise "details.insertedToolCallIds must be a bounded array"
  | _ => raise "details.insertedToolCallIds must be a bounded array"

/-- The check of `details.sessionRisk`. -/
def assertSessionRisk (value : Json) : Result Unit :=
  require (value = .str "elevated") "details.sessionRisk is out of bounds"

/-- The checks of `assertBoundedAuditDetails` on the fields that `get` reads. -/
def assertAuditFields (get : String → Option Json) : Result Unit := do
  ifPresent (get "toolCallId") fun value =>
    assertOpenIdentifier (some value) "details.toolCallId" 512
  ifPresent (get "toolName") fun value => assertOpenIdentifier (some value) "details.toolName" 128
  ifPresent (get "disposition") fun value =>
    (assertOneOf (some value) auditDispositions "details.disposition is out of bounds").map fun _ => ()
  ifPresent (get "outcome") fun value =>
    (assertOneOf (some value) auditOutcomes "details.outcome is out of bounds").map fun _ => ()
  ifPresent (get "timeoutMs") fun value =>
    (assertSafeInteger (some value) "details.timeoutMs").map fun _ => ()
  ifPresent (get "executionStarted") fun value =>
    (assertBool (some value) "details.executionStarted must be a boolean").map fun _ => ()
  ifPresent (get "insertedToolCallIds") assertInsertedToolCallIds
  ifPresent (get "reason") fun value => assertOpenIdentifier (some value) "details.reason" 512
  ifPresent (get "sessionRisk") assertSessionRisk

/-- `assertBoundedAuditDetails(value)`. -/
def assertBoundedAuditDetails (value : Option Json) : Result Unit := do
  assertPlainDataRecord value "audit details" auditDetailKeys
  assertAuditFields fun key => value.bind fun v => v.get? key

/-- `isTerminalCoherentWithEvent(event, termination)`. -/
def isTerminalCoherentWithEvent (event : TerminalEvent) (termination : Json) : Bool :=
  let source := termination.get? "source"
  let kind := termination.get? "kind"
  match event with
  | .runRecovered =>
    source = some (.str "inferred_on_resume") && kind = some (.str "process_crash") &&
      termination.get? "phase" = some (.str "resume")
  | _ => source = some (.str "observed") && kind ≠ some (.str "process_crash")

/-- `assertTerminalCoherentWithEvent(event, termination)`. -/
def assertTerminalCoherentWithEvent (event : TerminalEvent) (termination : Json) : Result Unit :=
  if isTerminalCoherentWithEvent event termination then .ok ()
  else
    match event with
    | .runRecovered =>
      raise ("run_recovered requires a coherent process_crash termination " ++
        "(source inferred_on_resume, phase resume)")
    | _ =>
      if termination.get? "kind" = some (.str "process_crash") then
        raise "process_crash terminations may only appear on run_recovered events"
      else raise "run_finished and run_abandoned require a termination source of observed"

/-! ## The journal -/

/-- `RunJournalHashFn`. -/
abbrev HashFn := List UInt8 → Option String

/-- The greatest length of an array. -/
def maxArrayLength : Nat := 2 ^ 32 - 1

/-- The state of a `RunJournal`, without its hash function. -/
structure RunJournal where
  sessionId : String
  startedRunIds : Finset String
  terminatedRunIds : Finset String
  records : List RunJournalRecord
  lastSessionRevision : Nat
  prevHash : String
  nextSeq : Nat
  openRun : Option String

/-- `RunJournalStartInput`. -/
structure StartInput where
  runId : String
  sessionRevision : Decimal
  timestamp : String

/-- `RunJournalTerminalInput`. -/
structure TerminalInput where
  termination : Json
  sessionRevision : Decimal
  timestamp : String

/-- `RunJournalAuditInput`. -/
structure AuditInput where
  event : AuditEvent
  details : Json
  sessionRevision : Decimal
  timestamp : String

/-- `seal(base)`. -/
def sealRecord (hashFn : HashFn) (base : RecordBase) : Result RunJournalRecord :=
  match hashFn (Utf8.encode (serializeRunJournalMaterial base)) with
  | none => raise "hashFn threw while sealing a record; failing closed"
  | some hash =>
    if isValidHashShape hash then .ok { base with hash := hash }
    else raise "hashFn must return 64 lowercase hex characters"

/-- The state after `record` was pushed. -/
def RunJournal.advance (j : RunJournal) (record : RunJournalRecord) : RunJournal :=
  { j with
    records := j.records ++ [record]
    prevHash := record.hash
    nextSeq := j.nextSeq + 1
    lastSessionRevision := record.sessionRevision
    startedRunIds :=
      match record.event with
      | .runStarted => insert record.runId j.startedRunIds
      | _ => j.startedRunIds
    terminatedRunIds :=
      match record.event with
      | .terminal _ _ => insert record.runId j.terminatedRunIds
      | _ => j.terminatedRunIds
    openRun :=
      match record.event with
      | .runStarted => some record.runId
      | .terminal _ _ => none
      | .audit _ _ => j.openRun }

/-- Sealing a record, pushing it and the updates of the state that follow. -/
def RunJournal.append (hashFn : HashFn) (j : RunJournal) (base : RecordBase) :
    Result (RunJournalRecord × RunJournal) := do
  let record ← sealRecord hashFn base
  require (j.records.length < maxArrayLength) "Invalid array length"
  return (record, j.advance record)

/-- The base of the next record. -/
def RunJournal.base (j : RunJournal) (event : Event) (runId : String) (sessionRevision : Nat)
    (timestamp : String) : RecordBase where
  seq := j.nextSeq
  event := event
  runId := runId
  sessionId := j.sessionId
  sessionRevision := sessionRevision
  timestamp := timestamp
  prevHash := j.prevHash

/-- The checks of the revision and of the time that all records pass. -/
def RunJournal.checkMoment (j : RunJournal) (sessionRevision : Decimal) (timestamp : String) :
    Result Nat := do
  let revision ← assertSafeInteger (some (.num sessionRevision)) "sessionRevision"
  require (j.lastSessionRevision ≤ revision) "sessionRevision must not regress across the journal"
  let _ ← assertCanonicalTimestamp (some (.str timestamp)) "timestamp"
  return revision

/-- `start(input)`, which is `appendStarted(input)`. -/
def RunJournal.start (hashFn : HashFn) (j : RunJournal) (input : StartInput) :
    Result (RunJournalRecord × RunJournal) := do
  assertOpenIdentifier (some (.str input.runId)) "runId" maxRunJournalIdLength
  let revision ← j.checkMoment input.sessionRevision input.timestamp
  require j.openRun.isNone "a run is already open; terminate it before starting another"
  require (input.runId ∉ j.startedRunIds) "runId was already started earlier in this journal"
  j.append hashFn (j.base .runStarted input.runId revision input.timestamp)

/-- `appendTerminal(event, input)`. -/
def RunJournal.appendTerminal (hashFn : HashFn) (j : RunJournal) (event : TerminalEvent)
    (input : TerminalInput) : Result (RunJournalRecord × RunJournal) :=
  match j.openRun with
  | none => raise "no run is open; start a run before terminating it"
  | some runId => do
    let revision ← j.checkMoment input.sessionRevision input.timestamp
    assertBoundedSessionTermination (some input.termination) runId j.sessionId
    assertTerminalCoherentWithEvent event input.termination
    require (input.termination.get? "timestamp" = some (.str input.timestamp))
      "terminal event timestamp must equal termination timestamp"
    require (runId ∉ j.terminatedRunIds) "the open run was already terminated"
    j.append hashFn (j.base (.terminal event input.termination) runId revision input.timestamp)

/-- `finish(input)`. -/
def RunJournal.finish (hashFn : HashFn) (j : RunJournal) (input : TerminalInput) :
    Result (RunJournalRecord × RunJournal) :=
  j.appendTerminal hashFn .runFinished input

/-- `abandon(input)`. -/
def RunJournal.abandon (hashFn : HashFn) (j : RunJournal) (input : TerminalInput) :
    Result (RunJournalRecord × RunJournal) :=
  j.appendTerminal hashFn .runAbandoned input

/-- `recover(input)`. -/
def RunJournal.recover (hashFn : HashFn) (j : RunJournal) (input : TerminalInput) :
    Result (RunJournalRecord × RunJournal) :=
  j.appendTerminal hashFn .runRecovered input

/-- `audit(input)`. -/
def RunJournal.audit (hashFn : HashFn) (j : RunJournal) (input : AuditInput) :
    Result (RunJournalRecord × RunJournal) := do
  let revision ← j.checkMoment input.sessionRevision input.timestamp
  assertBoundedAuditDetails (some input.details)
  j.append hashFn
    (j.base (.audit input.event input.details) (j.openRun.getD "none") revision input.timestamp)

/-- `RunJournalConstructorInit`, without the hash function. -/
structure JournalInit where
  sessionId : String
  runId : String
  sessionRevision : Decimal
  timestamp : String
  openInitialRun : Option Bool := none
  prevHash : Option String := none
  seq : Option Decimal := none

/-- A journal without records. -/
def emptyJournal (sessionId prevHash : String) (nextSeq : Nat) : RunJournal where
  sessionId := sessionId
  startedRunIds := ∅
  terminatedRunIds := ∅
  records := []
  lastSessionRevision := 0
  prevHash := prevHash
  nextSeq := nextSeq
  openRun := none

/-- `new RunJournal(init)`. -/
def RunJournal.new (hashFn : HashFn) (init : JournalInit) : Result RunJournal := do
  assertOpenIdentifier (some (.str init.sessionId)) "sessionId" maxRunJournalIdLength
  let seq ← assertSafeInteger (some (.num (init.seq.getD .zero))) "seq"
  let prevHash := init.prevHash.getD genesisHash
  require (isValidHashShape prevHash) "prevHash must be 64 lowercase hex characters"
  let journal := emptyJournal init.sessionId prevHash seq
  if init.openInitialRun = some false then
    assertOpenIdentifier (some (.str init.runId)) "runId" maxRunJournalIdLength
    return journal
  else
    let (_, journal) ←
      journal.start hashFn ⟨init.runId, init.sessionRevision, init.timestamp⟩
    return journal

/-- `serialize()`. -/
def RunJournal.serialize (j : RunJournal) : List Char :=
  if j.records.isEmpty then []
  else ['\n'].intercalate (j.records.map serializeRunJournalLine) ++ ['\n']

/-- `toBytes()`. -/
def RunJournal.toBytes (j : RunJournal) : List UInt8 := Utf8.encode j.serialize

/-! ## Runs -/

/-- A call of a method that appends a record. -/
inductive JournalOperation
  | start (input : StartInput)
  | finish (input : TerminalInput)
  | abandon (input : TerminalInput)
  | recover (input : TerminalInput)
  | audit (input : AuditInput)

def JournalOperation.run (hashFn : HashFn) (j : RunJournal) :
    JournalOperation → Result (RunJournalRecord × RunJournal)
  | .start input => j.start hashFn input
  | .finish input => j.finish hashFn input
  | .abandon input => j.abandon hashFn input
  | .recover input => j.recover hashFn input
  | .audit input => j.audit hashFn input

/-- The input is a value of ECMAScript: the keys of an object are distinct. -/
def JournalOperation.WellFormed : JournalOperation → Prop
  | .start _ => True
  | .finish input | .abandon input | .recover input => input.termination.WellFormed
  | .audit input => input.details.WellFormed

/-- The journals that successful operations make of a genesis journal. -/
inductive Written (hashFn : HashFn) : RunJournal → Prop
  | genesis {init : JournalInit} {j : RunJournal} (hprev : init.prevHash = none)
      (hseq : init.seq = none) (h : RunJournal.new hashFn init = .ok j) : Written hashFn j
  | step {j j' : RunJournal} {op : JournalOperation} {record : RunJournalRecord}
      (h : Written hashFn j) (hop : op.WellFormed) (hrun : op.run hashFn j = .ok (record, j')) :
      Written hashFn j'

end CodingAgent.Journal
