import OmkVerified.CodingAgent.Session.Disk
import OmkVerified.CodingAgent.RunJournal.Writer

/-!
# The inspector of the run journal

Embedding of `inspectRunJournal` of `run-journal.ts`: it reads the complete lines of a byte sequence,
checks every record by itself and against the records before it, and reports what it finds. It
shares the checks of terminations and audit details with the writer, and nothing else.
-/

namespace CodingAgent.Journal

open Lib

/-- `RunJournalFindingCode`. -/
inductive FindingCode
  | trailingFragment | invalidUtf8 | malformedJson | schema | seqGap | seqRegression | hashShape
  | hashMismatch | hashChainBreak | orphanTerminal | duplicateTerminal | duplicateStart
  | interleavedRun | runUnclosed | recoveredSourceInvalid | terminationMismatch | sessionMismatch
  | sessionRevisionRegression
deriving DecidableEq

/-- The code as it is written. -/
def FindingCode.text : FindingCode → String
  | trailingFragment => "trailing_fragment"
  | invalidUtf8 => "invalid_utf8"
  | malformedJson => "malformed_json"
  | schema => "schema"
  | seqGap => "seq_gap"
  | seqRegression => "seq_regression"
  | hashShape => "hash_shape"
  | hashMismatch => "hash_mismatch"
  | hashChainBreak => "hash_chain_break"
  | orphanTerminal => "orphan_terminal"
  | duplicateTerminal => "duplicate_terminal"
  | duplicateStart => "duplicate_start"
  | interleavedRun => "interleaved_run"
  | runUnclosed => "run_unclosed"
  | recoveredSourceInvalid => "recovered_source_invalid"
  | terminationMismatch => "termination_mismatch"
  | sessionMismatch => "session_mismatch"
  | sessionRevisionRegression => "session_revision_regression"

/-- `RunJournalFinding`. -/
structure Finding where
  code : FindingCode
  line : Option Nat := none
  runId : Option String := none

/-- `RunJournalReport`; `ok` is that there are no findings. -/
structure Report where
  byteCount : Nat
  lineCount : Nat
  trailingByteCount : Nat
  records : List RunJournalRecord
  openRunId : Option String
  findings : List Finding

/-! ## The shape of a record -/

/-- `COMMON_RECORD_KEYS`. -/
def commonRecordKeys : List String :=
  ["schemaVersion", "seq", "event", "runId", "sessionId", "sessionRevision", "timestamp", "prevHash",
    "hash"]

/-- The keys that a record of this event may have. -/
def allowedRecordKeys : Option EventKind → List String
  | some (.terminal _) => commonRecordKeys ++ ["termination"]
  | some (.audit _) => commonRecordKeys ++ ["details"]
  | _ => commonRecordKeys

/-- `TERMINAL_EVENTS.has(event)`. -/
def isTerminal : Option EventKind → Bool
  | some (.terminal _) => true
  | _ => false

/-- `AUDIT_EVENTS.has(event)`. -/
def isAudit : Option EventKind → Bool
  | some (.audit _) => true
  | _ => false

/-- `CommonShape`. -/
structure CommonShape where
  seq : Nat
  event : EventKind
  runId : String
  sessionId : String
  sessionRevision : Nat
  timestamp : String
  prevHash : String
  hash : String

/-- The event that the value names. -/
def eventOf (value : Json) : Option EventKind :=
  match value.get? "event" with
  | some (.str text) => EventKind.ofText? text
  | _ => none

/-- A non-negative safe integer. -/
def safeNat? (value : Option Json) : Option Nat :=
  match value with
  | some (.num n) => (n.toNat?).filter fun k => decide (k ≤ maxSafeInteger)
  | _ => none

/-- A canonical timestamp. -/
def timestamp? (value : Option Json) : Option String :=
  match value with
  | some (.str text) => if isCanonicalTimestamp text then some text else none
  | _ => none

/-- A text. -/
def text? (value : Option Json) : Option String :=
  match value with
  | some (.str text) => some text
  | _ => none

/-- The keys of an object. -/
def keysOf : Json → List String
  | .obj fields => fields.map Prod.fst
  | _ => []

/-- `validateCommonShape(value)`. -/
def validateCommonShape (value : Json) : Option CommonShape := do
  guard value.isRecord
  guard ((keysOf value).all fun key => (allowedRecordKeys (eventOf value)).contains key)
  guard (isTerminal (eventOf value) = (value.get? "termination").isSome)
  guard (isAudit (eventOf value) = (value.get? "details").isSome)
  guard (value.get? "schemaVersion" = some (number 1))
  let event ← eventOf value
  let seq ← safeNat? (value.get? "seq")
  let runId ← boundedIdentifier? (value.get? "runId")
  let sessionId ← boundedIdentifier? (value.get? "sessionId")
  let sessionRevision ← safeNat? (value.get? "sessionRevision")
  let timestamp ← timestamp? (value.get? "timestamp")
  let prevHash ← text? (value.get? "prevHash")
  let hash ← text? (value.get? "hash")
  return ⟨seq, event, runId, sessionId, sessionRevision, timestamp, prevHash, hash⟩

/-- What the event of the record carries: `assertBoundedAuditDetails`, or `probeTermination` and the
comparison of the timestamps. An error is the code of the finding. -/
def probeEvent (value : Json) (common : CommonShape) : Except FindingCode Event :=
  match common.event with
  | .runStarted => .ok .runStarted
  | .audit event =>
    match assertBoundedAuditDetails (value.get? "details"), value.get? "details" with
    | .ok (), some details => .ok (.audit event details)
    | _, _ => .error .schema
  | .terminal event =>
    match assertBoundedSessionTermination (value.get? "termination") common.runId common.sessionId,
      value.get? "termination" with
    | .ok (), some termination =>
      if isTerminalCoherentWithEvent event termination then
        if termination.get? "timestamp" = some (.str common.timestamp) then
          .ok (.terminal event termination)
        else .error .terminationMismatch
      else .error .recoveredSourceInvalid
    | _, _ => .error .terminationMismatch

/-- The finding of a failed probe: a schema finding names no run. -/
def probeFinding (code : FindingCode) (line : Nat) (runId : String) : Finding :=
  if code = .schema then { code := code, line := some line }
  else { code := code, line := some line, runId := some runId }

/-! ## The records in their order -/

/-- The variables of the loop over the parsed lines. -/
structure InspectState where
  findings : List Finding
  openRun : Option String
  seenStarts : Finset String
  terminatedRuns : Finset String
  expectedSeq : Nat
  lastHash : String
  journalSessionId : Option String
  lastRevision : Nat
  validRecords : List RunJournalRecord

/-- `addFinding(findings, finding)`. -/
def InspectState.addFinding (s : InspectState) (finding : Finding) : InspectState :=
  { s with findings := s.findings ++ [finding] }

/-- A finding that is added when the condition holds. -/
def findingIf (condition : Bool) (finding : Finding) : List Finding :=
  if condition then [finding] else []

/-- The findings on the sequence number, the hashes and the chain. -/
def chainFindings (hashFn : HashFn) (s : InspectState) (line : Nat) (r : RunJournalRecord) :
    List Finding :=
  let shapeOk := isValidHashShape r.hash && isValidHashShape r.prevHash
  let recomputed := hashFn (Utf8.encode (serializeRunJournalMaterial r.toRecordBase))
  let recomputeOk := recomputed.any fun hash => isValidHashShape hash && hash = r.hash
  findingIf (s.expectedSeq < r.seq) { code := .seqGap, line := some line } ++
    findingIf (r.seq < s.expectedSeq) { code := .seqRegression, line := some line } ++
    findingIf (!shapeOk) { code := .hashShape, line := some line } ++
    findingIf (!recomputeOk) { code := .hashMismatch, line := some line } ++
    findingIf (r.prevHash ≠ s.lastHash) { code := .hashChainBreak, line := some line }

/-- The findings of the run-state machine. -/
def runFindings (s : InspectState) (line : Nat) (r : RunJournalRecord) : List Finding :=
  match r.event with
  | .audit _ _ => []
  | .runStarted =>
    findingIf (r.runId ∈ s.seenStarts)
        { code := .duplicateStart, line := some line, runId := some r.runId } ++
      findingIf (s.openRun.any fun runId => runId ≠ r.runId)
        { code := .interleavedRun, line := some line, runId := some r.runId }
  | .terminal _ _ =>
    if r.runId ∈ s.terminatedRuns then
      [{ code := .duplicateTerminal, line := some line, runId := some r.runId }]
    else if s.openRun ≠ some r.runId then
      [{ code := .orphanTerminal, line := some line, runId := some r.runId }]
    else []

/-- The open run after the record. -/
def nextOpenRun (s : InspectState) (r : RunJournalRecord) : Option String :=
  match r.event with
  | .audit _ _ => s.openRun
  | .runStarted => if s.openRun.isNone then some r.runId else s.openRun
  | .terminal _ _ =>
    if r.runId ∉ s.terminatedRuns ∧ s.openRun = some r.runId then none else s.openRun

/-- The closed runs after the record. -/
def nextTerminatedRuns (s : InspectState) (r : RunJournalRecord) : Finset String :=
  match r.event with
  | .terminal _ _ =>
    if r.runId ∉ s.terminatedRuns ∧ s.openRun = some r.runId then insert r.runId s.terminatedRuns
    else s.terminatedRuns
  | _ => s.terminatedRuns

/-- The started runs after the record. -/
def nextSeenStarts (s : InspectState) (r : RunJournalRecord) : Finset String :=
  match r.event with
  | .runStarted => insert r.runId s.seenStarts
  | _ => s.seenStarts

/-- The end of the loop body: the record is kept, with or without findings. -/
def InspectState.keep (hashFn : HashFn) (s : InspectState) (line : Nat) (r : RunJournalRecord) :
    InspectState :=
  { s with
    findings := s.findings ++ chainFindings hashFn s line r ++ runFindings s line r
    lastRevision := r.sessionRevision
    expectedSeq := r.seq + 1
    lastHash := if isValidHashShape r.hash then r.hash else s.lastHash
    openRun := nextOpenRun s r
    terminatedRuns := nextTerminatedRuns s r
    seenStarts := nextSeenStarts s r
    validRecords := s.validRecords ++ [r] }

/-- The record of a shape and its event. -/
def CommonShape.record (common : CommonShape) (event : Event) : RunJournalRecord where
  seq := common.seq
  event := event
  runId := common.runId
  sessionId := common.sessionId
  sessionRevision := common.sessionRevision
  timestamp := common.timestamp
  prevHash := common.prevHash
  hash := common.hash

/-- The body of the loop over the parsed lines. -/
def inspectLine (hashFn : HashFn) (s : InspectState) (line : Nat) (value : Json) : InspectState :=
  match validateCommonShape value with
  | none => s.addFinding { code := .schema, line := some line }
  | some common =>
    match probeEvent value common with
    | .error code => s.addFinding (probeFinding code line common.runId)
    | .ok event =>
      if s.journalSessionId.any fun id => common.sessionId ≠ id then
        s.addFinding { code := .sessionMismatch, line := some line, runId := some common.runId }
      else
        let s := { s with journalSessionId := some common.sessionId }
        if common.sessionRevision < s.lastRevision then
          s.addFinding
            { code := .sessionRevisionRegression, line := some line, runId := some common.runId }
        else s.keep hashFn line (common.record event)

/-! ## The lines -/

/-- One line of the text: its value, or the finding that it has none. -/
def parseJournalLine (line : Nat) (text : List Char) : Except Finding (Nat × Json) :=
  if (trim text).isEmpty then .error { code := .malformedJson, line := some line }
  else
    match Json.parse text with
    | some value => .ok (line, value)
    | none => .error { code := .malformedJson, line := some line }

/-- The loop over the lines from number `line` on: the findings and the parsed lines. -/
def parseJournalLines : (line : Nat) → List (List Char) → List Finding × List (Nat × Json)
  | _, [] => ([], [])
  | line, text :: texts =>
    let (findings, parsed) := parseJournalLines (line + 1) texts
    match parseJournalLine line text with
    | .ok value => (findings, value :: parsed)
    | .error finding => (finding :: findings, parsed)

/-- The lines of the decoded text, which ends in a line feed. -/
def journalLines (text : List Char) : List (List Char) :=
  let body := text.dropLast
  if body.isEmpty then [] else body.splitOn '\n'

/-- The state before the first parsed line. -/
def InspectState.initial (findings : List Finding) : InspectState where
  findings := findings
  openRun := none
  seenStarts := ∅
  terminatedRuns := ∅
  expectedSeq := 0
  lastHash := genesisHash
  journalSessionId := none
  lastRevision := 0
  validRecords := []

/-- The finding on a run that is open at the end. -/
def openFindings (openRun : Option String) : List Finding :=
  match openRun with
  | some runId => [{ code := .runUnclosed, runId := some runId }]
  | none => []

/-- The report over the lines of the complete prefix. -/
def inspectLines (hashFn : HashFn) (byteCount trailingByteCount : Nat) (findings : List Finding)
    (lines : List (List Char)) : Report :=
  let (malformed, parsed) := parseJournalLines 1 lines
  let s := parsed.foldl (fun s (line, value) => inspectLine hashFn s line value)
    (InspectState.initial (findings ++ malformed))
  { byteCount := byteCount
    lineCount := lines.length
    trailingByteCount := trailingByteCount
    records := s.validRecords
    openRunId := s.openRun
    findings := s.findings ++ openFindings s.openRun }

/-- `inspectRunJournal(bytes, hashFn)`. More lines than an array can hold throw. -/
def inspectRunJournal (bytes : List UInt8) (hashFn : HashFn) : Result Report :=
  let complete := completePrefix bytes
  let trailingByteCount := bytes.length - complete.length
  let fragment := findingIf (0 < trailingByteCount) { code := .trailingFragment }
  if complete.isEmpty then .ok (inspectLines hashFn 0 trailingByteCount fragment [])
  else
    match Utf8.decodeFatal complete with
    | none =>
      .ok (inspectLines hashFn complete.length trailingByteCount
        (fragment ++ [{ code := .invalidUtf8 }]) [])
    | some text =>
      if (journalLines text).length ≤ maxArrayLength then
        .ok (inspectLines hashFn complete.length trailingByteCount fragment (journalLines text))
      else raise "Invalid array length"

end CodingAgent.Journal
