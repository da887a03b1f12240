import OmkVerified.CodingAgent.Integrity.RepairPlan

/-!
# The compaction barrier

Embedding of `evaluateCompactionBarrier` of `compaction/transaction.ts`: whether a session may be
compacted now, from the report of the inspection and the ids of the tool calls that are still
running. The barrier trusts no report: it checks that the parts of the report agree with each other,
and reads the transcript of the active branch again.

What the checks of the code ask of the type of a field holds of every `Report` and is left out.
-/

namespace CodingAgent.Compaction

open Lib Integrity

/-! ## Results -/

/-- `CompactionBarrierStatus`. -/
inductive CompactionBarrierStatus
  | ready
  | defer
  | failClosed
deriving DecidableEq

/-- `CompactionBarrierReason`. -/
inductive CompactionBarrierReason
  | closedActiveBranch
  | pendingToolCalls
  | missingActiveTailResults
  | invalidPendingToolIds
  | inconsistentIntegrityReport
  | structuralIntegrityFailure
  | unsafeMissingToolResults
deriving DecidableEq

/-- `CompactionBarrierResult`. -/
structure CompactionBarrierResult where
  status : CompactionBarrierStatus
  reason : CompactionBarrierReason
  pendingToolCallIds : List String
  missingToolCallIds : List String := []

/-! ## Consistent reports -/

/-- `HEADER_FINDING_REASONS.has(reason)`. -/
def isHeaderReason (reason : ReasonCode) : Bool :=
  [.missingHeader, .invalidHeader, .unsupportedHeader, .multipleHeader, .lateHeader].contains reason

/-- `validByteDigest(value, false)`. -/
def validByteDigest (digest : ByteDigest) : Bool :=
  decide (digest.byteCount ≤ maxSafeInteger) && isSha256 digest.sha256

/-- `validByteDigest(value, true)`. -/
def validCompletePrefix (complete : CompletePrefix) : Bool :=
  validByteDigest complete.toByteDigest && decide (complete.lineCount ≤ maxSafeInteger)

/-- `validFinding(value)`. -/
def validFinding (finding : Finding) : Bool :=
  finding.line.all fun line => decide (1 ≤ line) && decide (line ≤ maxSafeInteger)

/-- `validTranscriptIssue(value)`. -/
def validTranscriptIssue (issue : Agent.TranscriptIntegrityIssue) : Bool :=
  decide (issue.toolCallId ≠ "")

/-- The loop over the active branch. Each entry names the one before it. -/
def branchIsLinked (entryIds : List (Option Json)) :
    (expectedParent : Option Json) → (branchIds : List (Option Json)) → List FileEntry → Bool
  | _, _, [] => true
  | expectedParent, branchIds, entry :: entries =>
    entry.isRecord && isText (entryId entry) && !branchIds.contains (entryId entry) &&
      entryIds.contains (entryId entry) && decide (entryParentId entry = expectedParent) &&
      branchIsLinked entryIds (entryId entry) (branchIds ++ [entryId entry]) entries

/-- `activeBranchIsConsistent(report)`. -/
def activeBranchIsConsistent (report : Report) : Bool :=
  (report.entries.all fun entry => entry.isRecord && nonEmptyString (entryId entry)) &&
    match report.activeLeafId with
    | none => report.activeBranch.isEmpty
    | some leaf =>
      !report.activeBranch.isEmpty &&
        branchIsLinked (report.entries.map entryId) (some .null) [] report.activeBranch &&
        decide (report.activeBranch.getLast?.bind entryId = some (.str leaf))

/-- A finding that is neither on a trailing fragment nor on the transcript. -/
def isStructuralFinding (finding : Finding) : Bool :=
  decide (finding.reason ≠ .trailingFragment) && !finding.reason.isTranscript

/-- The checks of the digests, of the findings one by one, and of the trailing fragment. -/
def digestsAreConsistent (report : Report) : Bool :=
  let trailingBytes := (report.trailingFragment.map ByteDigest.byteCount).getD 0
  let trailingFindings := report.findings.filter fun f => decide (f.reason = .trailingFragment)
  validByteDigest report.source && validCompletePrefix report.completePrefix &&
    report.trailingFragment.all validByteDigest &&
    decide (report.source.byteCount = report.completePrefix.byteCount + trailingBytes) &&
    decide (report.completePrefix.lineCount ≤ report.completePrefix.byteCount) &&
    (decide (report.completePrefix.byteCount ≠ 0) ||
      decide (report.completePrefix.sha256 = emptySha256)) &&
    (report.trailingFragment.isSome ||
      decide (report.source.sha256 = report.completePrefix.sha256)) &&
    report.findings.all validFinding && report.ok == report.findings.isEmpty &&
    decide (trailingFindings.length = if report.trailingFragment.isNone then 0 else 1) &&
    trailingFindings.all fun f => decide (f.keyCount = 1)

/-- The checks of the header. -/
def headerIsConsistent (report : Report) : Bool :=
  match report.header with
  | none => report.findings.any fun f => isHeaderReason f.reason
  | some header => header.isRecord && nonEmptyString (header.get? "id")

/-- The checks of the transcript. It is read again from the active messages. -/
def transcriptIsConsistent (report : Report) : Bool :=
  let transcriptFindings := report.findings.filter fun f => f.reason.isTranscript
  match report.transcript with
  | none =>
    report.activeMessages.isEmpty && transcriptFindings.isEmpty &&
      report.findings.any isStructuralFinding
  | some transcript =>
    transcript.issues.all validTranscriptIssue && transcript.ok == transcript.issues.isEmpty &&
      !report.findings.any isStructuralFinding &&
      match transcriptOf report.activeMessages with
      | .error _ => false
      | .ok messages =>
        let inspected := Agent.inspectTranscriptIntegrity messages
        inspected.ok == transcript.ok &&
          sameIdentityMultiset (inspected.issues.map issueIdentity)
            (transcript.issues.map issueIdentity) &&
          sameIdentityMultiset (transcriptFindings.map findingIdentity)
            (inspected.issues.map expectedIdentity)

/-- `reportIsConsistent(report)`. -/
def reportIsConsistent (report : Report) : Bool :=
  digestsAreConsistent report && headerIsConsistent report && activeBranchIsConsistent report &&
    transcriptIsConsistent report

/-! ## The barrier -/

/-- `messageToolCalls(message)` of an assistant message, as the ids of the calls. -/
def messageToolCallIds (message : Json) : Result (List String) :=
  match message.get? "content" with
  | some (.arr blocks) =>
    .ok ((blocks.filter fun block => isLiteral (block.get? "type") "toolCall").map fun block =>
      textOf (block.get? "id"))
  | _ => raise "message.content.flatMap is not a function"

/-- `missingCallsAreAtActiveTail(report, missingIds)`. -/
def missingCallsAreAtActiveTail (report : Report) (missingIds : List String) : Result Bool :=
  match lastAssistantPosition report.activeMessages with
  | none => .ok false
  | some index => do
    let tailCallIds ← messageToolCallIds ((report.activeMessages[index]?).getD .null)
    return (missingIds.all fun id => decide (id ∈ tailCallIds)) &&
      (report.activeMessages.drop (index + 1)).all (isResultOf tailCallIds)

/-- Anything but a missing result blocks. -/
def isBlocked (report : Report) (issues : List Agent.TranscriptIntegrityIssue) : Bool :=
  (report.findings.any fun f => decide (f.reason ≠ .transcript .missingResult)) ||
    issues.any fun issue => decide (issue.kind ≠ .missingResult)

/-- `evaluateCompactionBarrier(report, pendingToolCallIds)`. -/
def evaluateCompactionBarrier (report : Report) (pendingToolCallIds : Option Json) :
    Result CompactionBarrierResult :=
  match copyIdArray pendingToolCallIds "pendingToolCallIds" maxProvenanceIds with
  | .error _ => .ok ⟨.failClosed, .invalidPendingToolIds, [], []⟩
  | .ok pending =>
    let issues := (report.transcript.map Agent.TranscriptIntegrityReport.issues).getD []
    let missing := (issues.filter fun issue => decide (issue.kind = .missingResult)).map
      Agent.TranscriptIntegrityIssue.toolCallId
    if !reportIsConsistent report then
      .ok ⟨.failClosed, .inconsistentIntegrityReport, pending, []⟩
    else if isBlocked report issues then
      .ok ⟨.failClosed, .structuralIntegrityFailure, pending, []⟩
    else if missing.isEmpty then
      if pending.isEmpty then .ok ⟨.ready, .closedActiveBranch, [], []⟩
      else .ok ⟨.defer, .pendingToolCalls, pending, []⟩
    else do
      let atTail ← missingCallsAreAtActiveTail report missing
      if !atTail || missing.any fun id => decide (id ∉ pending) then
        return ⟨.failClosed, .unsafeMissingToolResults, pending, missing⟩
      return ⟨.defer, .missingActiveTailResults, pending, missing⟩

end CodingAgent.Compaction
