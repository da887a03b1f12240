import OmkVerified.CodingAgent.Integrity.Inspect

/-!
# Repair plans

Embedding of `session-repair-plan.ts`: the plan that closes a damaged session file again, derived
from the report of the inspection. A plan quarantines a trailing fragment and appends a synthetic
result for each unanswered call at the end of the transcript; whatever else the report finds blocks
the repair.
-/

namespace CodingAgent.Integrity

open Lib

/-! ## Plans -/

/-- `SessionRepairReason`. -/
inductive SessionRepairReason
  | resumeRecovery
  | doctorRepair
deriving DecidableEq

/-- `SessionRepairPlanStatus`. -/
inductive SessionRepairPlanStatus
  | notNeeded
  | repairable
  | blocked
deriving DecidableEq

/-- `SessionRepairBlockerReason`. -/
inductive SessionRepairBlockerReason
  | integrityFinding
  | inspectionIncomplete
  | ambiguousTranscript
  | inconsistentReport
deriving DecidableEq

/-- `/[\u0000-\u001f\u007f]/`, for one character. -/
def isControl (c : Char) : Bool := decide (c.toNat ≤ 0x1f) || decide (c.toNat = 0x7f)

/-- `CreateSessionRepairPlanOptions`, checked. -/
structure RepairOptions where
  repairId : String
  reason : SessionRepairReason
  timestamp : Nat
  bounded : 0 < jsLength repairId ∧ jsLength repairId ≤ 128
  printable : repairId.toList.any isControl = false
  safe : timestamp ≤ maxSafeInteger

/-- `SessionRepairPrecondition`. -/
structure SessionRepairPrecondition where
  source : ByteDigest
  completePrefix : CompletePrefix
  activeLeafId : Option String

/-- `SessionRepairBlocker`. -/
structure SessionRepairBlocker where
  reason : SessionRepairBlockerReason
  findingReason : Option ReasonCode := none
  entryId : Option String := none
  toolCallId : Option String := none

/-- `SessionRepairAction`. -/
inductive SessionRepairAction
  | quarantineTrailingFragment (fragment : ByteDigest) (retainPrefix : CompletePrefix)
  | appendSyntheticToolResult (sequence : Nat) (toolCallId toolName : String)
      (message : Agent.ToolResultMessage)

/-- `SESSION_REPAIR_PLAN_SCHEMA_VERSION`. -/
def sessionRepairPlanSchemaVersion : Nat := 1

/-- `SessionRepairPlan`. -/
structure SessionRepairPlan where
  schemaVersion : Nat
  repairId : String
  reason : SessionRepairReason
  status : SessionRepairPlanStatus
  precondition : SessionRepairPrecondition
  actions : List SessionRepairAction
  blockers : List SessionRepairBlocker

/-! ## Options -/

/-- `options.repairId` is bounded text without control characters. -/
def readRepairId (value : Option Json) :
    Except SessionError
      { id : String // (0 < jsLength id ∧ jsLength id ≤ 128) ∧ id.toList.any isControl = false } :=
  let failure :=
    SessionError.thrown "repairId must be non-empty bounded text without C0 or DEL control characters"
  match value with
  | some (.str id) =>
    if h : (0 < jsLength id ∧ jsLength id ≤ 128) ∧ id.toList.any isControl = false then
      .ok ⟨id, h⟩
    else .error failure
  | _ => .error failure

/-- `options.reason` is one of the two reasons. -/
def readRepairReason : Option Json → Except SessionError SessionRepairReason
  | some (.str "resume_recovery") => .ok .resumeRecovery
  | some (.str "doctor_repair") => .ok .doctorRepair
  | _ => .error (.thrown "reason must be resume_recovery or doctor_repair")

/-- `options.timestamp` is a safe integer that is not negative. -/
def readRepairTimestamp (value : Option Json) :
    Except SessionError { timestamp : Nat // timestamp ≤ maxSafeInteger } :=
  let failure :=
    SessionError.thrown "timestamp must be a non-negative epoch-millisecond safe integer"
  match value with
  | some (.num number) =>
    match number.toNat? with
    | some timestamp => if h : timestamp ≤ maxSafeInteger then .ok ⟨timestamp, h⟩ else .error failure
    | none => .error failure
  | _ => .error failure

/-- `validateOptions(options)`. -/
def validateOptions (options : Json) : Except SessionError RepairOptions := do
  let repairId ← readRepairId (options.get? "repairId")
  let reason ← readRepairReason (options.get? "reason")
  let timestamp ← readRepairTimestamp (options.get? "timestamp")
  return ⟨repairId.1, reason, timestamp.1, repairId.2.1, repairId.2.2, timestamp.2⟩

/-! ## Consistent reports -/

section Identity

variable {κ : Type} [DecidableEq κ]

/-- One key of the loop over the right list. -/
def takeIdentity (counts : OrderedMap κ Nat) (key : κ) : Option (OrderedMap κ Nat) :=
  match counts.get? key with
  | none => none
  | some count => if count = 1 then some (counts.delete key) else some (counts.set key (count - 1))

/-- `sameIdentityMultiset(left, right)`, on keys of any type. -/
def sameIdentityMultiset (left right : List κ) : Bool :=
  decide (left.length = right.length) &&
    match right.foldlM takeIdentity (left.foldl OrderedMap.bump .empty) with
    | some counts => decide (counts.size = 0)
    | none => false

end Identity

/-- `value ?? null` for a text. -/
def textOrNull (value : Option String) : Json := (value.map .str).getD .null

/-- The identity of an issue. -/
def issueIdentity (issue : Agent.TranscriptIntegrityIssue) : List Char :=
  Json.stringify (.arr [.str issue.kind.word, .str issue.toolCallId, textOrNull issue.toolName])

/-- The identity of a finding. -/
def findingIdentity (finding : Finding) : List Char :=
  Json.stringify (.arr [.str finding.reason.text, (finding.line.map number).getD .null,
    textOrNull finding.entryId, textOrNull finding.parentId,
    (finding.cycleEntryIds.map fun ids => Json.arr (ids.map .str)).getD .null,
    textOrNull finding.toolCallId, textOrNull finding.toolName])

/-- The identity that the finding on an issue has. -/
def expectedIdentity (issue : Agent.TranscriptIntegrityIssue) : List Char :=
  Json.stringify (.arr [.str (ReasonCode.transcript issue.kind).text, .null, .null, .null, .null,
    .str issue.toolCallId, textOrNull issue.toolName])

/-- `TRANSCRIPT_FINDING_REASONS.has(reason)`. -/
def ReasonCode.isTranscript : ReasonCode → Bool
  | .transcript _ => true
  | _ => false

/-- `Object.keys(finding).length`. -/
def Finding.keyCount (finding : Finding) : Nat :=
  1 + finding.line.toList.length + finding.entryId.toList.length + finding.parentId.toList.length +
    finding.cycleEntryIds.toList.length + finding.toolCallId.toList.length +
    finding.toolName.toList.length

/-- `reportIsConsistent(report)`. -/
def reportIsConsistent (report : Report) : Except SessionError Bool :=
  let trailingFindings := report.findings.filter fun f => decide (f.reason = .trailingFragment)
  let transcriptFindings := report.findings.filter fun f => f.reason.isTranscript
  if report.ok ≠ report.findings.isEmpty then .ok false
  else if decide (trailingFindings.length ≠ if report.trailingFragment.isNone then 0 else 1) ||
      trailingFindings.any fun f => decide (f.keyCount ≠ 1) then .ok false
  else
    match report.transcript with
    | none => .ok transcriptFindings.isEmpty
    | some transcript =>
      if report.findings.any fun f =>
          decide (f.reason ≠ .trailingFragment) && !f.reason.isTranscript then .ok false
      else do
        let messages ← transcriptOf report.activeMessages
        let inspected := Agent.inspectTranscriptIntegrity messages
        if transcript.ok ≠ inspected.ok || transcript.ok ≠ transcript.issues.isEmpty ||
            !sameIdentityMultiset (transcript.issues.map issueIdentity)
              (inspected.issues.map issueIdentity) then
          return false
        return sameIdentityMultiset (transcriptFindings.map findingIdentity)
          (inspected.issues.map expectedIdentity)

/-! ## Unanswered calls -/

/-- `isToolCall(value)`. -/
def isToolCall (value : Json) : Bool :=
  value.isRecord && isLiteral (value.get? "type") "toolCall" && isText (value.get? "id") &&
    isText (value.get? "name")

/-- The fields of a tool call block. -/
def toolCallOf (block : Json) : Agent.ToolCall :=
  ⟨textOf (block.get? "id"), textOf (block.get? "name"), (block.get? "arguments").getD .null⟩

/-- `message.role === role`. -/
def hasRole (role : String) (message : Json) : Bool := isLiteral (message.get? "role") role

/-- The loop that looks for the last assistant message. -/
def lastAssistantPosition (messages : List Json) : Option Nat :=
  (messages.reverse.findIdx? (hasRole "assistant")).map fun i => messages.length - 1 - i

/-- The message is the result of one of these calls. -/
def isResultOf (callIds : List String) (message : Json) : Bool :=
  hasRole "toolResult" message && callIds.any fun id => isLiteral (message.get? "toolCallId") id

/-- `missingTailCalls(report)`. -/
def missingTailCalls (report : Report) : Except SessionError (Option (List Agent.ToolCall)) :=
  match report.transcript with
  | none => .ok (some [])
  | some transcript =>
    if transcript.issues.isEmpty then .ok (some [])
    else if transcript.issues.any fun issue => decide (issue.kind ≠ .missingResult) then .ok none
    else
      match lastAssistantPosition report.activeMessages with
      | none => .ok none
      | some index =>
        match (report.activeMessages[index]?).bind fun message => message.get? "content" with
        | some (.arr blocks) =>
          let tailCalls := (blocks.filter isToolCall).map toolCallOf
          let tailCallIds := tailCalls.map Agent.ToolCall.id
          let missingIds := transcript.issues.map Agent.TranscriptIntegrityIssue.toolCallId
          if missingIds.any fun id => decide (id ∉ tailCallIds) then .ok none
          else if (report.activeMessages.drop (index + 1)).all (isResultOf tailCallIds) then
            .ok (some (tailCalls.filter fun call => decide (call.id ∈ missingIds)))
          else .ok none
        | _ => .error (.thrown "assistant.content.filter is not a function")

/-! ## The plan -/

/-- `repairText(reason)`. -/
def repairText : SessionRepairReason → String
  | .resumeRecovery => "Tool result missing; synthesized during session resume recovery"
  | .doctorRepair => "Tool result missing; synthesized by session doctor repair"

/-- `REPAIRABLE_FINDINGS.has(reason)`. -/
def ReasonCode.isRepairable (reason : ReasonCode) : Bool :=
  decide (reason = .trailingFragment) || decide (reason = .transcript .missingResult)

/-- `blockerForFinding(finding)`. -/
def blockerForFinding (finding : Finding) : SessionRepairBlocker where
  reason := .integrityFinding
  findingReason := some finding.reason
  entryId := finding.entryId
  toolCallId := finding.toolCallId

/-- `basePlan(report, options, status, actions, blockers)`. -/
def basePlan (report : Report) (options : RepairOptions) (status : SessionRepairPlanStatus)
    (actions : List SessionRepairAction) (blockers : List SessionRepairBlocker) :
    SessionRepairPlan where
  schemaVersion := sessionRepairPlanSchemaVersion
  repairId := options.repairId
  reason := options.reason
  status := status
  precondition := ⟨report.source, report.completePrefix, report.activeLeafId⟩
  actions := actions
  blockers := blockers

/-- The action that appends the result of one call. -/
def appendAction (options : RepairOptions) (call : Agent.ToolCall) (sequence : Nat) :
    SessionRepairAction :=
  .appendSyntheticToolResult sequence call.id call.name
    (Agent.createSyntheticToolResult call.id call.name (repairText options.reason) options.timestamp)

/-- The actions of a plan that is not blocked. -/
def repairActions (report : Report) (options : RepairOptions) (calls : List Agent.ToolCall) :
    List SessionRepairAction :=
  (report.trailingFragment.map fun fragment =>
    .quarantineTrailingFragment fragment report.completePrefix).toList ++
  calls.zipIdx.map fun (call, sequence) => appendAction options call sequence

/-- `createSessionRepairPlan(report, options)`. -/
def createSessionRepairPlan (report : Report) (options : Json) :
    Except SessionError SessionRepairPlan := do
  let options ← validateOptions options
  let blocked (blockers : List SessionRepairBlocker) : SessionRepairPlan :=
    basePlan report options .blocked [] blockers
  if !(← reportIsConsistent report) then return blocked [{ reason := .inconsistentReport }]
  let blockers := (report.findings.filter fun f => !f.reason.isRepairable).map blockerForFinding
  if !blockers.isEmpty then return blocked blockers
  match report.transcript with
  | none => return blocked [{ reason := .inspectionIncomplete }]
  | some transcript =>
    let missingFindings := report.findings.filter fun f =>
      decide (f.reason = .transcript .missingResult)
    let missingIssues := transcript.issues.filter fun issue => decide (issue.kind = .missingResult)
    if decide (missingFindings.length ≠ missingIssues.length) ||
        transcript.issues.any fun issue => decide (issue.kind ≠ .missingResult) then
      return blocked [{ reason := .inconsistentReport }]
    match ← missingTailCalls report with
    | none => return blocked [{ reason := .ambiguousTranscript }]
    | some missingCalls =>
      let actions := repairActions report options missingCalls
      return basePlan report options (if actions.isEmpty then .notNeeded else .repairable) actions []

end CodingAgent.Integrity
