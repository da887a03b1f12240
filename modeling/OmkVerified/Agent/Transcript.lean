import OmkVerified.Agent.Message
import OmkVerified.Lib.OrderedMap

/-!
# Transcript integrity

`packages/agent/src/tool-transcript-integrity.ts`: the inspector that checks a message list before
every provider request, and the repair that closes unanswered tail calls with synthetic results.

The inspector first accounts for call and result ids over the whole list, then makes one
left-to-right pass that checks the order. The second pass stops at the first interruption (`break`),
so it is modelled as a function that returns the issues of that pass.
-/

namespace Agent

open Lib (Json OrderedMap)

inductive TranscriptIntegrityIssueKind
  | missingResult
  | duplicateResult
  | orphanResult
  | duplicateCallId
  | interleavedNonResult
deriving DecidableEq

/-- The word that stands for an issue kind in messages. -/
def TranscriptIntegrityIssueKind.word : TranscriptIntegrityIssueKind → String
  | .missingResult => "missing_result"
  | .duplicateResult => "duplicate_result"
  | .orphanResult => "orphan_result"
  | .duplicateCallId => "duplicate_call_id"
  | .interleavedNonResult => "interleaved_non_result"

structure TranscriptIntegrityIssue where
  kind : TranscriptIntegrityIssueKind
  toolCallId : String
  toolName : Option String

structure TranscriptIntegrityReport where
  ok : Bool
  issues : List TranscriptIntegrityIssue

/-- The three maps filled by the accounting loop of `inspectTranscriptIntegrity`. -/
structure Accounting where
  callIdCount : OrderedMap String Nat
  resultIdCount : OrderedMap String Nat
  callToolName : OrderedMap String String

namespace Accounting

def empty : Accounting := ⟨.empty, .empty, .empty⟩

/-- One tool call block: count its id and remember the first name seen for it. -/
def addCall (a : Accounting) (call : ToolCall) : Accounting :=
  { a with
    callIdCount := a.callIdCount.bump call.id
    callToolName :=
      if a.callToolName.has call.id then a.callToolName else a.callToolName.set call.id call.name }

/-- One tool result: count its call id. -/
def addResult (a : Accounting) (id : String) : Accounting :=
  { a with resultIdCount := a.resultIdCount.bump id }

/-- One message of the accounting loop. -/
def addMessage (a : Accounting) : AgentMessage → Accounting
  | .assistant message => message.toolCalls.foldl addCall a
  | .toolResult message => a.addResult message.toolCallId
  | _ => a

/-- The accounting loop. -/
def ofMessages (messages : List AgentMessage) : Accounting := messages.foldl addMessage empty

/-- The issues reported after the accounting loop: duplicate calls, duplicate results, orphan
results and missing results, in this order. -/
def issues (a : Accounting) : List TranscriptIntegrityIssue :=
  (a.callIdCount.entries.filter fun e => decide (1 < e.2)).map
    (fun e => ⟨.duplicateCallId, e.1, a.callToolName.get? e.1⟩) ++
  (a.resultIdCount.entries.filter fun e => decide (1 < e.2)).map
    (fun e => ⟨.duplicateResult, e.1, none⟩) ++
  (a.resultIdCount.keys.filter fun id => !a.callIdCount.has id).map
    (fun id => ⟨.orphanResult, id, none⟩) ++
  (a.callIdCount.keys.filter fun id => !a.resultIdCount.has id).map
    (fun id => ⟨.missingResult, id, a.callToolName.get? id⟩)

end Accounting

/-- The calls still waiting for a result, with their tool names. -/
abbrev Pending := OrderedMap String String

/-- One `interleaved_non_result` issue for every call still pending. -/
def interrupted (pending : Pending) : List TranscriptIntegrityIssue :=
  pending.entries.map fun e => ⟨.interleavedNonResult, e.1, some e.2⟩

/-- The ordering pass of `inspectTranscriptIntegrity`. `known` is `callIdCount.has`. -/
def orderingIssues (known : String → Bool) :
    List AgentMessage → Pending → Bool → List TranscriptIntegrityIssue
  | [], _, _ => []
  | .assistant message :: rest, pending, resultsRegion =>
    if message.toolCalls.length > 0 then
      if pending.size > 0 then interrupted pending
      else
        orderingIssues known rest (message.toolCalls.foldl (fun p c => p.set c.id c.name) pending)
          true
    else if resultsRegion && decide (pending.size > 0) then interrupted pending
    else orderingIssues known rest pending resultsRegion
  | .toolResult message :: rest, pending, resultsRegion =>
    if resultsRegion && pending.has message.toolCallId then
      let pending := pending.delete message.toolCallId
      orderingIssues known rest pending (if pending.size = 0 then false else resultsRegion)
    else if known message.toolCallId then [⟨.interleavedNonResult, message.toolCallId, none⟩]
    -- A result for an unknown id is already reported as an orphan.
    else orderingIssues known rest pending resultsRegion
  | _ :: rest, pending, resultsRegion =>
    if resultsRegion && decide (pending.size > 0) then interrupted pending
    else orderingIssues known rest pending resultsRegion

/-- `inspectTranscriptIntegrity`. -/
def inspectTranscriptIntegrity (messages : List AgentMessage) : TranscriptIntegrityReport :=
  let accounting := Accounting.ofMessages messages
  let issues := accounting.issues ++
    orderingIssues accounting.callIdCount.has messages .empty false
  ⟨issues.length = 0, issues⟩

/-- The dispositions of a synthetic result. -/
inductive SyntheticDisposition
  | aborted
  | skipped
deriving DecidableEq

def SyntheticDisposition.toDisposition : SyntheticDisposition → ToolCallDisposition
  | .aborted => .aborted
  | .skipped => .skipped

/-- The envelope of a synthetic result: it closes the transcript and never claims that the tool
ran. -/
def syntheticEnvelope (reason : String) (disposition : SyntheticDisposition) : ToolResultEnvelope where
  synthetic := true
  disposition := disposition.toDisposition
  reason := some reason
  timeoutMs := none
  executionStarted := false
  valid := by cases disposition <;> rfl

/-- `createSyntheticToolResult`. -/
def createSyntheticToolResult (toolCallId toolName reason : String) (timestamp : Nat)
    (disposition : SyntheticDisposition := .aborted) : ToolResultMessage where
  toolCallId := toolCallId
  toolName := toolName
  content := [.text reason]
  details := some (.obj [("omk", (syntheticEnvelope reason disposition).toJson)])
  isError := true
  timestamp := timestamp

/-- The reasons for which `repairTranscriptIntegrity` throws, in the order of its checks. -/
inductive RepairFailure
  | detected (issue : TranscriptIntegrityIssue)
  | withoutAssistant
  | trailingNotAssistant
  | notInTrailingAssistant (id : String)
  | nonResultAfterAssistant

/-- The message of the thrown `TranscriptIntegrityError`. -/
def RepairFailure.message : RepairFailure → String
  | .detected issue =>
    s!"Cannot repair transcript: detected {issue.kind.word} for tool call {issue.toolCallId}"
  | .withoutAssistant => "Cannot repair transcript: missing results without an assistant message"
  | .trailingNotAssistant => "Cannot repair transcript: trailing message is not assistant"
  | .notInTrailingAssistant id =>
    s!"Cannot repair transcript: missing result for {id} is not in the trailing assistant message"
  | .nonResultAfterAssistant =>
    "Cannot repair transcript: non-result message after the trailing assistant message"

structure TranscriptIntegrityError where
  failure : RepairFailure
  report : TranscriptIntegrityReport

/-- `isAssistantMessage`. -/
def AgentMessage.isAssistant : AgentMessage → Bool
  | .assistant _ => true
  | _ => false

/-- `lastAssistantIndex`, with `none` for `-1`. -/
def lastAssistantIndex (messages : List AgentMessage) : Option Nat :=
  (messages.reverse.findIdx? AgentMessage.isAssistant).map fun i => messages.length - 1 - i

/-- One synthetic error result for each of `calls`, in order. `now i` is the `Date.now()` of the
`i`-th result. -/
def syntheticResults (text : String) : (now : Nat → Nat) → List ToolCall → List ToolResultMessage
  | _, [] => []
  | now, call :: calls =>
    createSyntheticToolResult call.id call.name text (now 0) ::
      syntheticResults text (fun i => now (i + 1)) calls

/-- The text of the synthetic results of a repair. -/
def repairText (reason : Option String) : String :=
  reason.getD "Tool result missing; synthesized by transcript repair"

/-- `repairTranscriptIntegrity`. -/
def repairTranscriptIntegrity (messages : List AgentMessage) (reason : Option String)
    (now : Nat → Nat) : Except TranscriptIntegrityError (List AgentMessage) :=
  let report := inspectTranscriptIntegrity messages
  let fail (failure : RepairFailure) : Except TranscriptIntegrityError (List AgentMessage) :=
    .error ⟨failure, report⟩
  match report.issues.find? fun issue => decide (issue.kind ≠ .missingResult) with
  | some issue => fail (.detected issue)
  | none =>
    let missingIds := report.issues.map TranscriptIntegrityIssue.toolCallId
    if missingIds.length = 0 then .ok messages
    else
      match lastAssistantIndex messages with
      | none => fail .withoutAssistant
      | some index =>
        match messages[index]? with
        | some (.assistant lastAssistant) =>
          let tailCalls := lastAssistant.toolCalls
          let tailCallIds := tailCalls.map ToolCall.id
          match missingIds.find? fun id => decide (id ∉ tailCallIds) with
          | some id => fail (.notInTrailingAssistant id)
          | none =>
            if (messages.drop (index + 1)).all fun message =>
                match message with
                | .toolResult result => decide (result.toolCallId ∈ tailCallIds)
                | _ => false
            then
              let missingCalls := tailCalls.filter fun call => decide (call.id ∈ missingIds)
              .ok (messages ++
                (syntheticResults (repairText reason) now missingCalls).map .toolResult)
            else fail .nonResultAfterAssistant
        | _ => fail .trailingNotAssistant

end Agent

/-!
# The transcript grammar

What a provider accepts: a sequence of messages in which every assistant message with tool calls is
followed at once by the results of exactly these calls, in any order, and in which no result stands
anywhere else. Call ids are distinct over the whole transcript.
-/

namespace Agent

/-- The ids of all tool calls of a transcript, in order. -/
def callIds (messages : List AgentMessage) : List String :=
  messages.flatMap fun message => message.toolCalls.map ToolCall.id

/-- The call ids of all tool results of a transcript, in order. -/
def resultIds (messages : List AgentMessage) : List String :=
  messages.filterMap AgentMessage.answers

/-- A sequence of closed turns. -/
inductive Turns : List AgentMessage → Prop
  | nil : Turns []
  /-- A message without tool calls that is not a tool result. -/
  | plain {message : AgentMessage} {rest : List AgentMessage} (hcalls : message.toolCalls = [])
      (hanswers : message.answers = none) (hrest : Turns rest) : Turns (message :: rest)
  /-- An assistant message with its tool calls answered. -/
  | turn {message : AssistantMessage} {results : List ToolResultMessage}
      {rest : List AgentMessage} (hcalls : message.toolCalls ≠ [])
      (hresults : (results.map ToolResultMessage.toolCallId).Perm
        (message.toolCalls.map ToolCall.id))
      (hrest : Turns rest) :
      Turns (.assistant message :: (results.map AgentMessage.toolResult ++ rest))

/-- The transcripts of the grammar. -/
structure WellFormed (messages : List AgentMessage) : Prop where
  distinct : (callIds messages).Nodup
  turns : Turns messages

/-- The message at position `i` is an assistant message with the tool calls `calls`. -/
def CallsAt (messages : List AgentMessage) (i : Nat) (calls : List ToolCall) : Prop :=
  ∃ message : AssistantMessage, messages[i]? = some (.assistant message) ∧ message.toolCalls = calls

/-- The grammar position by position: after an assistant message with `k > 0` calls come `k` results
whose ids are a permutation of the call ids, and every result stands in such a window. -/
structure ClosedTurns (messages : List AgentMessage) : Prop where
  answered : ∀ i calls, CallsAt messages i calls → calls ≠ [] →
    ∃ results : List ToolResultMessage, results.length = calls.length ∧
      (messages.drop (i + 1)).take calls.length = results.map AgentMessage.toolResult ∧
      (results.map ToolResultMessage.toolCallId).Perm (calls.map ToolCall.id)
  owned : ∀ (j : Nat) (result : ToolResultMessage), messages[j]? = some (.toolResult result) →
    ∃ i calls, CallsAt messages i calls ∧ i < j ∧ j ≤ i + calls.length

/-- The calls without a result, in call order. -/
def unansweredCalls (messages : List AgentMessage) : List ToolCall :=
  (messages.flatMap AgentMessage.toolCalls).filter fun call =>
    decide (call.id ∉ resultIds messages)

@[simp] theorem callIds_nil : callIds [] = [] := rfl

@[simp] theorem callIds_cons (message : AgentMessage) (messages : List AgentMessage) :
    callIds (message :: messages) = message.toolCalls.map ToolCall.id ++ callIds messages := by
  simp [callIds]

@[simp] theorem callIds_append (ms ns : List AgentMessage) :
    callIds (ms ++ ns) = callIds ms ++ callIds ns := by
  simp [callIds]

@[simp] theorem callIds_map_toolResult (results : List ToolResultMessage) :
    callIds (results.map AgentMessage.toolResult) = [] := by
  induction results with
  | nil => rfl
  | cons r results ih => simp [AgentMessage.toolCalls, ih]

@[simp] theorem resultIds_nil : resultIds [] = [] := rfl

@[simp] theorem resultIds_append (ms ns : List AgentMessage) :
    resultIds (ms ++ ns) = resultIds ms ++ resultIds ns := by
  simp [resultIds]

@[simp] theorem resultIds_toolResult (r : ToolResultMessage) (ms : List AgentMessage) :
    resultIds (.toolResult r :: ms) = r.toolCallId :: resultIds ms := by
  simp [resultIds, AgentMessage.answers]

theorem resultIds_cons_of_answers {message : AgentMessage} (h : message.answers = none)
    (ms : List AgentMessage) : resultIds (message :: ms) = resultIds ms := by
  simp [resultIds, h]

@[simp] theorem resultIds_map_toolResult (results : List ToolResultMessage) :
    resultIds (results.map AgentMessage.toolResult) = results.map ToolResultMessage.toolCallId := by
  induction results with
  | nil => rfl
  | cons r results ih => simp [ih]

end Agent
