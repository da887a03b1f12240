import OmkVerified.Lib.Json

/-!
# Agent messages

The messages of an agent transcript (`packages/ai/src/types.ts`) and the disposition envelope that
the executor stamps on every terminal tool result (`packages/agent/src/types.ts`). Fields that no
modelled function reads or writes are left out.
-/

namespace Agent

open Lib (Json Decimal)

/-- A tool call block of an assistant message. -/
structure ToolCall where
  id : String
  name : String
  arguments : Json
deriving Inhabited

/-- A content block of an assistant message. -/
inductive AssistantBlock
  | text (text : String)
  | thinking (thinking : String)
  | toolCall (call : ToolCall)

/-- A content block of a user message or of a tool result. -/
inductive ContentBlock
  | text (text : String)
  | image (data mimeType : String)

/-- Token usage reported by a provider. -/
structure Usage where
  input : Decimal
  output : Decimal
  cacheRead : Decimal
  cacheWrite : Decimal
  totalTokens : Decimal
  costTotal : Decimal

/-- `EMPTY_USAGE`. -/
def emptyUsage : Usage := ⟨.zero, .zero, .zero, .zero, .zero, .zero⟩

inductive StopReason
  | stop
  | length
  | toolUse
  | error
  | aborted
deriving DecidableEq

structure AssistantMessage where
  content : List AssistantBlock
  api : String
  provider : String
  model : String
  usage : Usage
  stopReason : StopReason
  errorMessage : Option String
  timestamp : Nat

structure ToolResultMessage where
  toolCallId : String
  toolName : String
  content : List ContentBlock
  details : Option Json
  isError : Bool
  timestamp : Nat

/-- The JSON value of a content block. -/
def ContentBlock.toJson : ContentBlock → Json
  | .text content => .obj [("type", .str "text"), ("text", .str content)]
  | .image data mimeType =>
    .obj [("type", .str "image"), ("data", .str data), ("mimeType", .str mimeType)]

/-- The JSON value of a tool result, with its fields in the order of `createSyntheticToolResult`. -/
def ToolResultMessage.toJson (message : ToolResultMessage) : Json :=
  .obj <|
    [("role", .str "toolResult"), ("toolCallId", .str message.toolCallId),
      ("toolName", .str message.toolName), ("content", .arr (message.content.map ContentBlock.toJson))] ++
    (message.details.map fun details => ("details", details)).toList ++
    [("isError", .bool message.isError), ("timestamp", .num (.ofNat message.timestamp))]

/-- A transcript message. `custom` stands for every message whose role is neither `user`,
`assistant` nor `toolResult`. -/
inductive AgentMessage
  | user (content : List ContentBlock) (timestamp : Nat)
  | assistant (message : AssistantMessage)
  | toolResult (message : ToolResultMessage)
  | custom (payload : Json)

/-- `message.content.filter(isToolCallBlock)`. -/
def AssistantMessage.toolCalls (message : AssistantMessage) : List ToolCall :=
  message.content.filterMap fun
    | .toolCall call => some call
    | _ => none

/-- The tool calls of a message: none unless it is an assistant message. -/
def AgentMessage.toolCalls : AgentMessage → List ToolCall
  | .assistant message => message.toolCalls
  | _ => []

/-- The call id that a message answers, if it is a tool result. -/
def AgentMessage.answers : AgentMessage → Option String
  | .toolResult message => some message.toolCallId
  | _ => none

inductive ToolCallDisposition
  | completed
  | failed
  | blocked
  | skipped
  | aborted
  | timeout
deriving DecidableEq

/-- The word that stands for a disposition in the persisted envelope. -/
def ToolCallDisposition.word : ToolCallDisposition → String
  | .completed => "completed"
  | .failed => "failed"
  | .blocked => "blocked"
  | .skipped => "skipped"
  | .aborted => "aborted"
  | .timeout => "timeout"

/-- The input of `createToolResultEnvelope`. -/
structure ToolResultEnvelopeInput where
  synthetic : Bool
  disposition : ToolCallDisposition
  reason : Option String
  timeoutMs : Option Decimal
  executionStarted : Bool

/-- The disposition-specific executor invariants of `isToolResultEnvelope`. -/
def isToolResultEnvelope (value : ToolResultEnvelopeInput) : Bool :=
  (value.timeoutMs.all fun ms => decide (0 < ms.mantissa)) &&
  match value.disposition with
  | .completed => !value.synthetic && value.executionStarted && value.timeoutMs.isNone
  | .failed => (value.executionStarted || value.synthetic) && value.timeoutMs.isNone
  | .blocked | .skipped => value.synthetic && !value.executionStarted && value.timeoutMs.isNone
  | .aborted => value.synthetic && value.timeoutMs.isNone
  | .timeout => value.synthetic && value.executionStarted && value.timeoutMs.isSome

/-- A validated executor envelope. -/
structure ToolResultEnvelope extends ToolResultEnvelopeInput where
  valid : isToolResultEnvelope toToolResultEnvelopeInput = true

/-- The JSON form of an envelope, with the optional fields only when they are present. -/
def ToolResultEnvelope.toJson (envelope : ToolResultEnvelope) : Json :=
  .obj <|
    [("schema", .str "tool-result/v2"), ("synthetic", .bool envelope.synthetic),
      ("disposition", .str envelope.disposition.word)] ++
    (envelope.reason.map fun reason => ("reason", Json.str reason)).toList ++
    (envelope.timeoutMs.map fun ms => ("timeoutMs", Json.num ms)).toList ++
    [("executionStarted", .bool envelope.executionStarted)]

end Agent
