import OmkVerified.Lib.Json
import OmkVerified.Lib.JsNumber
import OmkVerified.Lib.OrderedMap

/-!
# Messages for a provider

`packages/ai/src/providers/transform-messages.ts`: a conversation is rewritten for a model, and tool
results are added and dropped so that a provider accepts it. Fields that the rewriting only copies
(usage, diagnostics, response ids, details) are left out.
-/

namespace Ai

open Lib

structure TextContent where
  text : String
  textSignature : Option String := none

inductive ContentBlock
  | text (block : TextContent)
  | image (data mimeType : String)

structure ThinkingContent where
  thinking : String
  thinkingSignature : Option String := none
  redacted : Bool := false

structure ToolCall where
  id : String
  name : String
  arguments : List (String × Json) := []
  thoughtSignature : Option String := none

inductive AssistantBlock
  | text (block : TextContent)
  | thinking (block : ThinkingContent)
  | toolCall (call : ToolCall)

inductive StopReason
  | stop
  | length
  | toolUse
  | error
  | aborted
deriving DecidableEq

structure AssistantMessage where
  content : List AssistantBlock
  api : String
  provider : String
  model : String
  stopReason : StopReason
  timestamp : Decimal

structure ToolResultMessage where
  toolCallId : String
  toolName : String
  content : List ContentBlock
  isError : Bool
  timestamp : Decimal

/-- The content of a user message: a text or a list of blocks. -/
inductive UserContent
  | plain (text : String)
  | blocks (blocks : List ContentBlock)

structure UserMessage where
  content : UserContent
  timestamp : Decimal

inductive Message
  | user (message : UserMessage)
  | assistant (message : AssistantMessage)
  | toolResult (message : ToolResultMessage)

structure Model where
  id : String
  api : String
  provider : String
  /-- `model.input.includes("image")`. -/
  acceptsImages : Bool

/-- `normalizeToolCallId`. -/
abbrev Normalizer := String → Model → AssistantMessage → String

def AssistantBlock.call? : AssistantBlock → Option ToolCall
  | .toolCall call => some call
  | _ => none

def AssistantMessage.toolCalls (message : AssistantMessage) : List ToolCall :=
  message.content.filterMap AssistantBlock.call?

/-! ## Images -/

/-- `NON_VISION_USER_IMAGE_PLACEHOLDER`. -/
def nonVisionUserImagePlaceholder : String := "(image omitted: model does not support images)"

/-- `NON_VISION_TOOL_IMAGE_PLACEHOLDER`. -/
def nonVisionToolImagePlaceholder : String := "(tool image omitted: model does not support images)"

/-- The loop over the blocks; of several placeholders in a row one is kept. -/
def replaceImages (placeholder : String) (previousWasPlaceholder : Bool) :
    List ContentBlock → List ContentBlock
  | [] => []
  | .image _ _ :: content =>
    if previousWasPlaceholder then replaceImages placeholder true content
    else .text { text := placeholder } :: replaceImages placeholder true content
  | .text block :: content =>
    .text block :: replaceImages placeholder (block.text = placeholder) content

def replaceImagesWithPlaceholder (content : List ContentBlock) (placeholder : String) :
    List ContentBlock := replaceImages placeholder false content

/-- The content of a tool result for the model. -/
def downgradeToolContent (model : Model) (content : List ContentBlock) : List ContentBlock :=
  if model.acceptsImages then content
  else replaceImagesWithPlaceholder content nonVisionToolImagePlaceholder

def downgradeMessage (model : Model) : Message → Message
  | .user message =>
    match message.content with
    | .plain _ => .user message
    | .blocks blocks =>
      .user
        { message with
          content :=
            .blocks
              (if model.acceptsImages then blocks
               else replaceImagesWithPlaceholder blocks nonVisionUserImagePlaceholder) }
  | .toolResult message =>
    .toolResult { message with content := downgradeToolContent model message.content }
  | .assistant message => .assistant message

def downgradeUnsupportedImages (messages : List Message) (model : Model) : List Message :=
  messages.map (downgradeMessage model)

/-! ## The first pass -/

section FirstPass

variable (model : Model) (normalizeToolCallId : Option Normalizer)

def isSameModel (message : AssistantMessage) : Bool :=
  message.provider = model.provider && message.api = model.api && message.model = model.id

/-- The id under which a call of a message is replayed. -/
def replayId (source : AssistantMessage) (call : ToolCall) : String :=
  match normalizeToolCallId with
  | some normalize => if isSameModel model source then call.id else normalize call.id model source
  | none => call.id

def rewriteThinking (sameModel : Bool) (block : ThinkingContent) : List AssistantBlock :=
  if block.redacted then if sameModel then [.thinking block] else []
  else if sameModel && (block.thinkingSignature.filter (· ≠ "")).isSome then [.thinking block]
  else if trim block.thinking.toList = [] then []
  else if sameModel then [.thinking block]
  else [.text { text := block.thinking }]

def rewriteBlock (source : AssistantMessage) : AssistantBlock → List AssistantBlock
  | .thinking block => rewriteThinking (isSameModel model source) block
  | .text block => if isSameModel model source then [.text block] else [.text { text := block.text }]
  | .toolCall call =>
    let call' :=
      if isSameModel model source then call
      else { call with thoughtSignature := call.thoughtSignature.filter (· = "") }
    [.toolCall { call' with id := replayId model normalizeToolCallId source call }]

def rewriteAssistant (message : AssistantMessage) : AssistantMessage :=
  { message with content := message.content.flatMap (rewriteBlock model normalizeToolCallId message) }

/-- What a call adds to `toolCallIdMap`. -/
def registerCall (source : AssistantMessage) (toolCallIdMap : OrderedMap String String)
    (call : ToolCall) : OrderedMap String String :=
  let normalizedId := replayId model normalizeToolCallId source call
  if normalizedId ≠ call.id then toolCallIdMap.set call.id normalizedId else toolCallIdMap

def registerCalls (toolCallIdMap : OrderedMap String String) : Message → OrderedMap String String
  | .assistant message =>
    message.toolCalls.foldl (registerCall model normalizeToolCallId message) toolCallIdMap
  | _ => toolCallIdMap

/-- The id of a result after a look at the map. -/
def mappedId (toolCallIdMap : OrderedMap String String) (toolCallId : String) : String :=
  match toolCallIdMap.get? toolCallId with
  | some normalizedId => if normalizedId ≠ "" then normalizedId else toolCallId
  | none => toolCallId

def rewriteMessage (toolCallIdMap : OrderedMap String String) : Message → Message
  | .user message => .user message
  | .toolResult message =>
    .toolResult { message with toolCallId := mappedId toolCallIdMap message.toolCallId }
  | .assistant message => .assistant (rewriteAssistant model normalizeToolCallId message)

/-- The messages are rewritten one after the other. -/
def firstPass (toolCallIdMap : OrderedMap String String) : List Message → List Message
  | [] => []
  | message :: messages =>
    rewriteMessage model normalizeToolCallId toolCallIdMap message ::
      firstPass (registerCalls model normalizeToolCallId toolCallIdMap message) messages

end FirstPass

/-! ## The second pass -/

structure ReplayState where
  result : List Message
  pendingToolCalls : List ToolCall
  existingToolResultIds : List String
  liveToolCallIds : List String

/-- The result that stands in for a missing one. -/
def syntheticToolResult (now : Decimal) (call : ToolCall) : Message :=
  .toolResult
    { toolCallId := call.id
      toolName := call.name
      content := [.text { text := "No result provided" }]
      isError := true
      timestamp := now }

def insertSyntheticToolResults (now : Decimal) (state : ReplayState) : ReplayState :=
  if 0 < state.pendingToolCalls.length then
    { state with
      result := state.result ++
        (state.pendingToolCalls.filter fun call =>
          !state.existingToolResultIds.contains call.id).map (syntheticToolResult now)
      pendingToolCalls := []
      existingToolResultIds := [] }
  else state

/-- An incomplete turn is not replayed. -/
def isFailed (message : AssistantMessage) : Bool :=
  message.stopReason = .error || message.stopReason = .aborted

def trimId (id : String) : String := String.ofList (trim id.toList)

def replayMessage (now : Decimal) (state : ReplayState) : Message → ReplayState
  | .assistant message =>
    let state := insertSyntheticToolResults now state
    if isFailed message then state
    else
      let state :=
        if 0 < message.toolCalls.length then
          { state with
            pendingToolCalls := message.toolCalls
            existingToolResultIds := []
            liveToolCallIds :=
              state.liveToolCallIds ++ (message.toolCalls.map (·.id)).filter (· ≠ "") }
        else state
      { state with result := state.result ++ [.assistant message] }
  | .toolResult message =>
    let id := trimId message.toolCallId
    if id = "" ∨ id ∉ state.liveToolCallIds then state
    else
      { state with
        existingToolResultIds := state.existingToolResultIds ++ [id]
        result := state.result ++ [.toolResult { message with toolCallId := id }] }
  | .user message =>
    let state := insertSyntheticToolResults now state
    { state with result := state.result ++ [.user message] }

/-- `now` is the time of the synthetic results. -/
def transformMessages (now : Decimal) (messages : List Message) (model : Model)
    (normalizeToolCallId : Option Normalizer) : List Message :=
  let imageAwareMessages := downgradeUnsupportedImages messages model
  let transformed := firstPass model normalizeToolCallId .empty imageAwareMessages
  (insertSyntheticToolResults now (transformed.foldl (replayMessage now) ⟨[], [], [], []⟩)).result

end Ai
