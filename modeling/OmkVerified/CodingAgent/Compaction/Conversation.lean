import OmkVerified.CodingAgent.Compaction.BranchSummarization

/-!
# The text of a conversation

`convertToLlm` of `messages.ts` and `serializeConversation` of `compaction/utils.ts`: the messages as a
text that a model is asked to summarize. Texts are sequences of UTF-16 code units, since a text can be
cut between the two units of a character.
-/

namespace CodingAgent

open Lib

/-! ## Messages for a model -/

def compactionSummaryPrefix : String :=
  "The conversation history before this point was compacted into the following summary:\n\n" ++
  "<summary>\n"

def compactionSummarySuffix : String := "\n</summary>"

def branchSummaryPrefix : String :=
  "The following is a summary of a branch that this conversation came back from:\n\n<summary>\n"

def branchSummarySuffix : String := "</summary>"

/-- A field that is a text. -/
def textField (value : Json) (key : String) : String :=
  match value.get? key with
  | some (.str text) => text
  | _ => ""

def bashExecutionToText (msg : Json) : String :=
  let output := textField msg "output"
  let status :=
    if isTruthy (msg.get? "cancelled") then "\n\n(command cancelled)"
    else
      match msg.get? "exitCode" with
      | some (.num code) =>
        if code.mantissa = 0 then ""
        else "\n\nCommand exited with code " ++ String.ofList (Json.formatNumber code)
      | _ => ""
  let truncated :=
    if isTruthy (msg.get? "truncated") && isTruthy (msg.get? "fullOutputPath") then
      "\n\n[Output truncated. Full output: " ++ textField msg "fullOutputPath" ++ "]"
    else ""
  "Ran `" ++ textField msg "command" ++ "`\n" ++
    (if output = "" then "(no output)" else "```\n" ++ output ++ "\n```") ++ status ++ truncated

/-- `[{ type: "text", text }]`. -/
def textContent (text : String) : Json := .arr [.obj [("type", .str "text"), ("text", .str text)]]

/-- A user message in place of another message. -/
def asUserMessage (m : Json) (content : Option Json) : Json :=
  .obj (("role", .str "user") :: optionalField "content" content ++
    optionalField "timestamp" (m.get? "timestamp"))

/-- What `convertToLlm` makes of one message. -/
def convertMessage (m : Json) : Option Json :=
  match m.get? "role" with
  | some (.str "bashExecution") =>
    if isTruthy (m.get? "excludeFromContext") then none
    else some (asUserMessage m (some (textContent (bashExecutionToText m))))
  | some (.str "custom") =>
    match m.get? "content" with
    | some (.str text) => some (asUserMessage m (some (textContent text)))
    | content => some (asUserMessage m content)
  | some (.str "branchSummary") =>
    some (asUserMessage m
      (some (textContent (branchSummaryPrefix ++ textField m "summary" ++ branchSummarySuffix))))
  | some (.str "compactionSummary") =>
    some (asUserMessage m
      (some (textContent
        (compactionSummaryPrefix ++ textField m "summary" ++ compactionSummarySuffix))))
  | some (.str "user") => some m
  | some (.str "assistant") => some m
  | some (.str "toolResult") => some m
  | _ => none

def convertToLlm (messages : List Json) : List Json := messages.filterMap convertMessage

/-! ## Serialization -/

/-- The code units of a text. -/
def codeUnits (text : String) : List Nat := utf16 text.toList

/-- `TOOL_RESULT_MAX_CHARS`. -/
def toolResultMaxChars : Nat := 2000

/-- `TOOL_CALL_ARGUMENT_MAX_CHARS`. -/
def toolCallArgumentMaxChars : Nat := 500

/-- `TOOL_CALLS_MAX_CHARS`. -/
def toolCallsMaxChars : Nat := 4000

def truncateForSummary (text : List Nat) (maxChars : Nat) : List Nat :=
  if text.length ≤ maxChars then text
  else
    text.take maxChars ++
      codeUnits ("\n\n[... " ++ toString (text.length - maxChars) ++ " more characters truncated]")

/-- `parts.join(separator)`. -/
def joinUnits (separator : String) (parts : List (List Nat)) : List Nat :=
  (codeUnits separator).intercalate parts

def stringifyToolCallArgument (value : Json) : List Nat :=
  truncateForSummary (utf16 (Json.stringify value)) toolCallArgumentMaxChars

/-- The call `name(key=value, ...)`. -/
def toolCallText (block : Json) : List Nat :=
  let args :=
    match block.get? "arguments" with
    | some (.obj fields) =>
      fields.map fun field => codeUnits (field.1 ++ "=") ++ stringifyToolCallArgument field.2
    | _ => []
  codeUnits (textField block "name" ++ "(") ++ joinUnits ", " args ++ codeUnits ")"

/-- The texts of the blocks of a type. -/
def blockTexts (content : Option Json) (type key : String) : List (List Nat) :=
  ((elements content).filter fun block => hasType block type).map fun block =>
    codeUnits (textField block key)

/-- The text of a content: a text, or the texts of its blocks. -/
def contentText (content : Option Json) : List Nat :=
  match content with
  | some (.str text) => codeUnits text
  | _ => (blockTexts content "text" "text").flatten

/-- A part of the conversation, when there is something in it. -/
def labelledPart (label : String) (isEmpty : Bool) (text : List Nat) : List (List Nat) :=
  if isEmpty then [] else [codeUnits label ++ text]

/-- The parts that one message adds. -/
def messageParts (msg : Json) : List (List Nat) :=
  let content := msg.get? "content"
  match msg.get? "role" with
  | some (.str "user") =>
    labelledPart "[User]: " (contentText content).isEmpty (contentText content)
  | some (.str "assistant") =>
    let texts := blockTexts content "text" "text"
    let thinking := blockTexts content "thinking" "thinking"
    let toolCalls := ((elements content).filter fun block => hasType block "toolCall").map toolCallText
    labelledPart "[Assistant thinking]: " thinking.isEmpty (joinUnits "\n" thinking) ++
      labelledPart "[Assistant]: " texts.isEmpty (joinUnits "\n" texts) ++
      labelledPart "[Assistant tool calls]: " toolCalls.isEmpty
        (truncateForSummary (joinUnits "; " toolCalls) toolCallsMaxChars)
  | some (.str "toolResult") =>
    let text := (blockTexts content "text" "text").flatten
    labelledPart "[Tool result]: " text.isEmpty (truncateForSummary text toolResultMaxChars)
  | _ => []

def serializeConversation (messages : List Json) : List Nat :=
  joinUnits "\n\n" (messages.flatMap messageParts)

end CodingAgent
