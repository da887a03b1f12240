import OmkVerified.CodingAgent.Session.Context

/-!
# The shapes of session records

Embedding of the checks of `session-integrity.ts` on single records: the header, the entries of each
type and the messages that they carry. Each check reads the fields of a parsed JSON value.
-/

namespace CodingAgent.Integrity

open Lib

/-! ## Fields -/

/-- `nonEmptyString(value)`. -/
def nonEmptyString : Option Json → Bool
  | some (.str text) => decide (text ≠ "")
  | _ => false

/-- `typeof value === "string"`. -/
def isText : Option Json → Bool
  | some (.str _) => true
  | _ => false

/-- `typeof value === "boolean"`. -/
def isFlag : Option Json → Bool
  | some (.bool _) => true
  | _ => false

/-- `typeof value === "number"`. -/
def isNumber : Option Json → Bool
  | some (.num _) => true
  | _ => false

/-- `value === text`. -/
def isLiteral (value : Option Json) (text : String) : Bool := decide (value = some (.str text))

/-- `value === undefined || check(value)`. -/
def optionally (check : Option Json → Bool) (value : Option Json) : Bool :=
  value.isNone || check value

/-- `isRecord(value)`. -/
def isObject (value : Option Json) : Bool := value.any Json.isRecord

/-- `Array.isArray(value) && value.every(check)`. -/
def isArrayOf (check : Json → Bool) : Option Json → Bool
  | some (.arr items) => items.all check
  | _ => false

/-- The decimal rounds to a finite binary64 number: it is below the middle between the greatest one
and the next power of two. -/
def roundsFinite (n : Decimal) : Bool :=
  if 0 ≤ n.exponent then
    decide (n.exponent ≤ 310) &&
      decide (n.mantissa.natAbs * 10 ^ n.exponent.toNat < 2 ^ 1024 - 2 ^ 970)
  else decide (n.mantissa.natAbs < (2 ^ 1024 - 2 ^ 970) * 10 ^ (-n.exponent).toNat)

/-- The decimal is not negative, or rounds to zero. -/
def roundsNonNegative (n : Decimal) : Bool :=
  decide (0 ≤ n.mantissa) ||
    (decide (n.exponent < 0) && decide (n.mantissa.natAbs * 2 ^ 1075 ≤ 10 ^ (-n.exponent).toNat))

/-- `finiteNonNegativeNumber(value)`. -/
def finiteNonNegativeNumber : Option Json → Bool
  | some (.num n) => roundsFinite n && roundsNonNegative n
  | _ => false

/-- `validEntryTimestamp(value)`. -/
def validEntryTimestamp (platform : Platform) (value : Option Json) : Bool :=
  nonEmptyString value && (platform.getTime value).any fun time => decide (0 ≤ time.mantissa)

/-! ## Messages -/

/-- `validTextContent(value)`. -/
def validTextContent (value : Json) : Bool :=
  isLiteral (value.get? "type") "text" && isText (value.get? "text") &&
    optionally isText (value.get? "textSignature")

/-- `validImageContent(value)`. -/
def validImageContent (value : Json) : Bool :=
  isLiteral (value.get? "type") "image" && isText (value.get? "data") &&
    isText (value.get? "mimeType")

/-- `validThinkingContent(value)`. -/
def validThinkingContent (value : Json) : Bool :=
  isLiteral (value.get? "type") "thinking" && isText (value.get? "thinking") &&
    optionally isText (value.get? "thinkingSignature") && optionally isFlag (value.get? "redacted")

/-- `validToolCall(value)`. -/
def validToolCall (value : Json) : Bool :=
  isLiteral (value.get? "type") "toolCall" && nonEmptyString (value.get? "id") &&
    nonEmptyString (value.get? "name") && isObject (value.get? "arguments") &&
    optionally isText (value.get? "thoughtSignature")

/-- A block that is text or an image. -/
def validUserBlock (value : Json) : Bool := validTextContent value || validImageContent value

/-- A block of an assistant message. -/
def validAssistantBlock (value : Json) : Bool :=
  validTextContent value || validThinkingContent value || validToolCall value

/-- `validUserContent(value)`. -/
def validUserContent (value : Option Json) : Bool := isText value || isArrayOf validUserBlock value

/-- `keys.every((key) => finiteNonNegativeNumber(value[key]))`. -/
def validCounts (keys : List String) (value : Json) : Bool :=
  keys.all fun key => finiteNonNegativeNumber (value.get? key)

/-- `validUsage(value)`. -/
def validUsage (value : Option Json) : Bool :=
  value.any fun usage =>
    isObject (usage.get? "cost") &&
      validCounts ["input", "output", "cacheRead", "cacheWrite", "totalTokens"] usage &&
      (usage.get? "cost").any (validCounts ["input", "output", "cacheRead", "cacheWrite", "total"])

/-- The error of a diagnostic. -/
def validDiagnosticError (error : Option Json) : Bool :=
  error.any fun error =>
    isText (error.get? "message") && optionally isText (error.get? "name") &&
      optionally isText (error.get? "stack") &&
      optionally (fun code => isText code || isNumber code) (error.get? "code")

/-- `validDiagnostic(value)`. -/
def validDiagnostic (value : Json) : Bool :=
  isText (value.get? "type") && finiteNonNegativeNumber (value.get? "timestamp") &&
    optionally isObject (value.get? "details") && optionally validDiagnosticError (value.get? "error")

/-- The stop reasons of an assistant message. -/
def stopReasons : List String := ["stop", "length", "toolUse", "error", "aborted"]

/-- The branch `assistant` of `validAgentMessage`. -/
def validAssistant (value : Json) : Bool :=
  isArrayOf validAssistantBlock (value.get? "content") && nonEmptyString (value.get? "api") &&
    nonEmptyString (value.get? "provider") && nonEmptyString (value.get? "model") &&
    optionally isText (value.get? "responseModel") && optionally isText (value.get? "responseId") &&
    optionally (isArrayOf validDiagnostic) (value.get? "diagnostics") &&
    validUsage (value.get? "usage") &&
    (stopReasons.any fun reason => isLiteral (value.get? "stopReason") reason) &&
    optionally isText (value.get? "errorMessage")

/-- The branch `toolResult` of `validAgentMessage`. -/
def validToolResult (value : Json) : Bool :=
  nonEmptyString (value.get? "toolCallId") && nonEmptyString (value.get? "toolName") &&
    isArrayOf validUserBlock (value.get? "content") && isFlag (value.get? "isError")

/-- The branch `bashExecution` of `validAgentMessage`. -/
def validBashExecution (value : Json) : Bool :=
  isText (value.get? "command") && isText (value.get? "output") &&
    optionally finiteNonNegativeNumber (value.get? "exitCode") && isFlag (value.get? "cancelled") &&
    isFlag (value.get? "truncated") && optionally isText (value.get? "fullOutputPath") &&
    optionally isFlag (value.get? "excludeFromContext")

/-- The fields of a custom message, which a custom message entry has itself. -/
def validCustom (value : Json) : Bool :=
  nonEmptyString (value.get? "customType") && validUserContent (value.get? "content") &&
    isFlag (value.get? "display")

/-- The switch of `validAgentMessage`. -/
def validRole (value : Json) : (role : String) → Bool
  | "user" => validUserContent (value.get? "content")
  | "assistant" => validAssistant value
  | "toolResult" => validToolResult value
  | "bashExecution" => validBashExecution value
  | "custom" => validCustom value
  | "branchSummary" => isText (value.get? "summary") && nonEmptyString (value.get? "fromId")
  | "compactionSummary" =>
    isText (value.get? "summary") && finiteNonNegativeNumber (value.get? "tokensBefore")
  | _ => false

/-- `validAgentMessage(value)`. -/
def validAgentMessage (value : Option Json) : Bool :=
  value.any fun value =>
    finiteNonNegativeNumber (value.get? "timestamp") &&
      match value.get? "role" with
      | some (.str role) => validRole value role
      | _ => false

/-! ## Entries -/

/-- `SUPPORTED_ENTRY_TYPES`. -/
def supportedEntryTypes : List String :=
  ["message", "thinking_level_change", "model_change", "compaction", "branch_summary", "custom",
    "custom_message", "label", "session_info"]

/-- The switch of `validEntryShape`. -/
def validPayload (value : Json) : (type : String) → Bool
  | "message" => validAgentMessage (value.get? "message")
  | "thinking_level_change" => isText (value.get? "thinkingLevel")
  | "model_change" => nonEmptyString (value.get? "provider") && nonEmptyString (value.get? "modelId")
  | "compaction" =>
    isText (value.get? "summary") && nonEmptyString (value.get? "firstKeptEntryId") &&
      finiteNonNegativeNumber (value.get? "tokensBefore")
  | "branch_summary" => nonEmptyString (value.get? "fromId") && isText (value.get? "summary")
  | "custom" => nonEmptyString (value.get? "customType")
  | "custom_message" => validCustom value
  | "label" => nonEmptyString (value.get? "targetId") && optionally isText (value.get? "label")
  | "session_info" => optionally isText (value.get? "name")
  | _ => false

/-- `validEntryShape(value)`. -/
def validEntryShape (platform : Platform) (value : Json) : Bool :=
  match value.get? "type" with
  | some (.str type) =>
    supportedEntryTypes.contains type && nonEmptyString (value.get? "id") &&
      (decide (value.get? "parentId" = some .null) || nonEmptyString (value.get? "parentId")) &&
      validEntryTimestamp platform (value.get? "timestamp") && validPayload value type
  | _ => false

end CodingAgent.Integrity
