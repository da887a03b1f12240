import OmkVerified.Lib.Pattern
import OmkVerified.CodingAgent.Session.Transaction

/-!
# Session terminations

Embedding of `session-termination.ts` and of the checks of `run-journal.ts` on values that cross its
trust boundary: bounded identifiers, credential shapes, timestamps, and the termination that closes a
run. A termination is kept as the JSON value that the journal reads and writes.
-/

namespace CodingAgent.Journal

open Lib

/-! ## Credential shapes -/

/-- The flag `i` of a pattern without the flag `u`: ASCII letters match both cases. -/
def sameLetter (p c : Char) : Bool := c.toLower == p.toLower

/-- A literal text under the flag `i`. -/
def ignoringCase (text : String) : Pattern := .literal sameLetter text.toList

/-- A literal text. -/
def exactly (text : String) : Pattern := .literal (fun p c => p == c) text.toList

/-- One of the characters of `text`. -/
def anyOf (text : String) : Char → Bool := fun c => text.toList.contains c

/-- A letter or digit, or one of the characters of `text`. -/
def alnumOr (text : String) : Char → Bool := fun c => c.isAlphanum || anyOf text c

/-- `-----BEGIN [A-Z ]*PRIVATE KEY-----` under the flag `i`. -/
def privateKeyShape : Pattern :=
  .seq (ignoringCase "-----BEGIN")
    (.seq (ignoringCase " ")
      (.seq (.many (fun c => c.isAlpha || c = ' ') 0)
        (.seq (ignoringCase "PRIVATE KEY----") (ignoringCase "-"))))

/-- `sk-[A-Za-z0-9_-]{16,}`. -/
def skShape : Pattern := .seq (exactly "sk-") (.many (alnumOr "_-") 16)

/-- `github_pat_[A-Za-z0-9_]{16,}`. -/
def githubPatShape : Pattern := .seq (exactly "github_pat_") (.many (alnumOr "_") 16)

/-- `gh[pousr]_[A-Za-z0-9]{16,}`. -/
def ghShape : Pattern :=
  .seq (exactly "gh") (.seq (.cls (anyOf "pousr")) (.seq (exactly "_") (.many (alnumOr "") 16)))

/-- `xox[baprs]-[A-Za-z0-9-]{16,}`. -/
def xoxShape : Pattern :=
  .seq (exactly "xox") (.seq (.cls (anyOf "baprs")) (.seq (exactly "-") (.many (alnumOr "-") 16)))

/-- `AKIA[A-Z0-9]{16}`. -/
def akiaShape : Pattern := .seq (exactly "AKIA") (.times (fun c => c.isUpper || c.isDigit) 16)

/-- `\b(?:...)\b`. -/
def asWord (body : Pattern) : Pattern := .seq .boundary (.seq body .boundary)

/-- `\beyJ[A-Za-z0-9_-]{8,}\.[A-Za-z0-9_-]{8,}\.[A-Za-z0-9_-]{8,}\b`. -/
def jwtShape : Pattern :=
  asWord (.seq (exactly "eyJ")
    (.seq (.many (alnumOr "_-") 8)
      (.seq (exactly ".")
        (.seq (.many (alnumOr "_-") 8) (.seq (exactly ".") (.many (alnumOr "_-") 8))))))

/-- Eight or more of the characters of a bearer token, `={0,2}` and `\b`. -/
def bearerToken : Pattern :=
  .seq (.many (alnumOr "._~+/-") 8)
    (.seq (.opt (anyOf "=")) (.seq (.opt (anyOf "=")) .boundary))

/-- `\bBearer\s+` under the flag `i`, and a token. -/
def bearerShape : Pattern :=
  .seq (.seq .boundary (ignoringCase "Bearer")) (.seq (.many isWhitespace 1) bearerToken)

/-- `(?:^|[^A-Za-z0-9])`. -/
def nameStart : Pattern := .alt .start (.cls fun c => !c.isAlphanum)

/-- `(?:[A-Za-z0-9]+[_-])*`. -/
def namePrefixes : Pattern := .star (.seq (.many (alnumOr "") 1) (.cls (anyOf "_-")))

/-- `first[-_ ]?second`. -/
def twoWords (first second : String) : Pattern :=
  .seq (ignoringCase first) (.seq (.opt (anyOf "-_ ")) (ignoringCase second))

/-- `authorization|api[-_ ]?key|access[-_ ]?token|token|...`. -/
def secretName : Pattern :=
  .choice (ignoringCase "authorization")
    [twoWords "api" "key", twoWords "access" "token", ignoringCase "token", ignoringCase "password",
      .seq (ignoringCase "secret") (.alt (.seq (.opt (anyOf "-_ ")) (ignoringCase "key")) .empty),
      twoWords "private" "key", ignoringCase "cookie"]

/-- `["']?\s*[:=]`. -/
def assignment : Pattern :=
  .seq (.opt (anyOf "\"'")) (.seq (.many isWhitespace 0) (.cls (anyOf ":=")))

/-- The name of a secret that a value is assigned to. -/
def assignmentShape : Pattern :=
  .seq nameStart (.seq namePrefixes (.seq secretName assignment))

/-- `CREDENTIAL_SHAPES` of `run-journal.ts`. -/
def journalCredentialShapes : List Pattern :=
  [privateKeyShape, asWord skShape, asWord ghShape, asWord githubPatShape, asWord xoxShape,
    asWord akiaShape, jwtShape, bearerShape, assignmentShape]

/-- `CREDENTIAL_SHAPES` of `session-termination.ts`. -/
def messageCredentialShapes : List Pattern :=
  [privateKeyShape, asWord (.choice skShape [githubPatShape, ghShape, xoxShape, akiaShape]),
    bearerShape, jwtShape, assignmentShape]

/-- `looksLikeCredential(value)`. -/
def looksLikeCredential (value : String) : Bool :=
  journalCredentialShapes.any fun pattern => pattern.test value.toList

/-! ## Fields -/

/-- `assertPlainDataRecord(value, name, allowedKeys)`. A JSON value has no accessors. -/
def assertPlainDataRecord (value : Option Json) (name : String) (allowedKeys : List String) :
    Result Unit :=
  match value with
  | some (.obj fields) =>
    require (fields.all fun f => allowedKeys.contains f.1) (name ++ " must contain only bounded fields")
  | _ => raise (name ++ " must be a plain object")

/-- `/[\u0000-\u001f\u007f]/.test(value)`. -/
def hasControl (value : String) : Bool := value.toList.any fun c => c.toNat < 0x20 || c.toNat = 0x7f

/-- `MAX_RUN_JOURNAL_ID_LENGTH`. -/
def maxRunJournalIdLength : Nat := 128

/-- `isBoundedIdentifier(value) && !looksLikeCredential(value)`, with the text. -/
def boundedIdentifier? (value : Option Json) : Option String :=
  match value with
  | some (.str text) =>
    if text ≠ "" ∧ jsLength text ≤ maxRunJournalIdLength ∧ hasControl text = false ∧
      looksLikeCredential text = false then some text else none
  | _ => none

/-- `assertIdentifier(value, name, maxLength)`. -/
def assertIdentifier (value : Option Json) (name : String) (maxLength : Nat) : Result String :=
  match value with
  | some (.str text) =>
    if text = "" ∨ maxLength < jsLength text then
      raise (name ++ " must be 1-" ++ toString maxLength ++ " characters of bounded text")
    else if hasControl text then
      raise (name ++ " must not contain C0 or DEL control characters")
    else .ok text
  | _ => raise (name ++ " must be 1-" ++ toString maxLength ++ " characters of bounded text")

/-- `rejectCredential(value, name)`. -/
def rejectCredential (value : String) (name : String) : Result Unit :=
  require (!looksLikeCredential value) (name ++ " contains a credential-shaped literal")

/-- `assertIdentifier` and then `rejectCredential`. -/
def assertOpenIdentifier (value : Option Json) (name : String) (maxLength : Nat) : Result Unit := do
  let text ← assertIdentifier value name maxLength
  rejectCredential text name

/-- A check that an absent field passes. -/
def ifPresent (value : Option Json) (check : Json → Result Unit) : Result Unit :=
  match value with
  | some value => check value
  | none => .ok ()

/-- The moments of the years that `toISOString` writes with a sign and six digits. -/
def isExpandedTimestamp (text : String) : Bool :=
  match text.toList with
  | sign :: y₁ :: y₂ :: y₃ :: y₄ :: y₅ :: y₆ :: rest =>
    let year := Nat.ofDigitChars 10 [y₁, y₂, y₃, y₄, y₅, y₆] 0
    -- the calendar repeats after four hundred years
    let sameCalendar := String.ofList (Nat.toDigits 10 (2000 + year % 400) ++ rest)
    [y₁, y₂, y₃, y₄, y₅, y₆].all Char.isDigit && CodingAgent.isCanonicalTimestamp sameCalendar &&
      ((sign = '+' && decide (9999 < year) &&
          (decide (year < 275760) ||
            (year = 275760 && !jsLt "-09-13T00:00:00.000Z" (String.ofList rest)))) ||
        (sign = '-' && decide (0 < year) &&
          (decide (year < 271821) ||
            (year = 271821 && !jsLt (String.ofList rest) "-04-20T00:00:00.000Z"))))
  | _ => false

/-- `isCanonicalTimestamp(value)`: the texts that `toISOString` returns. -/
def isCanonicalTimestamp (text : String) : Bool :=
  CodingAgent.isCanonicalTimestamp text || isExpandedTimestamp text

/-- `assertCanonicalTimestamp(value, name)`. -/
def assertCanonicalTimestamp (value : Option Json) (name : String) : Result String :=
  match value with
  | some (.str text) =>
    if isCanonicalTimestamp text then .ok text
    else raise (name ++ " must be a canonical ISO-8601 UTC instant")
  | _ => raise (name ++ " must be a canonical ISO-8601 UTC instant")

/-- `isValidHashShape(value)`. -/
def isValidHashShape (value : String) : Bool := isSha256 value

/-- A text field that is one of `values`. -/
def assertOneOf (value : Option Json) (values : List String) (message : String) : Result String :=
  match value with
  | some (.str text) => if values.contains text then .ok text else raise message
  | _ => raise message

/-- A text field. -/
def assertText (value : Option Json) (message : String) : Result String :=
  match value with
  | some (.str text) => .ok text
  | _ => raise message

/-- A boolean field. -/
def assertBool (value : Option Json) (message : String) : Result Bool :=
  match value with
  | some (.bool flag) => .ok flag
  | _ => raise message

/-- `MAX_SESSION_TERMINATION_MESSAGE_LENGTH`. -/
def maxSessionTerminationMessageLength : Nat := 512

/-- `assertPreRedactedTerminationMessage(message)`. -/
def assertPreRedactedTerminationMessage (message : String) : Result Unit := do
  require (message ≠ "" && jsLength message ≤ maxSessionTerminationMessageLength)
    "message must contain 1-512 characters of pre-redacted text"
  require (!message.toList.contains '\x00') "message must not contain NUL"
  require (!messageCredentialShapes.any fun pattern => pattern.test message.toList)
    "message contains a credential-shaped literal; redact it before classification"

/-! ## The vocabulary -/

/-- `SESSION_TERMINATION_KIND_VALUES`. -/
inductive TerminationKind
  | completed | userAbort | providerAbort | providerAuth | providerRateLimit | providerNetwork
  | providerProtocol | providerRefusal | contextOverflow | transcriptInvalid | toolTimeout
  | toolFatal | compaction | persistence | processSignal | processCrash | configuration
  | internalError
deriving DecidableEq

/-- The kind as it is written. -/
def TerminationKind.text : TerminationKind → String
  | completed => "completed"
  | userAbort => "user_abort"
  | providerAbort => "provider_abort"
  | providerAuth => "provider_auth"
  | providerRateLimit => "provider_rate_limit"
  | providerNetwork => "provider_network"
  | providerProtocol => "provider_protocol"
  | providerRefusal => "provider_refusal"
  | contextOverflow => "context_overflow"
  | transcriptInvalid => "transcript_invalid"
  | toolTimeout => "tool_timeout"
  | toolFatal => "tool_fatal"
  | compaction => "compaction"
  | persistence => "persistence"
  | processSignal => "process_signal"
  | processCrash => "process_crash"
  | configuration => "configuration"
  | internalError => "internal_error"

/-- `SESSION_TERMINATION_KINDS`. -/
def sessionTerminationKinds : List String :=
  [TerminationKind.completed, .userAbort, .providerAbort, .providerAuth, .providerRateLimit,
    .providerNetwork, .providerProtocol, .providerRefusal, .contextOverflow, .transcriptInvalid,
    .toolTimeout, .toolFatal, .compaction, .persistence, .processSignal, .processCrash,
    .configuration, .internalError].map TerminationKind.text

/-- `SessionTerminationPhase`. -/
inductive TerminationPhase
  | completed | control | preflight | provider | tool | compaction | persistence | process | resume
deriving DecidableEq

/-- The phase as it is written. -/
def TerminationPhase.text : TerminationPhase → String
  | completed => "completed"
  | control => "control"
  | preflight => "preflight"
  | provider => "provider"
  | tool => "tool"
  | compaction => "compaction"
  | persistence => "persistence"
  | process => "process"
  | resume => "resume"

/-- `SESSION_TERMINATION_PHASES`. -/
def sessionTerminationPhases : List String :=
  [TerminationPhase.completed, .control, .preflight, .provider, .tool, .compaction, .persistence,
    .process, .resume].map TerminationPhase.text

/-- `SESSION_TERMINATION_SOURCES`. -/
def sessionTerminationSources : List String := ["observed", "inferred_on_resume"]

/-- `SESSION_SIDE_EFFECTS`. -/
def sessionSideEffects : List String := ["none", "possible", "confirmed"]

/-- `SESSION_PROCESS_SIGNALS`. -/
def sessionProcessSignals : List String := ["SIGINT", "SIGTERM", "SIGHUP", "SIGQUIT"]

/-- `SESSION_TRANSCRIPT_ISSUES`. -/
def sessionTranscriptIssues : List String :=
  ["missing_result", "duplicate_result", "orphan_result", "duplicate_call_id",
    "interleaved_non_result", "invalid_jsonl", "invalid_tree", "unsupported_version",
    "trailing_fragment"]

/-- `TERMINATION_ALLOWED_KEYS`. -/
def terminationAllowedKeys : List String :=
  ["schemaVersion", "sessionId", "runId", "kind", "phase", "source", "message", "causeCode",
    "nextAction", "retryable", "safeToAutoRetry", "sideEffects", "timestamp", "retryAfterMs",
    "provider", "model", "toolCallId", "toolName", "processSignal", "transcriptIssue"]

/-! ## Coherence -/

/-- What a cause code determines of a termination. -/
structure Expectation where
  kind : TerminationKind
  phase : TerminationPhase
  retryable : Bool
  processSignalRequired : Bool := false
  transcriptSuffix : Option String := none

/-- The switch of `assertTerminationCoherence`; `none` is an incoherent cause code. -/
def expectationFor (area suffix source : String) : Option Expectation :=
  match area with
  | "session" =>
    if suffix = "completed" then some ⟨.completed, .completed, false, false, none⟩
    else if suffix = "user_abort" then some ⟨.userAbort, .control, false, false, none⟩
    else none
  | "provider" =>
    if suffix = "abort" then some ⟨.providerAbort, .provider, true, false, none⟩
    else if suffix = "auth" then some ⟨.providerAuth, .provider, false, false, none⟩
    else if suffix = "rate_limit" then some ⟨.providerRateLimit, .provider, true, false, none⟩
    else if suffix = "network" then some ⟨.providerNetwork, .provider, true, false, none⟩
    else if suffix = "protocol" then some ⟨.providerProtocol, .provider, true, false, none⟩
    else if suffix = "refusal" then some ⟨.providerRefusal, .provider, true, false, none⟩
    else if suffix = "context_overflow" then some ⟨.contextOverflow, .provider, true, false, none⟩
    else none
  | "tool" =>
    if suffix = "timeout" then some ⟨.toolTimeout, .tool, true, false, none⟩
    else if suffix = "fatal" then some ⟨.toolFatal, .tool, false, false, none⟩
    else none
  | "compaction" =>
    if suffix = "aborted" ∨ suffix = "failed" ∨ suffix = "stale" then
      some ⟨.compaction, .compaction, true, false, none⟩
    else none
  | "persistence" =>
    if ["read_failed", "append_failed", "replace_failed", "fsync_failed", "lock_failed"].contains
        suffix then
      some ⟨.persistence, .persistence, true, false, none⟩
    else none
  | "process" =>
    if suffix = "signal" then some ⟨.processSignal, .process, false, true, none⟩
    else if suffix = "crash" then some ⟨.processCrash, .resume, true, false, none⟩
    else none
  | "transcript" =>
    if sessionTranscriptIssues.contains suffix then
      some ⟨.transcriptInvalid, if source = "inferred_on_resume" then .resume else .preflight,
        false, false, some suffix⟩
    else none
  | "configuration" =>
    if suffix = "invalid" then some ⟨.configuration, .preflight, false, false, none⟩ else none
  | "internal" =>
    if suffix = "unclassified" then some ⟨.internalError, .preflight, false, false, none⟩ else none
  | _ => none

/-- The fields that the coherence of a termination depends on. -/
structure TerminationFacts where
  kind : String
  phase : String
  source : String
  causeCode : String
  retryable : Bool
  safeToAutoRetry : Bool
  sideEffects : String
  processSignal : Option Json
  transcriptIssue : Option Json

/-- `termination.causeCode` before and after its first dot. -/
def causeParts (causeCode : String) : String × String :=
  let area := causeCode.toList.takeWhile (· ≠ '.')
  if area.length = causeCode.toList.length then ("", "")
  else (String.ofList area, String.ofList (causeCode.toList.drop (area.length + 1)))

/-- `assertTerminationCoherence(termination)`. -/
def assertTerminationCoherence (t : TerminationFacts) : Result Unit :=
  let (area, suffix) := causeParts t.causeCode
  match expectationFor area suffix t.source with
  | none => raise "termination causeCode is incoherent"
  | some expected => do
    require (t.kind = expected.kind.text) "termination kind is incoherent with causeCode"
    require (t.phase = expected.phase.text) "termination phase is incoherent with causeCode"
    require (t.retryable = expected.retryable)
      "termination retryable flag is incoherent with causeCode"
    if expected.processSignalRequired then
      require t.processSignal.isSome "termination processSignal is required for signal causes"
    else
      require t.processSignal.isNone "termination processSignal is only valid for signal causes"
    match expected.transcriptSuffix with
    | some suffix =>
      require t.transcriptIssue.isSome "termination transcriptIssue is required for transcript causes"
      require (t.transcriptIssue = some (.str suffix))
        "termination transcriptIssue must match the transcript cause"
    | none =>
      require t.transcriptIssue.isNone
        "termination transcriptIssue is only valid for transcript causes"
    let expectedSafeToAutoRetry := t.retryable && t.source = "observed" && t.sideEffects = "none" &&
      (t.kind = "provider_rate_limit" || t.kind = "provider_network" || t.kind = "provider_refusal")
    require (t.safeToAutoRetry = expectedSafeToAutoRetry)
      "termination safeToAutoRetry flag is incoherent"

/-- `/^[a-z_]+\.[a-z_]+$/.test(causeCode)`. -/
def isCauseCode (causeCode : String) : Bool :=
  let letter := fun c : Char => c.isLower || c = '_'
  let (area, suffix) := causeParts causeCode
  area ≠ "" && area.toList.all letter && suffix ≠ "" && suffix.toList.all letter

/-- The checks of `assertBoundedSessionTermination` on the fields that `get` reads. -/
def assertTerminationFields (get : String → Option Json) (expectedRunId expectedSessionId : String) :
    Result Unit := do
  require (get "schemaVersion" = some (.num (.ofNat 1)))
    "termination schemaVersion must match the supported version"
  require (get "runId" = some (.str expectedRunId)) "termination runId must match the record runId"
  require (get "sessionId" = some (.str expectedSessionId))
    "termination sessionId must match the record sessionId"
  let kind ← assertOneOf (get "kind") sessionTerminationKinds "termination kind is out of bounds"
  let phase ← assertOneOf (get "phase") sessionTerminationPhases "termination phase is out of bounds"
  let source ←
    assertOneOf (get "source") sessionTerminationSources "termination source is out of bounds"
  let message ← assertText (get "message") "termination message must be a string"
  assertPreRedactedTerminationMessage message
  let causeCode ← assertText (get "causeCode") "termination causeCode is out of bounds"
  require (isCauseCode causeCode) "termination causeCode is out of bounds"
  let nextAction ← assertText (get "nextAction") "termination nextAction must be a string"
  assertPreRedactedTerminationMessage nextAction
  let retryable ← assertBool (get "retryable") "termination retry flags must be booleans"
  let safeToAutoRetry ← assertBool (get "safeToAutoRetry") "termination retry flags must be booleans"
  let sideEffects ←
    assertOneOf (get "sideEffects") sessionSideEffects "termination sideEffects is out of bounds"
  let _ ← assertCanonicalTimestamp (get "timestamp") "termination.timestamp"
  ifPresent (get "retryAfterMs") fun value =>
    (assertSafeInteger (some value) "termination.retryAfterMs").map fun _ => ()
  ifPresent (get "provider") fun value =>
    assertOpenIdentifier (some value) "termination.provider" 128
  ifPresent (get "model") fun value => assertOpenIdentifier (some value) "termination.model" 256
  ifPresent (get "toolCallId") fun value =>
    assertOpenIdentifier (some value) "termination.toolCallId" 512
  ifPresent (get "toolName") fun value =>
    assertOpenIdentifier (some value) "termination.toolName" 128
  ifPresent (get "processSignal") fun value =>
    (assertOneOf (some value) sessionProcessSignals
      "termination processSignal is out of bounds").map fun _ => ()
  ifPresent (get "transcriptIssue") fun value =>
    (assertOneOf (some value) sessionTranscriptIssues
      "termination transcriptIssue is out of bounds").map fun _ => ()
  assertTerminationCoherence
    ⟨kind, phase, source, causeCode, retryable, safeToAutoRetry, sideEffects, get "processSignal",
      get "transcriptIssue"⟩

/-- `assertBoundedSessionTermination(value, expectedRunId, expectedSessionId)`. -/
def assertBoundedSessionTermination (value : Option Json) (expectedRunId expectedSessionId : String) :
    Result Unit := do
  assertPlainDataRecord value "termination" terminationAllowedKeys
  assertTerminationFields (fun key => value.bind fun v => v.get? key) expectedRunId expectedSessionId

/-! ## Classification -/

/-- `SessionTerminationCause`. -/
structure TerminationCause where
  area : String
  code : Option String := none
  signal : Option String := none

/-- `ClassifySessionTerminationInput`. -/
structure ClassifyInput where
  sessionId : String
  runId : String
  timestamp : String
  source : String
  message : String
  cause : TerminationCause
  sideEffects : String
  retryAfterMs : Option Decimal := none
  provider : Option String := none
  model : Option String := none
  toolCallId : Option String := none
  toolName : Option String := none

/-- `Classification`. -/
structure Classification where
  kind : TerminationKind
  phase : TerminationPhase
  causeCode : String
  retryable : Bool
  processSignal : Option String := none
  transcriptIssue : Option String := none

/-- `classifyProvider(code)`. -/
def classifyProvider (code : String) : Option Classification :=
  if code = "abort" then some ⟨.providerAbort, .provider, "provider.abort", true, none, none⟩
  else if code = "auth" then some ⟨.providerAuth, .provider, "provider.auth", false, none, none⟩
  else if code = "rate_limit" then
    some ⟨.providerRateLimit, .provider, "provider.rate_limit", true, none, none⟩
  else if code = "network" then
    some ⟨.providerNetwork, .provider, "provider.network", true, none, none⟩
  else if code = "protocol" then
    some ⟨.providerProtocol, .provider, "provider.protocol", true, none, none⟩
  else if code = "context_overflow" then
    some ⟨.contextOverflow, .provider, "provider.context_overflow", true, none, none⟩
  else if code = "refusal" then
    some ⟨.providerRefusal, .provider, "provider.refusal", true, none, none⟩
  else none

/-- `assertCause(cause)` and `classifyCause(cause, source)`; `none` is a cause that is not bounded. -/
def classifyCause (cause : TerminationCause) (source : String) : Option Classification :=
  match cause.area, cause.code, cause.signal with
  | "completed", none, none => some ⟨.completed, .completed, "session.completed", false, none, none⟩
  | "user", some code, none =>
    if code = "abort" then some ⟨.userAbort, .control, "session.user_abort", false, none, none⟩
    else none
  | "provider", some code, none => classifyProvider code
  | "tool", some code, none =>
    if code = "timeout" then some ⟨.toolTimeout, .tool, "tool.timeout", true, none, none⟩
    else if code = "fatal" then some ⟨.toolFatal, .tool, "tool.fatal", false, none, none⟩
    else none
  | "compaction", some code, none =>
    if ["aborted", "failed", "stale"].contains code then
      some ⟨.compaction, .compaction, "compaction." ++ code, true, none, none⟩
    else none
  | "persistence", some code, none =>
    if ["read_failed", "append_failed", "replace_failed", "fsync_failed", "lock_failed"].contains
        code then
      some ⟨.persistence, .persistence, "persistence." ++ code, true, none, none⟩
    else none
  | "process", some code, none =>
    if code = "crash" then some ⟨.processCrash, .resume, "process.crash", true, none, none⟩ else none
  | "process", some code, some signal =>
    if code = "signal" ∧ sessionProcessSignals.contains signal then
      some ⟨.processSignal, .process, "process.signal", false, some signal, none⟩
    else none
  | "transcript", some code, none =>
    if sessionTranscriptIssues.contains code then
      some ⟨.transcriptInvalid, if source = "inferred_on_resume" then .resume else .preflight,
        "transcript." ++ code, false, none, some code⟩
    else none
  | "configuration", some code, none =>
    if code = "invalid" then
      some ⟨.configuration, .preflight, "configuration.invalid", false, none, none⟩
    else none
  | "internal", some code, none =>
    if code = "unclassified" then
      some ⟨.internalError, .preflight, "internal.unclassified", false, none, none⟩
    else none
  | _, _, _ => none

/-- `isSafeToAutoRetry(classification, input)`. -/
def isSafeToAutoRetry (c : Classification) (input : ClassifyInput) : Bool :=
  c.retryable && input.source = "observed" && input.sideEffects = "none" &&
    (c.kind = .providerRateLimit || c.kind = .providerNetwork || c.kind = .providerRefusal)

/-- `nextActionFor(classification, input)`. -/
def nextActionFor (c : Classification) (input : ClassifyInput) : String :=
  match c.kind with
  | .completed => "No recovery action is required; continue with the next prompt."
  | .userAbort => "Review possible partial side effects, then retry only if intended."
  | .providerAbort => "Confirm provider availability, then retry the request."
  | .providerAuth =>
    let provider := match input.provider with
      | some provider => if provider = "" then "" else " " ++ provider
      | none => ""
    "Run /login" ++ provider ++ " or configure valid credentials, then retry."
  | .providerRateLimit =>
    "Wait for the provider retry window or choose another model, then retry."
  | .providerNetwork => "Check network and provider connectivity, then retry."
  | .providerProtocol =>
    "Often an orphan tool_call_id / sticky transcript after a dropped error turn — auto-retry after " ++
      "sanitize, or /new session if it persists."
  | .providerRefusal =>
    "Model declined this turn (content/safety stop). Usually a false positive on Fable/Claude — " ++
      "auto-retry once, or switch model (k3/grok-4.5/deepseek) / rephrase as a pure coding task."
  | .contextOverflow => "Compact or reduce context, or switch to a larger-context model."
  | .toolTimeout =>
    "Inspect possible tool side effects and increase the tool timeout only if safe."
  | .toolFatal =>
    "Inspect the failed tool result and repair its configuration before retrying."
  | .compaction =>
    "Retry compaction after resolving the reported barrier or stale transaction."
  | .persistence =>
    "Run omk session doctor --session " ++ input.sessionId ++ " before resuming."
  | .processSignal => "Review possible partial side effects before resuming the session."
  | .processCrash =>
    "Run omk session doctor --session " ++ input.sessionId ++ " and review partial side effects."
  | .transcriptInvalid =>
    "Run omk session doctor --session " ++ input.sessionId ++
      "; do not resume until integrity passes."
  | .configuration =>
    "Correct the provider, model, tool, or session configuration and retry."
  | .internalError =>
    "Inspect run " ++ input.runId ++ " diagnostics and the run journal before retrying."

/-- `assertIdentifier` of `session-termination.ts`. -/
def assertClassifierIdentifier (value name : String) (maxLength : Nat) : Result Unit :=
  require (value ≠ "" && jsLength value ≤ maxLength && !hasControl value)
    (name ++ " must be non-empty bounded text without C0 or DEL control characters")

/-- The check of an identifier that may be absent. -/
def assertOptionalIdentifier (value : Option String) (name : String) (maxLength : Nat) :
    Result Unit :=
  match value with
  | some value => assertClassifierIdentifier value name maxLength
  | none => .ok ()

/-- The termination of a classification. -/
def terminationOf (c : Classification) (input : ClassifyInput) : Json :=
  .obj ([("schemaVersion", .num (.ofNat 1)), ("sessionId", .str input.sessionId),
    ("runId", .str input.runId), ("kind", .str c.kind.text), ("phase", .str c.phase.text),
    ("source", .str input.source), ("message", .str input.message), ("causeCode", .str c.causeCode),
    ("nextAction", .str (nextActionFor c input)), ("retryable", .bool c.retryable),
    ("safeToAutoRetry", .bool (isSafeToAutoRetry c input)), ("sideEffects", .str input.sideEffects),
    ("timestamp", .str input.timestamp)] ++
    optionalField "retryAfterMs" (input.retryAfterMs.map .num) ++
    optionalField "provider" (input.provider.map .str) ++
    optionalField "model" (input.model.map .str) ++
    optionalField "toolCallId" (input.toolCallId.map .str) ++
    optionalField "toolName" (input.toolName.map .str) ++
    optionalField "processSignal" (c.processSignal.map .str) ++
    optionalField "transcriptIssue" (c.transcriptIssue.map .str))

/-- `classifySessionTermination(input)`. -/
def classifySessionTermination (input : ClassifyInput) : Result Json := do
  require (sessionTerminationSources.contains input.source &&
    sessionSideEffects.contains input.sideEffects)
    "input must contain only bounded structured termination fields"
  match classifyCause input.cause input.source with
  | none => raise "cause must be a bounded structured termination cause"
  | some classification =>
    assertClassifierIdentifier input.sessionId "sessionId" 128
    assertClassifierIdentifier input.runId "runId" 128
    require (isCanonicalTimestamp input.timestamp)
      "timestamp must be a canonical ISO-8601 UTC instant"
    assertPreRedactedTerminationMessage input.message
    assertOptionalIdentifier input.provider "provider" 128
    assertOptionalIdentifier input.model "model" 256
    assertOptionalIdentifier input.toolCallId "toolCallId" 512
    assertOptionalIdentifier input.toolName "toolName" 128
    require (input.retryAfterMs.all fun n => (n.toNat?).any fun k => decide (k ≤ maxSafeInteger))
      "retryAfterMs must be a non-negative safe integer"
    require (classification.kind ≠ .processCrash || input.source = "inferred_on_resume")
      "process crashes may only be classified as inferred_on_resume"
    require (classification.kind ≠ .processSignal || input.source = "observed")
      "process signals must be observed"
    return terminationOf classification input

end CodingAgent.Journal
