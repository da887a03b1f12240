import OmkVerified.CodingAgent.Session.Context
import OmkVerified.CodingAgent.Session.Credential

/-!
# Compaction provenance

Embedding of the validators of `compaction/transaction.ts`: the revision token of a session file,
the identity of a compaction source, and the envelope that a committed compaction carries. Each
validator reads a JSON value and returns a copy with the fields in a fixed order; `toJson` is that
copy as a JSON value.
-/

namespace CodingAgent

open Lib

/-- The result of code that may throw. -/
abbrev Result := Except SessionError

/-- `throw new TypeError(message)`. -/
def raise {α : Type} (message : String) : Result α := .error (.thrown message)

/-- Throws unless the condition holds. -/
def require (condition : Bool) (message : String) : Result Unit :=
  if condition then .ok () else raise message

/-! ## Fields -/

/-- `isRecord(value)`, with the fields. -/
def asRecord (value : Option Json) (message : String) : Result (List (String × Json)) :=
  match value with
  | some (.obj fields) => .ok fields
  | _ => raise message

/-- `assertOnlyKeys(value, allowed, field)`. -/
def assertOnlyKeys (fields : List (String × Json)) (allowed : List String) (field : String) :
    Result Unit :=
  require (fields.all fun f => allowed.contains f.1) (field ++ " contains unsupported metadata")

/-- `Number.MAX_SAFE_INTEGER`. -/
def maxSafeInteger : Nat := 2 ^ 53 - 1

/-- `assertSafeInteger(value, field)`. -/
def assertSafeInteger (value : Option Json) (field : String) : Result Nat :=
  match value with
  | some (.num n) =>
    match n.toNat? with
    | some k =>
      if k ≤ maxSafeInteger then .ok k
      else raise (field ++ " must be a non-negative safe integer")
    | none => raise (field ++ " must be a non-negative safe integer")
  | _ => raise (field ++ " must be a non-negative safe integer")

/-- `METADATA_CONTROL_PATTERN`. -/
def isMetadataControl (c : Char) : Bool := c.toNat < 0x20 || c.toNat = 0x7f

/-- `CONTENT_CONTROL_PATTERN`: tab, line feed and carriage return are allowed. -/
def isContentControl (c : Char) : Bool := isMetadataControl c && c ≠ '\t' && c ≠ '\n' && c ≠ '\r'

/-- The family of text checks: a non-empty bounded text without the control characters and without
a credential shape. -/
def assertText (control : Char → Bool) (boundMessage credentialMessage : String) (maxLength : Nat)
    (value : Option Json) : Result String :=
  match value with
  | some (.str text) =>
    if text = "" ∨ maxLength < jsLength text ∨ text.toList.any control then
      raise boundMessage
    else if containsCredentialShape text then raise credentialMessage
    else .ok text
  | _ => raise boundMessage

/-- `MAX_METADATA_LENGTH`. -/
def maxMetadataLength : Nat := 256

/-- `assertMetadataText(value, field, maxLength)`. -/
def assertMetadataText (value : Option Json) (field : String) (maxLength : Nat) : Result String :=
  assertText isMetadataControl
    (field ++ " must be non-empty bounded metadata without control characters")
    (field ++ " must not contain credential-shaped metadata") maxLength value

/-- `assertContentText(value, field, maxLength)`, which is also `assertProvenanceText`. -/
def assertContentText (value : Option Json) (field : String) (maxLength : Nat) : Result String :=
  assertText isContentControl
    (field ++ " must be non-empty bounded text without unsafe control characters")
    (field ++ " must not contain credential-shaped content") maxLength value

/-- A text or `null`. -/
def assertNullableMetadataText (value : Option Json) (field : String) (maxLength : Nat) :
    Result (Option String) :=
  match value with
  | some .null => .ok none
  | value => (assertMetadataText value field maxLength).map some

/-- `assertSha256(value, field)`. -/
def assertSha256 (value : Option Json) (field : String) : Result String :=
  match value with
  | some (.str text) =>
    if isSha256 text then .ok text
    else raise (field ++ " must be a lowercase 64-hex SHA-256 digest")
  | _ => raise (field ++ " must be a lowercase 64-hex SHA-256 digest")

/-- The number of days of a month of the Gregorian calendar. -/
def daysInMonth (year month : Nat) : Nat :=
  if month = 2 then if (year % 4 = 0 ∧ year % 100 ≠ 0) ∨ year % 400 = 0 then 29 else 28
  else if month = 4 ∨ month = 6 ∨ month = 9 ∨ month = 11 then 30
  else 31

/-- `CANONICAL_TIMESTAMP_PATTERN`, and that `new Date(value).toISOString()` is `value`: the fields
are those of a moment of the calendar. -/
def isCanonicalTimestamp (text : String) : Bool :=
  match text.toList with
  | [y₁, y₂, y₃, y₄, '-', m₁, m₂, '-', d₁, d₂, 'T', h₁, h₂, ':', i₁, i₂, ':', s₁, s₂, '.', f₁, f₂, f₃,
      'Z'] =>
    let value := fun digits => Nat.ofDigitChars 10 digits 0
    let month := value [m₁, m₂]
    let day := value [d₁, d₂]
    [y₁, y₂, y₃, y₄, m₁, m₂, d₁, d₂, h₁, h₂, i₁, i₂, s₁, s₂, f₁, f₂, f₃].all Char.isDigit &&
      decide (1 ≤ month ∧ month ≤ 12 ∧ 1 ≤ day ∧ day ≤ daysInMonth (value [y₁, y₂, y₃, y₄]) month ∧
        value [h₁, h₂] < 24 ∧ value [i₁, i₂] < 60 ∧ value [s₁, s₂] < 60)
  | _ => false

/-- `assertCanonicalTimestamp(value)`. -/
def assertCanonicalTimestamp (value : Option Json) : Result String := do
  let text ← assertMetadataText value "createdAt" maxMetadataLength
  require (isCanonicalTimestamp text) "createdAt must be a canonical UTC ISO-8601 timestamp"
  return text

/-- The checks of the items of an array, each with its index. -/
def copyItems {α : Type} (check : Json → Nat → Result α) : List Json → (index : Nat) →
    Result (List α)
  | [], _ => .ok []
  | item :: items, index => do
    let copy ← check item index
    let copies ← copyItems check items (index + 1)
    return copy :: copies

/-- The family of bounded arrays. -/
def copyArray {α : Type} (check : Json → Nat → Result α) (value : Option Json) (maxItems : Nat)
    (message : String) : Result (List α) :=
  match value with
  | some (.arr items) => if items.length ≤ maxItems then copyItems check items 0 else raise message
  | _ => raise message

/-- The name of an item in an error message. -/
def itemField (field : String) (index : Nat) : String := field ++ "[" ++ toString index ++ "]"

/-- `copyIdArray(value, field, maxItems)`. -/
def copyIdArray (value : Option Json) (field : String) (maxItems : Nat) : Result (List String) := do
  let copy ← copyArray
    (fun item index => assertMetadataText (some item) (itemField field index) maxMetadataLength) value
    maxItems (field ++ " must be a bounded array")
  require copy.Nodup (field ++ " must contain unique IDs")
  return copy

/-- `copyTextArray(value, field, maxItems, maxLength, requireUnique)`. -/
def copyTextArray (value : Option Json) (field : String) (maxItems maxLength : Nat)
    (requireUnique : Bool) : Result (List String) := do
  let copy ← copyArray
    (fun item index => assertContentText (some item) (itemField field index) maxLength) value maxItems
    (field ++ " must be a bounded array")
  require (!requireUnique || copy.Nodup) (field ++ " must contain unique entries")
  return copy

/-! ## Revision tokens -/

/-- `SessionFileIdentity`. -/
structure FileIdentity where
  dev : String
  ino : String

/-- The JSON value of a file identity. -/
def FileIdentity.toJson (identity : FileIdentity) : Json :=
  .obj [("dev", .str identity.dev), ("ino", .str identity.ino)]

/-- The check of `dev` and of `ino`. -/
def assertDecimalString (value : Option Json) (field : String) : Result String :=
  match value with
  | some (.str part) =>
    if part = "" ∨ 32 < jsLength part ∨ part.toList.any (fun c => !c.isDigit) then
      raise ("fileIdentity." ++ field ++ " must be a bounded decimal string")
    else .ok part
  | _ => raise ("fileIdentity." ++ field ++ " must be a bounded decimal string")

/-- `copyFileIdentity(value)`. -/
def copyFileIdentity (value : Option Json) : Result (Option FileIdentity) :=
  match value with
  | none => .ok none
  | some value => do
    let fields ← asRecord (some value) "fileIdentity must be an object"
    assertOnlyKeys fields ["dev", "ino"] "fileIdentity"
    let dev ← assertDecimalString (value.get? "dev") "dev"
    let ino ← assertDecimalString (value.get? "ino") "ino"
    return some ⟨dev, ino⟩

/-- `SessionRevisionToken`, without the constant `schemaVersion`. -/
structure SessionRevisionToken where
  sessionId : String
  completeBytes : Nat
  recordCount : Nat
  leafId : Option String
  lastEntryId : Option String
  completePrefixSha256 : String
  fileIdentity : Option FileIdentity

/-- A text or `null`. -/
def nullable (text : Option String) : Json :=
  match text with
  | some text => .str text
  | none => .null

/-- A natural number as a JSON value. -/
def number (n : Nat) : Json := .num (.ofNat n)

/-- The JSON value of a token. -/
def SessionRevisionToken.toJson (token : SessionRevisionToken) : Json :=
  .obj ([("schemaVersion", number 1), ("sessionId", .str token.sessionId),
    ("completeBytes", number token.completeBytes), ("recordCount", number token.recordCount),
    ("leafId", nullable token.leafId), ("lastEntryId", nullable token.lastEntryId),
    ("completePrefixSha256", .str token.completePrefixSha256)] ++
      optionalField "fileIdentity" (token.fileIdentity.map FileIdentity.toJson))

/-- `EMPTY_SHA256`. -/
def emptySha256 : String := "e3b0c44298fc1c149afbf4c8996fb92427ae41e4649b934ca495991b7852b855"

/-- `schemaVersion` is absent or `1`. -/
def isSchemaVersionOne (value : Option Json) : Bool :=
  match value with
  | none => true
  | some version => version = number 1

/-- The relations between the fields of a token. -/
def checkRevision (token : SessionRevisionToken) : Result Unit := do
  require (decide (token.completeBytes = 0) == decide (token.recordCount = 0))
    "completeBytes and recordCount must both be empty or both be non-empty"
  require (decide (token.recordCount ≠ 0) || (token.leafId.isNone && token.lastEntryId.isNone))
    "an empty revision cannot identify entries"
  require (token.leafId.isNone || token.lastEntryId.isSome) "leafId requires a lastEntryId"
  require (decide (token.completeBytes ≠ 0) || decide (token.completePrefixSha256 = emptySha256))
    "an empty revision must use the SHA-256 digest of empty bytes"

/-- `createSessionRevisionToken(input)`. -/
def createSessionRevisionToken (input : Option Json) : Result SessionRevisionToken := do
  let fields ← asRecord input "session revision token must be an object"
  let get := (Json.obj fields).get?
  assertOnlyKeys fields
    ["schemaVersion", "sessionId", "completeBytes", "recordCount", "leafId", "lastEntryId",
      "completePrefixSha256", "fileIdentity"] "session revision token"
  require (isSchemaVersionOne (get "schemaVersion"))
    "unsupported session revision token schema version"
  let sessionId ← assertMetadataText (get "sessionId") "sessionId" maxMetadataLength
  let completeBytes ← assertSafeInteger (get "completeBytes") "completeBytes"
  let recordCount ← assertSafeInteger (get "recordCount") "recordCount"
  let leafId ← assertNullableMetadataText (get "leafId") "leafId" maxMetadataLength
  let lastEntryId ← assertNullableMetadataText (get "lastEntryId") "lastEntryId" maxMetadataLength
  let completePrefixSha256 ← assertSha256 (get "completePrefixSha256") "completePrefixSha256"
  checkRevision
    ⟨sessionId, completeBytes, recordCount, leafId, lastEntryId, completePrefixSha256, none⟩
  let fileIdentity ← copyFileIdentity (get "fileIdentity")
  return ⟨sessionId, completeBytes, recordCount, leafId, lastEntryId, completePrefixSha256,
    fileIdentity⟩

/-! ## Sources -/

/-- `CompactionSourceIdentity`. -/
structure CompactionSourceIdentity where
  sessionId : String
  entryIds : List String
  firstEntryId : String
  lastEntryId : String
  sourceSha256 : String
  activeLeafId : String
  messageCount : Nat

/-- The JSON value of a source identity. -/
def CompactionSourceIdentity.toJson (source : CompactionSourceIdentity) : Json :=
  .obj [("sessionId", .str source.sessionId), ("entryIds", .arr (source.entryIds.map .str)),
    ("firstEntryId", .str source.firstEntryId), ("lastEntryId", .str source.lastEntryId),
    ("sourceSha256", .str source.sourceSha256), ("activeLeafId", .str source.activeLeafId),
    ("messageCount", number source.messageCount)]

/-- The relations between the fields of a source. -/
def checkSource (source : CompactionSourceIdentity) : Result Unit := do
  require (source.messageCount ≤ source.entryIds.length)
    "source.messageCount cannot exceed source.entryIds length"
  require (some source.firstEntryId = source.entryIds.head? &&
      some source.lastEntryId = source.entryIds.getLast?)
    "source first/last IDs must match the ordered entry IDs"
  require (source.activeLeafId = source.lastEntryId)
    "source.activeLeafId must match source.lastEntryId"

/-- `MAX_SOURCE_ENTRIES`. -/
def maxSourceEntries : Nat := 4096

/-- `createCompactionSourceIdentity(input)`. -/
def createCompactionSourceIdentity (input : Option Json) : Result CompactionSourceIdentity := do
  let fields ← asRecord input "compaction source identity must be an object"
  let get := (Json.obj fields).get?
  assertOnlyKeys fields
    ["sessionId", "entryIds", "firstEntryId", "lastEntryId", "sourceSha256", "activeLeafId",
      "messageCount"] "compaction source identity"
  let sessionId ← assertMetadataText (get "sessionId") "source.sessionId" maxMetadataLength
  let entryIds ← copyIdArray (get "entryIds") "source.entryIds" maxSourceEntries
  require (!entryIds.isEmpty) "source.entryIds must be non-empty"
  let firstEntryId ← assertMetadataText (get "firstEntryId") "source.firstEntryId" maxMetadataLength
  let lastEntryId ← assertMetadataText (get "lastEntryId") "source.lastEntryId" maxMetadataLength
  let activeLeafId ← assertMetadataText (get "activeLeafId") "source.activeLeafId" maxMetadataLength
  let sourceSha256 ← assertSha256 (get "sourceSha256") "source.sourceSha256"
  let messageCount ← assertSafeInteger (get "messageCount") "source.messageCount"
  let source : CompactionSourceIdentity :=
    ⟨sessionId, entryIds, firstEntryId, lastEntryId, sourceSha256, activeLeafId, messageCount⟩
  checkSource source
  return source

/-! ## Envelopes -/

/-- `CompactionModelIdentity`. -/
structure CompactionModelIdentity where
  provider : String
  id : String

/-- The JSON value of a model identity. -/
def CompactionModelIdentity.toJson (model : CompactionModelIdentity) : Json :=
  .obj [("provider", .str model.provider), ("id", .str model.id)]

/-- `copyModelIdentity(value)`. -/
def copyModelIdentity (value : Option Json) : Result CompactionModelIdentity := do
  let fields ← asRecord value "model must be an object"
  let get := (Json.obj fields).get?
  assertOnlyKeys fields ["provider", "id"] "model"
  let provider ← assertMetadataText (get "provider") "model.provider" maxMetadataLength
  let id ← assertMetadataText (get "id") "model.id" maxMetadataLength
  return ⟨provider, id⟩

/-- `CompactionModelHistoryEntry`. -/
structure CompactionModelHistoryEntry where
  entryId : String
  provider : String
  modelId : String

/-- The JSON value of a history entry. -/
def CompactionModelHistoryEntry.toJson (entry : CompactionModelHistoryEntry) : Json :=
  .obj [("entryId", .str entry.entryId), ("provider", .str entry.provider),
    ("modelId", .str entry.modelId)]

/-- One item of `copyModelHistory`. -/
def copyModelHistoryEntry (item : Json) (index : Nat) : Result CompactionModelHistoryEntry := do
  let field := itemField "preserved.modelHistory" index
  let fields ← asRecord (some item) (field ++ " must be an object")
  let get := (Json.obj fields).get?
  assertOnlyKeys fields ["entryId", "provider", "modelId"] field
  let entryId ← assertMetadataText (get "entryId") (field ++ ".entryId") maxMetadataLength
  let provider ← assertMetadataText (get "provider") (field ++ ".provider") maxMetadataLength
  let modelId ← assertMetadataText (get "modelId") (field ++ ".modelId") maxMetadataLength
  return ⟨entryId, provider, modelId⟩

/-- `copyModelHistory(value)`. The code looks for a repeated `entryId` at each item. -/
def copyModelHistory (value : Option Json) : Result (List CompactionModelHistoryEntry) := do
  let copy ← copyArray copyModelHistoryEntry value 256
    "preserved.modelHistory must be a bounded array"
  require (copy.map CompactionModelHistoryEntry.entryId).Nodup
    "preserved.modelHistory must contain unique entryId values"
  return copy

/-- `CompactionPreservedProvenance`. -/
structure CompactionPreservedProvenance where
  latestIntent : String
  openTasks : List String
  laneIds : List String
  acceptancePredicateIds : List String
  evidenceReceiptIds : List String
  blockerReasons : List String
  repairEventIds : List String
  branch : Option String
  worktree : Option String
  modelHistory : List CompactionModelHistoryEntry
  nextAction : String

/-- A list of texts as a JSON value. -/
def texts (items : List String) : Json := .arr (items.map .str)

/-- The JSON value of the preserved provenance. -/
def CompactionPreservedProvenance.toJson (p : CompactionPreservedProvenance) : Json :=
  .obj [("latestIntent", .str p.latestIntent), ("openTasks", texts p.openTasks),
    ("laneIds", texts p.laneIds), ("acceptancePredicateIds", texts p.acceptancePredicateIds),
    ("evidenceReceiptIds", texts p.evidenceReceiptIds), ("blockerReasons", texts p.blockerReasons),
    ("repairEventIds", texts p.repairEventIds), ("branch", nullable p.branch),
    ("worktree", nullable p.worktree),
    ("modelHistory", .arr (p.modelHistory.map CompactionModelHistoryEntry.toJson)),
    ("nextAction", .str p.nextAction)]

/-- `MAX_PROVENANCE_IDS`. -/
def maxProvenanceIds : Nat := 1024

/-- `MAX_PROVENANCE_TEXT_LENGTH`. -/
def maxProvenanceTextLength : Nat := 4096

/-- `copyPreservedProvenance(input)`. -/
def copyPreservedProvenance (input : Option Json) : Result CompactionPreservedProvenance := do
  let fields ← asRecord input "preserved must be an object"
  let get := (Json.obj fields).get?
  assertOnlyKeys fields
    ["latestIntent", "openTasks", "laneIds", "acceptancePredicateIds", "evidenceReceiptIds",
      "blockerReasons", "repairEventIds", "branch", "worktree", "modelHistory", "nextAction"]
    "preserved"
  let latestIntent ← assertContentText (get "latestIntent") "preserved.latestIntent" 16384
  let openTasks ← copyTextArray (get "openTasks") "preserved.openTasks" maxProvenanceIds
    maxProvenanceTextLength false
  let laneIds ← copyTextArray (get "laneIds") "preserved.laneIds" maxProvenanceIds
    maxMetadataLength true
  let acceptancePredicateIds ← copyTextArray (get "acceptancePredicateIds")
    "preserved.acceptancePredicateIds" maxProvenanceIds maxMetadataLength true
  let evidenceReceiptIds ← copyTextArray (get "evidenceReceiptIds") "preserved.evidenceReceiptIds"
    maxProvenanceIds maxMetadataLength true
  let blockerReasons ← copyTextArray (get "blockerReasons") "preserved.blockerReasons"
    maxProvenanceIds maxProvenanceTextLength false
  let repairEventIds ← copyTextArray (get "repairEventIds") "preserved.repairEventIds"
    maxProvenanceIds maxMetadataLength true
  let branch ← assertNullableMetadataText (get "branch") "preserved.branch" maxProvenanceTextLength
  let worktree ← assertNullableMetadataText (get "worktree") "preserved.worktree"
    maxProvenanceTextLength
  let modelHistory ← copyModelHistory (get "modelHistory")
  let nextAction ← assertContentText (get "nextAction") "preserved.nextAction" 4096
  return ⟨latestIntent, openTasks, laneIds, acceptancePredicateIds, evidenceReceiptIds,
    blockerReasons, repairEventIds, branch, worktree, modelHistory, nextAction⟩

/-- `CompactionEnvelope`, without the constant `schemaVersion`. -/
structure CompactionEnvelope where
  transactionId : String
  baseRevision : SessionRevisionToken
  source : CompactionSourceIdentity
  createdAt : String
  model : CompactionModelIdentity
  summary : String
  summarySha256 : String
  preserved : CompactionPreservedProvenance

/-- The JSON value of an envelope. -/
def CompactionEnvelope.toJson (envelope : CompactionEnvelope) : Json :=
  .obj [("schemaVersion", number 2), ("transactionId", .str envelope.transactionId),
    ("baseRevision", envelope.baseRevision.toJson), ("source", envelope.source.toJson),
    ("createdAt", .str envelope.createdAt), ("model", envelope.model.toJson),
    ("summary", .str envelope.summary), ("summarySha256", .str envelope.summarySha256),
    ("preserved", envelope.preserved.toJson)]

/-- `MAX_SUMMARY_LENGTH`. -/
def maxSummaryLength : Nat := 262144

/-- `validateCompactionEnvelope(input)`. -/
def validateCompactionEnvelope (input : Option Json) : Result CompactionEnvelope := do
  let fields ← asRecord input "compaction envelope must be an object"
  let get := (Json.obj fields).get?
  assertOnlyKeys fields
    ["schemaVersion", "transactionId", "baseRevision", "source", "createdAt", "model", "summary",
      "summarySha256", "preserved"] "compaction envelope"
  require (get "schemaVersion" = some (number 2)) "unsupported compaction envelope schema version"
  let transactionId ← assertMetadataText (get "transactionId") "transactionId" maxMetadataLength
  let createdAt ← assertCanonicalTimestamp (get "createdAt")
  let summary ← assertContentText (get "summary") "summary" maxSummaryLength
  let summarySha256 ← assertSha256 (get "summarySha256") "summarySha256"
  let baseRevision ← createSessionRevisionToken (get "baseRevision")
  let source ← createCompactionSourceIdentity (get "source")
  require (baseRevision.sessionId = source.sessionId &&
      baseRevision.leafId = some source.activeLeafId)
    "envelope revision and source must identify the same session and active leaf"
  let model ← copyModelIdentity (get "model")
  let preserved ← copyPreservedProvenance (get "preserved")
  return ⟨transactionId, baseRevision, source, createdAt, model, summary, summarySha256, preserved⟩

end CodingAgent
