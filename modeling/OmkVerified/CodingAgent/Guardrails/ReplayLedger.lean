import OmkVerified.Lib.JsonRange
import OmkVerified.CodingAgent.Session.Transaction

/-!
# Events of the replay ledger

Embedding of the replay ledger of `evidence-system.ts`: the events, the hashes that chain them, the
line that a manager appends, and the parser that accepts a ledger. Payloads are values of
`JSON.parse`; a number outside the range of binary64 in one stands for an infinity.
-/

namespace CodingAgent.Replay

open Lib

/-- `ReplayEvent` without its `eventHash`. -/
structure ChainedEvent where
  seq : Decimal
  type : String
  timestamp : String
  goalId : String
  laneId : Option String
  payload : Json
  payloadHash : String
  prevHash : String

/-- `ReplayEvent`. -/
structure ReplayEvent extends ChainedEvent where
  eventHash : String

/-- `GENESIS_HASH`. -/
def genesisHash : String := "genesis"

/-- `createHash("sha256")` on bytes, in hexadecimal. -/
abbrev Digest := List UInt8 → String

/-- `sha256(input)`. -/
def hashText (sha256 : Digest) (input : List Char) : String := sha256 (Utf8.encode input)

/-- The array that `computeEventHash` serializes. Sequence numbers are far inside the range of
binary64. -/
def hashedFields (event : ChainedEvent) : Json :=
  .arr [.num event.seq, .str event.type, .str event.timestamp, .str event.goalId,
    (event.laneId.map Json.str).getD .null, .str event.payloadHash, .str event.prevHash]

/-- `computeEventHash(event)`. -/
def computeEventHash (sha256 : Digest) (event : ChainedEvent) : String :=
  hashText sha256 (Json.stringify (hashedFields event))

/-- `sha256(JSON.stringify(payload))`. -/
def computePayloadHash (sha256 : Digest) (payload : Json) : String :=
  hashText sha256 (Json.serialize payload)

/-! ## Parsing -/

/-- `Replay ledger corrupted at line ...`. -/
def corrupted {α : Type} (lineNumber : Nat) (detail : String) : Result α :=
  raise ("Replay ledger corrupted at line " ++ toString lineNumber ++ ": " ++ detail)

/-- A text. -/
def text? (value : Option Json) : Option String :=
  match value with
  | some (.str text) => some text
  | _ => none

/-- A number. -/
def number? (value : Option Json) : Option Decimal :=
  match value with
  | some (.num n) => some n
  | _ => none

/-- A text or `undefined`. -/
def optionalText? (value : Option Json) : Option (Option String) :=
  match value with
  | none => some none
  | some (.str text) => some (some text)
  | some _ => none

/-- The fields of an event, when none is missing or mistyped. -/
def eventFields? (raw : Json) : Option ReplayEvent := do
  let seq ← number? (raw.get? "seq")
  let type ← text? (raw.get? "type")
  let timestamp ← text? (raw.get? "timestamp")
  let goalId ← text? (raw.get? "goalId")
  let payloadHash ← text? (raw.get? "payloadHash")
  let prevHash ← text? (raw.get? "prevHash")
  let eventHash ← text? (raw.get? "eventHash")
  let laneId ← optionalText? (raw.get? "laneId")
  let payload ← raw.get? "payload"
  return ⟨⟨seq, type, timestamp, goalId, laneId, payload, payloadHash, prevHash⟩, eventHash⟩

/-- `parseReplayEventLine(line, lineNumber)`. -/
def parseReplayEventLine (line : List Char) (lineNumber : Nat) : Result ReplayEvent :=
  match Json.parse line with
  | none => corrupted lineNumber "invalid JSON"
  | some raw =>
    if raw.isRecord then
      match eventFields? raw with
      | some event => .ok event
      | none => corrupted lineNumber "event fields are missing or mistyped"
    else corrupted lineNumber "event must be an object"

/-- The lines that are not blank. -/
def ledgerLines (bytes : List UInt8) : List (List Char) :=
  ((Utf8.decode bytes).splitOn '\n').filter fun line => !(trim line).isEmpty

/-- The checks of an event against the chain before it. -/
def checkEvent (sha256 : Digest) (goalId : String) (index : Nat) (prevHash : String)
    (event : ReplayEvent) : Result Unit := do
  let line := toString (index + 1)
  let seq := String.ofList (Json.formatNumber event.seq)
  require (event.goalId = goalId) ("Replay ledger goal mismatch at line " ++ line)
  require (event.seq = .ofNat (index + 1))
    ("Replay ledger corrupted at line " ++ line ++ ": expected seq " ++ line ++ ", got " ++ seq)
  require (event.prevHash = prevHash) ("Replay ledger chain broken at line " ++ line)
  require (computePayloadHash sha256 event.payload = event.payloadHash)
    ("Replay ledger payload tampered at line " ++ line ++ " (seq " ++ seq ++ ")")
  require (computeEventHash sha256 event.toChainedEvent = event.eventHash)
    ("Replay ledger event hash mismatch at line " ++ line ++ " (seq " ++ seq ++ ")")

/-- The loop of `parseReplayLedgerBytes`. -/
def parseReplayEvents (sha256 : Digest) (goalId : String) :
    (index : Nat) → (prevHash : String) → List (List Char) → Result (List ReplayEvent)
  | _, _, [] => .ok []
  | index, prevHash, line :: lines => do
    let event ← parseReplayEventLine line (index + 1)
    checkEvent sha256 goalId index prevHash event
    let events ← parseReplayEvents sha256 goalId (index + 1) event.eventHash lines
    return event :: events

/-- `parseReplayLedgerBytes(bytes, goalId)`. -/
def parseReplayLedgerBytes (sha256 : Digest) (bytes : List UInt8) (goalId : String) :
    Result (List ReplayEvent) :=
  parseReplayEvents sha256 goalId 0 genesisHash (ledgerLines bytes)

/-! ## Appending -/

/-- What the caller of `append` passes. -/
structure AppendInput where
  type : String
  goalId : String
  laneId : Option String
  payload : Json

/-- The event that follows an event with the number `lastSeq` and the hash `lastHash`. -/
def chainEvent (sha256 : Digest) (input : AppendInput) (timestamp : String) (lastSeq : Nat)
    (lastHash : String) : ReplayEvent :=
  let chained : ChainedEvent :=
    { seq := .ofNat (lastSeq + 1)
      type := input.type
      timestamp := timestamp
      goalId := input.goalId
      laneId := input.laneId
      payload := input.payload
      payloadHash := computePayloadHash sha256 input.payload
      prevHash := lastHash }
  { chained with eventHash := computeEventHash sha256 chained }

/-- The object of an event, with the caller's fields first. -/
def ReplayEvent.toJson (event : ReplayEvent) : Json :=
  .obj ([("type", .str event.type), ("goalId", .str event.goalId)] ++
    optionalField "laneId" (event.laneId.map .str) ++
    [("payload", event.payload), ("seq", .num event.seq), ("timestamp", .str event.timestamp),
      ("payloadHash", .str event.payloadHash), ("prevHash", .str event.prevHash),
      ("eventHash", .str event.eventHash)])

/-- The event as a later load reads it: an infinity in the payload has become `null`. -/
def ReplayEvent.stored (event : ReplayEvent) : ReplayEvent :=
  { event with payload := event.payload.finite }

/-- The line of an event, with its line feed. -/
def eventLine (event : ReplayEvent) : List UInt8 :=
  Utf8.encode (Json.stringify event.stored.toJson ++ ['\n'])

/-- The bytes of the lines of events. -/
def ledgerBytes (events : List ReplayEvent) : List UInt8 := events.flatMap eventLine

/-- `last?.seq ?? 0` -/
def lastSeq (events : List ReplayEvent) : Nat :=
  (events.getLast?.bind fun event => event.seq.toNat?).getD 0

/-- `last?.eventHash ?? GENESIS_HASH` -/
def lastHash (events : List ReplayEvent) : String :=
  (events.getLast?.map (·.eventHash)).getD genesisHash

/-- The events of a manager after `append(event)`. -/
def appendEvent (sha256 : Digest) (goalId : String) (events : List ReplayEvent)
    (input : AppendInput) (timestamp : String) : Result (List ReplayEvent) := do
  require (input.goalId = goalId) "Replay event goalId does not match the ledger"
  return events ++ [chainEvent sha256 input timestamp (lastSeq events) (lastHash events)]

/-- The events of a manager after a sequence of calls at their times. A call that throws adds
none. -/
def appendEvents (sha256 : Digest) (goalId : String) (events : List ReplayEvent) :
    List (AppendInput × String) → List ReplayEvent
  | [] => events
  | (input, timestamp) :: calls =>
    match appendEvent sha256 goalId events input timestamp with
    | .ok events => appendEvents sha256 goalId events calls
    | .error _ => appendEvents sha256 goalId events calls

end CodingAgent.Replay
