import OmkVerified.CodingAgent.Session.Transaction

/-!
# Compaction envelopes in session files

Embedding of `session-file-compaction.ts`: the check that a session file makes of every compaction
envelope when it is opened, and the rebinding of the envelopes of a branch that is copied into a new
session.
-/

namespace CodingAgent

open Lib

/-- `String(value)`, as in an error message. -/
def displayValue : Json → String
  | .null => "null"
  | .bool b => toString b
  | .num n => String.ofList (Json.formatNumber n)
  | .str s => s
  | .arr items => String.intercalate "," (displayItems items)
  | .obj _ => "[object Object]"
where
  displayItems : List Json → List String
    | [] => []
    | .null :: items => "" :: displayItems items
    | item :: items => displayValue item :: displayItems items

def displayId (id : Option Json) : String := (id.map displayValue).getD "undefined"

/-- `envelopeFromEntry(entry)`. -/
def envelopeFromEntry (entry : FileEntry) : Result (Option CompactionEnvelope) :=
  match entry.get? "details" with
  | some (.obj details) =>
    match (Json.obj details).get? "compactionEnvelope" with
    | some envelope => (validateCompactionEnvelope (some envelope)).map some
    | none => .ok none
  | _ => .ok none

/-- `byId.get(key)`; an object is not the key of any entry. -/
def lookupEntry (byId : Index) (key : Option Json) : Option FileEntry :=
  if key.all Json.isPrimitive then byId.get? key else none

/-- `current.parentId === null ? undefined : byId.get(current.parentId)`. -/
def prefixParent (byId : Index) (entry : FileEntry) : Option FileEntry :=
  if entryParentId entry = some .null then none else lookupEntry byId (entryParentId entry)

/-- `branchFromPrefix(prefix, leafId)`. -/
def branchFromPrefix (entries : List FileEntry) (leafId : Option Json) :
    Result (List FileEntry) := do
  let byId := indexEntries (entries.filter fun e => !isSession e)
  let branch ←
    match lookupEntry byId leafId with
    | none => pure []
    | some leaf =>
      match walk (prefixParent byId) (byId.size + 1) leaf with
      | some branch => pure branch
      | none => raise ("Compaction source at " ++ displayId leafId ++ " contains a cycle")
  require (decide ((branch.getLast?).bind entryId = leafId))
    ("Compaction source leaf " ++ displayId leafId ++ " is outside the persisted prefix")
  return branch

/-- The digest of a text. -/
def sha256Text (platform : Platform) (text : List Char) : String := platform.sha256 (Utf8.encode text)

/-- `sourceSha256(entries)`. -/
def sourceSha256 (platform : Platform) (entries : List FileEntry) : String :=
  sha256Text platform (['\n'].intercalate (entries.map Json.stringify))

/-- `last?.type === "session" ? null : (last?.id ?? null)`. -/
def lastEntryIdOf (entries : List FileEntry) : Json :=
  match entries.getLast? with
  | some last => if isSession last then .null else (entryId last).getD .null
  | none => .null

/-- The argument of `createSessionRevisionToken` for a prefix of a session. -/
def revisionInput (sessionId : Json) (completeBytes recordCount : Nat) (leafId : Option Json)
    (lastEntryId : Json) (completePrefixSha256 : String) : Json :=
  .obj ([("sessionId", sessionId), ("completeBytes", number completeBytes),
    ("recordCount", number recordCount)] ++ optionalField "leafId" leafId ++
      [("lastEntryId", lastEntryId), ("completePrefixSha256", .str completePrefixSha256)])

/-- `prefixRevision(header, prefix, leafId)`. -/
def prefixRevision (platform : Platform) (sessionId : String) (entries : List FileEntry)
    (leafId : Option Json) : Result SessionRevisionToken :=
  let text := serializeFileEntries entries
  createSessionRevisionToken (some (revisionInput (.str sessionId) (Utf8.byteLength text)
    entries.length leafId (lastEntryIdOf entries) (sha256Text platform text)))

/-- `sameOrderedIds(left, right)`. -/
def sameOrderedIds (left : List String) (right : List FileEntry) : Bool :=
  decide (left.map (fun id => some (Json.str id)) = right.map entryId)

/-- `assertSourceMatches(entry, envelope, source)`. -/
def assertSourceMatches (platform : Platform) (entry : FileEntry) (envelope : CompactionEnvelope)
    (source : List FileEntry) : Result Unit :=
  require
    (envelope.source.sessionId ≠ "" && sameOrderedIds envelope.source.entryIds source &&
      envelope.source.sourceSha256 = sourceSha256 platform source &&
      some (.str envelope.source.activeLeafId) = entryParentId entry)
    ("Invalid compaction envelope source in entry " ++ displayId (entryId entry) ++
      ". Run the session doctor.")

/-- `persistedRecordStarts(bytes)`, from the offset `index` on: the offset after each line feed but
a final one. -/
def recordStartsFrom : List UInt8 → (index : Nat) → List Nat
  | [], _ => []
  | [_], _ => []
  | byte :: next :: bytes, index =>
    if byte = 0x0a then (index + 1) :: recordStartsFrom (next :: bytes) (index + 1)
    else recordStartsFrom (next :: bytes) (index + 1)

/-- `persistedRecordStarts(bytes)`. -/
def persistedRecordStarts (bytes : List UInt8) : List Nat := 0 :: recordStartsFrom bytes 0

/-- The binding of an envelope to the revision before its entry and to its summary. -/
def bindingMatches (platform : Platform) (sessionId : String) (entry : FileEntry)
    (summary : String) (envelope : CompactionEnvelope) (expected : SessionRevisionToken) : Bool :=
  let base := envelope.baseRevision
  base.sessionId = expected.sessionId && base.completeBytes = expected.completeBytes &&
    base.recordCount = expected.recordCount && base.leafId = expected.leafId &&
    base.lastEntryId = expected.lastEntryId &&
    base.completePrefixSha256 = expected.completePrefixSha256 &&
    envelope.source.sessionId = sessionId &&
    some (.str envelope.summary) = entry.get? "summary" &&
    envelope.summarySha256 = sha256Text platform summary.toList

/-- `createHash("sha256").update(entry.summary, "utf8")` throws for another type than a string. -/
def summaryText (entry : FileEntry) : Result String :=
  match entry.get? "summary" with
  | some (.str summary) => .ok summary
  | _ => raise "The \"data\" argument must be of type string or an instance of Buffer"

/-- The check of the entry at `index`. -/
def validatePersistedEntry (platform : Platform) (bytes : List UInt8) (entries : List FileEntry)
    (sessionId : String) (entry : FileEntry) (index : Nat) : Result Unit :=
  if hasType entry "compaction" then do
    match ← envelopeFromEntry entry with
    | none => return ()
    | some envelope =>
      require (entryParentId entry ≠ some .null)
        ("Compaction entry " ++ displayId (entryId entry) ++ " has no source leaf")
      let before := entries.take index
      let source ← branchFromPrefix before (entryParentId entry)
      match (persistedRecordStarts bytes).drop index with
      | [] => raise ("Compaction entry " ++ displayId (entryId entry) ++ " has no persisted prefix")
      | start :: _ =>
        let expected ← createSessionRevisionToken (some (revisionInput (.str sessionId) start index
          (entryParentId entry) (lastEntryIdOf before) (platform.sha256 (bytes.take start))))
        let summary ← summaryText entry
        require (bindingMatches platform sessionId entry summary envelope expected)
          ("Invalid compaction envelope binding in entry " ++ displayId (entryId entry) ++
            ". Run the session doctor.")
        assertSourceMatches platform entry envelope source
  else .ok ()

/-- The loop over the entries from `index` on. -/
def validateEntriesFrom (platform : Platform) (bytes : List UInt8) (entries : List FileEntry)
    (sessionId : String) : List FileEntry → (index : Nat) → Result Unit
  | [], _ => .ok ()
  | entry :: rest, index => do
    validatePersistedEntry platform bytes entries sessionId entry index
    validateEntriesFrom platform bytes entries sessionId rest (index + 1)

/-- `validatePersistedCompactionEnvelopes(path, entries, sessionId)`, with the bytes of the file. -/
def validatePersistedCompactionEnvelopes (platform : Platform) (bytes : List UInt8)
    (entries : List FileEntry) (sessionId : String) : Result Unit := do
  match entries with
  | [] => raise "Invalid session header"
  | header :: _ =>
    require (isSession header && entryId header = some (.str sessionId)) "Invalid session header"
    validateEntriesFrom platform bytes entries sessionId entries 0

/-! ## Rebinding -/

/-- The ids that the envelopes of the entries refer to. -/
def referencedIds : List FileEntry → Result (List String)
  | [] => .ok []
  | entry :: entries =>
    if hasType entry "compaction" then do
      let envelope ← envelopeFromEntry entry
      let ids ← referencedIds entries
      return (envelope.map fun e => e.source.entryIds).getD [] ++ ids
    else referencedIds entries

/-- The ids of entries as a JSON array. -/
def idArray (entries : List FileEntry) : Json := .arr (entries.map fun e => (entryId e).getD .null)

/-- `{ ...envelope.source, sessionId, entryIds, ... }`. -/
def reboundSource (platform : Platform) (sessionId : String) (entry : FileEntry)
    (envelope : CompactionEnvelope) (source : List FileEntry) (first last : FileEntry) : Json :=
  ((((((envelope.source.toJson.set "sessionId" (.str sessionId)).set "entryIds"
    (idArray source)).set "firstEntryId" ((entryId first).getD .null)).set "lastEntryId"
      ((entryId last).getD .null)).set "sourceSha256" (.str (sourceSha256 platform source))).set
        "activeLeafId" ((entryParentId entry).getD .null))

/-- The copy of a compaction entry with an envelope. -/
def rebindEnvelope (platform : Platform) (header : FileEntry) (sessionId : String)
    (original copied : List FileEntry) (entry : FileEntry) (envelope : CompactionEnvelope) :
    Result FileEntry := do
  require (entryParentId entry ≠ some .null)
    ("Compaction entry " ++ displayId (entryId entry) ++ " has no source leaf")
  let originalSource ← branchFromPrefix original (entryParentId entry)
  assertSourceMatches platform entry envelope originalSource
  let source ← branchFromPrefix (header :: copied) (entryParentId entry)
  match source.head?, source.getLast? with
  | some first, some last =>
    let revision ← prefixRevision platform sessionId (header :: copied) (entryParentId entry)
    let rebound ← validateCompactionEnvelope
      (some ((envelope.toJson.set "baseRevision" revision.toJson).set "source"
        (reboundSource platform sessionId entry envelope source first last)))
    let details := (entry.get? "details").getD .null
    return entry.set "details" (details.set "compactionEnvelope" rebound.toJson)
  | _, _ => raise ("Compaction entry " ++ displayId (entryId entry) ++ " has no source entries")

/-- The copy of an entry. -/
def rebindEntry (platform : Platform) (header : FileEntry) (sessionId : String)
    (original copied : List FileEntry) (entry : FileEntry) : Result FileEntry :=
  if hasType entry "compaction" then do
    match ← envelopeFromEntry entry with
    | some envelope => rebindEnvelope platform header sessionId original copied entry envelope
    | none => return entry
  else .ok entry

/-- A label that no envelope refers to is not copied. -/
def isDropped (referenced : List String) (entry : FileEntry) : Bool :=
  hasType entry "label" && !(referenced.any fun id => entryId entry = some (.str id))

/-- The loop over the entries, after `original`, of which `copied` was copied. -/
def rebindFrom (platform : Platform) (header : FileEntry) (sessionId : String)
    (referenced : List String) : List FileEntry → (original copied : List FileEntry) →
      Result (List FileEntry)
  | [], _, copied => .ok copied
  | entry :: rest, original, copied => do
    let copy ← rebindEntry platform header sessionId original copied entry
    let copied := if isDropped referenced entry then copied else copied ++ [copy]
    rebindFrom platform header sessionId referenced rest (original ++ [entry]) copied

/-- `rebindBranchedCompactionEnvelopes(header, entries)`. -/
def rebindBranchedCompactionEnvelopes (platform : Platform) (header : FileEntry)
    (sessionId : String) (entries : List FileEntry) : Result (List FileEntry) := do
  let referenced ← referencedIds entries
  rebindFrom platform header sessionId referenced entries [] []

end CodingAgent
