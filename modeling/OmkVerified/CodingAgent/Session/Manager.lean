import OmkVerified.CodingAgent.Session.Disk

/-!
# The session manager

Embedding of the class `SessionManager` of `session-manager.ts`: its state, the operations that
append entries and move the leaf, and `createBranchedSession`. An operation that throws leaves the
manager as it was; what it had written stays on the disk.

What the operations take from their environment is an argument: the results of `randomUUID`, the
time, and the generation that the file system gives to a written file.
-/

namespace CodingAgent

open Lib

/-- The text of a UUID. -/
structure Uuid where
  text : String
  length_eq : text.toList.length = 36
  chars : ∀ c ∈ text.toList, isUuidChar c = true

/-- `randomUUID().slice(0, 8)`. -/
def Uuid.short (uuid : Uuid) : String := String.ofList (uuid.text.toList.take 8)

/-- The first of `count` candidates that is not taken. -/
def firstFree (has : String → Bool) (uuids : Nat → Uuid) : (count : Nat) → (index : Nat) →
    Option String
  | 0, _ => none
  | count + 1, index =>
    if has (uuids index).short then firstFree has uuids count (index + 1)
    else some (uuids index).short

/-- `generateId(byId)`: a full UUID after a hundred collisions. -/
def generateId (has : String → Bool) (uuids : Nat → Uuid) : String :=
  (firstFree has uuids 100 0).getD (uuids 100).text

/-- The state of a `SessionManager`. -/
structure Manager where
  sessionId : String
  sessionFile : Option String
  sessionDir : String
  cwd : String
  persist : Bool
  flushed : Bool
  fileEntries : List FileEntry
  byId : Index
  labelsById : OrderedMap (Option Json) Json
  labelTimestampsById : OrderedMap (Option Json) (Option Json)
  leafId : Option Json
  acceptedDurableHead : Option DurableHead

/-- A manager and the disk it writes to. -/
structure World where
  disk : Disk
  manager : Manager

/-- What an operation takes from its environment. -/
structure Environment where
  uuids : Nat → Uuid
  now : String
  generation : Generation

/-! ## Construction -/

/-- `timestamp.replace(/[:.]/g, "-")`. -/
def fileTimestamp (timestamp : String) : String :=
  String.ofList (timestamp.toList.map fun c => if c = ':' ∨ c = '.' then '-' else c)

/-- The path of a new session file. -/
def newSessionPath (platform : Platform) (dir timestamp id : String) : String :=
  platform.join dir (fileTimestamp timestamp ++ "_" ++ id ++ ".jsonl")

/-- `newSession(options)` of a manager whose directory, cwd and mode are given. -/
def newSession (platform : Platform) (cwd sessionDir : String) (persist : Bool) (id timestamp : String)
    (parentSession : Option String) : Manager where
  sessionId := id
  sessionFile := if persist then some (newSessionPath platform sessionDir timestamp id) else none
  sessionDir := sessionDir
  cwd := cwd
  persist := persist
  flushed := false
  fileEntries := [sessionHeader id timestamp cwd parentSession]
  byId := .empty
  labelsById := .empty
  labelTimestampsById := .empty
  leafId := some .null
  acceptedDurableHead := none

/-! ## The index -/

/-- The maps and the leaf of a manager. -/
structure IndexState where
  byId : Index
  labelsById : OrderedMap (Option Json) Json
  labelTimestampsById : OrderedMap (Option Json) (Option Json)
  leafId : Option Json

def IndexState.empty : IndexState := ⟨.empty, .empty, .empty, some .null⟩

/-- The effect of a label entry on the label maps. -/
def IndexState.applyLabel (s : IndexState) (targetId label timestamp : Option Json) : IndexState :=
  match label with
  | some value =>
    if value.truthy then
      { s with
        labelsById := s.labelsById.set targetId value
        labelTimestampsById := s.labelTimestampsById.set targetId timestamp }
    else
      { s with
        labelsById := s.labelsById.delete targetId
        labelTimestampsById := s.labelTimestampsById.delete targetId }
  | none =>
    { s with
      labelsById := s.labelsById.delete targetId
      labelTimestampsById := s.labelTimestampsById.delete targetId }

/-- One step of `_buildIndex`. -/
def IndexState.step (s : IndexState) (entry : FileEntry) : IndexState :=
  if isSession entry then s
  else
    let s := { s with byId := s.byId.set (entryId entry) entry, leafId := entryId entry }
    if hasType entry "label" then
      s.applyLabel (entry.get? "targetId") (entry.get? "label") (entry.get? "timestamp")
    else s

/-- `_buildIndex()`. -/
def buildIndex (entries : List FileEntry) : IndexState := entries.foldl IndexState.step .empty

/-- The index of a manager. -/
def Manager.index (m : Manager) : IndexState :=
  ⟨m.byId, m.labelsById, m.labelTimestampsById, m.leafId⟩

/-- The manager with another index. -/
def Manager.withIndex (m : Manager) (s : IndexState) : Manager :=
  { m with
    byId := s.byId
    labelsById := s.labelsById
    labelTimestampsById := s.labelTimestampsById
    leafId := s.leafId }

/-- `getEntries()`. -/
def Manager.getEntries (m : Manager) : List FileEntry := m.fileEntries.filter fun e => !isSession e

/-- `getBranch(fromId)`. -/
def Manager.getBranch (m : Manager) (fromId : Option Json) : Result (List FileEntry) :=
  branchFrom m.byId (fromId.orElse fun _ => m.leafId)

/-- `buildSessionContext()` of the manager at `leafId`. -/
def Manager.contextAt (platform : Platform) (m : Manager) (leafId : Option Json) :
    Result SessionContext :=
  buildSessionContext platform m.getEntries leafId m.byId

/-- `buildSessionContext()` of the manager. -/
def Manager.buildSessionContext (platform : Platform) (m : Manager) : Result SessionContext :=
  m.contextAt platform m.leafId

/-! ## Appending -/

/-- `entries.some((entry) => entry.type === "message" && entry.message.role === "assistant")`. -/
def hasAssistant : List FileEntry → Result Bool
  | [] => .ok false
  | entry :: entries =>
    if hasType entry "message" then do
      let role ← messageRole entry
      if role = some (.str "assistant") then return true else hasAssistant entries
    else hasAssistant entries

/-- `_assertAcceptedDurableHead()`. -/
def assertAcceptedDurableHead (platform : Platform) (w : World) : Result Unit :=
  match w.manager.sessionFile with
  | none => .ok ()
  | some path => do
    let current ← sessionDurableHeadFromFile platform w.disk path w.manager.leafId
      (loadEntriesFromFile w.disk path)
    if (current.isNone && w.disk.has path) ||
        !sameDurableSessionHead current w.manager.acceptedDurableHead then
      .error staleWrite
    else .ok ()

/-- The manager after `entry` was accepted. -/
def Manager.accept (m : Manager) (entry : FileEntry) : Manager :=
  { m with
    fileEntries := m.fileEntries ++ [entry]
    byId := m.byId.set (entryId entry) entry
    leafId := entryId entry }

/-- The line of an entry. -/
def entryLine (entry : FileEntry) : List UInt8 := Utf8.encode (Json.stringify entry ++ ['\n'])

/-- `appendFileDurablySync(path, bytes)`. -/
def appendFile (disk : Disk) (path : String) (bytes : List UInt8) (generation : Generation) : Disk :=
  let before := ((disk.get? path).map DiskFile.bytes).getD []
  disk.set path ⟨before ++ bytes, generation⟩

/-- `atomicRewriteFileSync(path, serializeFileEntries(entries))`. -/
def rewriteFile (disk : Disk) (path : String) (entries : List FileEntry) (generation : Generation) :
    Disk :=
  disk.set path ⟨Utf8.encode (serializeFileEntries entries), generation⟩

/-- The part of `_appendEntry` that writes: the disk, and the next head and mode. -/
def persistEntry (platform : Platform) (env : Environment) (path : String) (entry : FileEntry)
    (w : World) : Disk × Result (Option DurableHead × Bool) :=
  let candidates := w.manager.fileEntries ++ [entry]
  match hasAssistant candidates with
  | .error e => (w.disk, .error e)
  | .ok assistant =>
    if w.manager.flushed then
      let disk := appendFile w.disk path (entryLine entry) env.generation
      (disk, (sessionDurableHeadFromFile platform disk path (entryId entry) candidates).map (·, true))
    else if assistant then
      let disk := rewriteFile w.disk path candidates env.generation
      (disk, (sessionDurableHeadFromFile platform disk path (entryId entry) candidates).map (·, true))
    else (w.disk, .ok (w.manager.acceptedDurableHead, false))

/-- `_appendEntry(entry)`. -/
def appendEntry (platform : Platform) (env : Environment) (entry : FileEntry) (w : World) :
    World × Result Unit :=
  match w.manager.persist, w.manager.sessionFile with
  | true, some path =>
    match assertAcceptedDurableHead platform w with
    | .error e => (w, .error e)
    | .ok () =>
      match persistEntry platform env path entry w with
      | (disk, .error e) => ({ w with disk := disk }, .error e)
      | (disk, .ok (head, flushed)) =>
        -- memory is accepted after every persistence step succeeded
        (⟨disk, { w.manager.accept entry with acceptedDurableHead := head, flushed := flushed }⟩,
          .ok ())
  | _, _ => ({ w with manager := w.manager.accept entry }, .ok ())

/-- `generateId(this.byId)`. -/
def Manager.newId (m : Manager) (env : Environment) : String :=
  generateId (fun id => m.byId.has (some (.str id))) env.uuids

/-- An entry with a new id as a child of `parentId`. -/
def appendChild (platform : Platform) (env : Environment) (payload : Payload)
    (parentId : Option Json) (w : World) : World × Result String :=
  let id := w.manager.newId env
  match appendEntry platform env (makeEntry payload id parentId env.now) w with
  | (w', .ok ()) => (w', .ok id)
  | (w', .error e) => (w', .error e)

/-- An entry with a new id as a child of the leaf. -/
def appendPayload (platform : Platform) (env : Environment) (payload : Payload) (w : World) :
    World × Result String :=
  appendChild platform env payload w.manager.leafId w

def appendMessage (platform : Platform) (env : Environment) (message : Json) (w : World) :
    World × Result String :=
  appendPayload platform env (.message message) w

def appendThinkingLevelChange (platform : Platform) (env : Environment) (thinkingLevel : String)
    (w : World) : World × Result String :=
  appendPayload platform env (.thinkingLevelChange thinkingLevel) w

def appendModelChange (platform : Platform) (env : Environment) (provider modelId : String)
    (w : World) : World × Result String :=
  appendPayload platform env (.modelChange provider modelId) w

def appendCompaction (platform : Platform) (env : Environment) (summary firstKeptEntryId : String)
    (tokensBefore : Decimal) (details : Option Json) (fromHook : Option Bool) (w : World) :
    World × Result String :=
  appendPayload platform env (.compaction summary firstKeptEntryId tokensBefore details fromHook) w

def appendCustomEntry (platform : Platform) (env : Environment) (customType : String)
    (data : Option Json) (w : World) : World × Result String :=
  appendPayload platform env (.custom customType data) w

def appendSessionInfo (platform : Platform) (env : Environment) (name : String) (w : World) :
    World × Result String :=
  appendPayload platform env (.sessionInfo (String.ofList (trim name.toList))) w

def appendCustomMessageEntry (platform : Platform) (env : Environment) (customType : String)
    (content : Json) (display : Bool) (details : Option Json) (w : World) : World × Result String :=
  appendPayload platform env (.customMessage customType content display details) w

/-- `Entry ${id} not found`. -/
def entryNotFound (id : String) : SessionError := .thrown ("Entry " ++ id ++ " not found")

/-- `appendLabelChange(targetId, label)`. -/
def appendLabelChange (platform : Platform) (env : Environment) (targetId : String)
    (label : Option String) (w : World) : World × Result String :=
  if w.manager.byId.has (some (.str targetId)) then
    match appendPayload platform env (.label targetId label) w with
    | (w', .error e) => (w', .error e)
    | (w', .ok id) =>
      let s := w'.manager.index.applyLabel (some (.str targetId)) (label.map .str)
        (some (.str env.now))
      ({ w' with manager := w'.manager.withIndex s }, .ok id)
  else (w, .error (entryNotFound targetId))

/-! ## Branching -/

/-- `branch(branchFromId)`. -/
def branch (branchFromId : String) (w : World) : World × Result Unit :=
  if w.manager.byId.has (some (.str branchFromId)) then
    ({ w with manager := { w.manager with leafId := some (.str branchFromId) } }, .ok ())
  else (w, .error (entryNotFound branchFromId))

/-- `resetLeaf()`. -/
def resetLeaf (w : World) : World :=
  { w with manager := { w.manager with leafId := some .null } }

/-- `branchWithSummary(branchFromId, summary, details, fromHook)`; `none` is `null`. -/
def branchWithSummary (platform : Platform) (env : Environment) (branchFromId : Option String)
    (summary : String) (details : Option Json) (fromHook : Option Bool) (w : World) :
    World × Result String :=
  if branchFromId.all fun id => w.manager.byId.has (some (.str id)) then
    appendChild platform env
      (.branchSummary (branchFromId.getD "root") summary details fromHook)
      (some (nullable branchFromId)) w
  else (w, .error (entryNotFound (branchFromId.getD "")))

/-! ## Branched sessions -/

/-- A label that is written again into a branched session. -/
structure LabelToWrite where
  targetId : Json
  label : Json
  timestamp : Json

/-- `preservedLabels`: the labels of the copied label entries. -/
def preservedLabels (copied : List FileEntry) : OrderedMap (Option Json) (Option Json) :=
  (copied.filter fun e => hasType e "label").foldl
    (fun labels e => labels.set (e.get? "targetId") (e.get? "label")) .empty

/-- The condition under which a label is written again. -/
def labelToWrite (m : Manager) (copied : List FileEntry) (label : Option Json × Json) :
    Option LabelToWrite :=
  match label.1, (m.labelTimestampsById.get? label.1).join with
  | some targetId, some timestamp =>
    if targetId.isPrimitive && (copied.map entryId).contains (some targetId) && timestamp.truthy &&
        decide (((preservedLabels copied).get? label.1).join ≠ some label.2) then
      some ⟨targetId, label.2, timestamp⟩
    else none
  | _, _ => none

/-- `labelsToWrite`. -/
def labelsToWrite (m : Manager) (copied : List FileEntry) : List LabelToWrite :=
  m.labelsById.entries.filterMap (labelToWrite m copied)

/-- A label entry of a branched session. -/
def labelEntry (label : LabelToWrite) (id : String) (parentId : Json) : FileEntry :=
  .obj [("type", .str "label"), ("id", .str id), ("parentId", parentId),
    ("timestamp", label.timestamp), ("targetId", label.targetId), ("label", label.label)]

/-- The label entries, each a child of the one before; `taken` are the ids in use. -/
def makeLabelEntries (uuids : Nat → Nat → Uuid) : List LabelToWrite → (taken : List (Option Json)) →
    (parentId : Json) → (call : Nat) → List FileEntry
  | [], _, _, _ => []
  | label :: labels, taken, parentId, call =>
    let id := generateId (fun id => taken.contains (some (.str id))) (uuids call)
    labelEntry label id parentId ::
      makeLabelEntries uuids labels (taken ++ [some (.str id)]) (.str id) (call + 1)

/-- `copied[copied.length - 1]?.id || null`. -/
def lastIdOrNull (copied : List FileEntry) : Json :=
  match (copied.getLast?).bind entryId with
  | some id => if id.truthy then id else .null
  | none => .null

/-- What `createBranchedSession` takes from its environment. -/
structure BranchEnvironment where
  newSessionId : Uuid
  now : String
  uuids : Nat → Nat → Uuid
  generation : Generation

/-- The path and the header of the new session. -/
def branchPath (platform : Platform) (env : BranchEnvironment) (m : Manager) : String :=
  newSessionPath platform m.sessionDir env.now env.newSessionId.text

def branchHeader (env : BranchEnvironment) (m : Manager) : FileEntry :=
  sessionHeader env.newSessionId.text env.now m.cwd (if m.persist then m.sessionFile else none)

/-- The records of the new session: the header, the copied path and the labels. -/
def branchRecords (env : BranchEnvironment) (m : Manager) (copied : List FileEntry) :
    List FileEntry :=
  branchHeader env m :: copied ++
    makeLabelEntries env.uuids (labelsToWrite m copied) (copied.map entryId) (lastIdOrNull copied) 0

/-- The manager after it switched to the new session. -/
def Manager.switchTo (m : Manager) (sessionId : String) (entries : List FileEntry) : Manager :=
  { m.withIndex (buildIndex entries) with fileEntries := entries, sessionId := sessionId }

/-- The last id of the copied path and the labels. -/
def branchLeaf (records : List FileEntry) (copied : List FileEntry) : Option Json :=
  if records.length = copied.length + 1 then some (lastIdOrNull copied)
  else (records.getLast?).bind entryId

/-- The end of `createBranchedSession` in a manager that persists. -/
def switchPersisted (platform : Platform) (env : BranchEnvironment) (copied : List FileEntry)
    (w : World) : World × Result (Option String) :=
  let path := branchPath platform env w.manager
  let records := branchRecords env w.manager copied
  let switched := w.manager.switchTo env.newSessionId.text records
  match hasAssistant records with
  | .error e => (w, .error e)
  | .ok false =>
    (⟨w.disk, { switched with
      sessionFile := some path, acceptedDurableHead := none, flushed := false }⟩, .ok (some path))
  | .ok true =>
    if w.disk.has path then (w, .error (.thrown "Branched session path already exists"))
    else
      let disk := rewriteFile w.disk path records env.generation
      match sessionDurableHeadFromFile platform disk path (branchLeaf records copied) records with
      | .error e => ({ w with disk := disk }, .error e)
      | .ok head =>
        (⟨disk, { switched with
          sessionFile := some path, acceptedDurableHead := head, flushed := true }⟩, .ok (some path))

/-- `createBranchedSession(leafId)`. -/
def createBranchedSession (platform : Platform) (env : BranchEnvironment) (leafId : String)
    (w : World) : World × Result (Option String) :=
  match w.manager.getBranch (some (.str leafId)) with
  | .error e => (w, .error e)
  | .ok [] => (w, .error (entryNotFound leafId))
  | .ok path =>
    match rebindBranchedCompactionEnvelopes platform (branchHeader env w.manager)
      env.newSessionId.text path with
    | .error e => (w, .error e)
    | .ok copied =>
      if w.manager.persist then switchPersisted platform env copied w
      else
        ({ w with manager :=
          w.manager.switchTo env.newSessionId.text (branchRecords env w.manager copied) }, .ok none)

end CodingAgent
