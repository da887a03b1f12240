import OmkVerified.CodingAgent.Session.Manager

/-!
# Opening and forking session files

Embedding of `setSessionFile`, the migrations and `forkFrom` of `session-manager.ts`.
-/

namespace CodingAgent

open Lib

/-! ## Migrations -/

/-- `value < bound` for a version number. -/
def decimalBelow (value : Decimal) (bound : Nat) : Bool :=
  if 0 ≤ value.exponent then decide (value.mantissa * 10 ^ value.exponent.toNat < bound)
  else decide (value.mantissa < bound * 10 ^ (-value.exponent).toNat)

/-- `(header.version ?? 1) < bound`. A version that is neither absent nor a number compares like
`NaN`. -/
def versionBelow (header : FileEntry) (bound : Nat) : Bool :=
  match header.get? "version" with
  | none | some .null => decide (1 < bound)
  | some (.num version) => decimalBelow version bound
  | some _ => false

/-- `delete entry[key]`. -/
def deleteField (entry : FileEntry) (key : String) : FileEntry :=
  match entry with
  | .obj fields => .obj (fields.filter fun f => f.1 ≠ key)
  | other => other

/-- The entry that `entries[index]` reads. -/
def entryAt (entries : List FileEntry) (index : Decimal) : Option FileEntry :=
  (index.toNat?).bind fun n => entries[n]?

/-- Converts `firstKeptEntryIndex`; `entries` are the records as migrated so far. -/
def migrateFirstKept (entries : List FileEntry) (entry : FileEntry) : FileEntry :=
  if hasType entry "compaction" then
    match entry.get? "firstKeptEntryIndex" with
    | some (.num index) =>
      let kept :=
        match entryAt entries index with
        | some target =>
          if isSession target then entry
          else
            match entryId target with
            | some id => entry.set "firstKeptEntryId" id
            | none => deleteField entry "firstKeptEntryId"
        | none => entry
      deleteField kept "firstKeptEntryIndex"
    | _ => entry
  else entry

/-- The loop of `migrateV1ToV2` over `rest`, after the migrated records `done`. Assigning a property
of a record that is not an object throws. The set of ids that the source hands to `generateId` is
always empty. -/
def migrateV1From (uuids : Nat → Nat → Uuid) : (done rest : List FileEntry) → (prevId : Json) →
    Result (List FileEntry)
  | done, [], _ => .ok done
  | done, entry :: rest, prevId =>
    if isSession entry then
      migrateV1From uuids (done ++ [entry.set "version" (number 2)]) rest prevId
    else if entry.isRecord then
      let id := generateId (fun _ => false) (uuids done.length)
      let identified := (entry.set "id" (.str id)).set "parentId" prevId
      let migrated := migrateFirstKept (done ++ identified :: rest) identified
      migrateV1From uuids (done ++ [migrated]) rest (.str id)
    else raise ("Cannot create property 'id' on " ++ displayValue entry)

/-- `migrateV1ToV2(entries)`. -/
def migrateV1ToV2 (uuids : Nat → Nat → Uuid) (entries : List FileEntry) : Result (List FileEntry) :=
  migrateV1From uuids [] entries .null

/-- The record that `migrateV2ToV3` makes of one. -/
def migrateV2Entry (entry : FileEntry) : FileEntry :=
  if isSession entry then entry.set "version" (number 3)
  else if hasType entry "message" then
    match entry.get? "message" with
    | some message =>
      if message.get? "role" = some (.str "hookMessage") then
        entry.set "message" (message.set "role" (.str "custom"))
      else entry
    | none => entry
  else entry

/-- `migrateV2ToV3(entries)`. -/
def migrateV2ToV3 (entries : List FileEntry) : List FileEntry := entries.map migrateV2Entry

/-- `migrateToCurrentVersion(entries)`: the records, and whether a migration was applied. -/
def migrateToCurrentVersion (uuids : Nat → Nat → Uuid) (entries : List FileEntry) :
    Result (List FileEntry × Bool) :=
  let header := (entries.find? isSession).getD .null
  if versionBelow header currentSessionVersion then do
    let entries ← if versionBelow header 2 then migrateV1ToV2 uuids entries else pure entries
    return (migrateV2ToV3 entries, true)
  else return (entries, false)

/-! ## Opening -/

/-- What opening a file takes from its environment. -/
structure OpenEnvironment where
  newSessionId : Uuid
  quarantineId : Uuid
  now : String
  uuids : Nat → Nat → Uuid
  quarantineGeneration : Generation
  trimmedGeneration : Generation
  generation : Generation

/-- The first free name of a backup: without a number, or with the first number that is free. -/
def backupPath (disk : Disk) (path : String) : (fuel : Nat) → (counter : Nat) → String
  | 0, counter => path ++ "-" ++ toString counter
  | fuel + 1, counter =>
    let candidate := if counter = 0 then path else path ++ "-" ++ toString counter
    if disk.has candidate then backupPath disk path fuel (counter + 1) else candidate

/-- `backupCorruptSessionFile(filePath)`: an empty file is not kept. -/
def backupCorruptSessionFile (disk : Disk) (path timestamp : String) : Disk :=
  match disk.get? path with
  | some file =>
    if file.bytes.isEmpty then disk
    else
      let backup := backupPath disk (path ++ ".corrupt-" ++ fileTimestamp timestamp) disk.size 0
      (disk.delete path).set backup file
  | none => disk

/-- The manager over loaded records. -/
def openedManager (path cwd dir sessionId : String) (entries : List FileEntry)
    (head : Option DurableHead) : Manager :=
  let s := buildIndex entries
  { sessionId := sessionId, sessionFile := some path, sessionDir := dir, cwd := cwd, persist := true
    flushed := true, fileEntries := entries, byId := s.byId, labelsById := s.labelsById
    labelTimestampsById := s.labelTimestampsById, leafId := s.leafId, acceptedDurableHead := head }

/-- `lastEntry && lastEntry.type !== "session" ? lastEntry.id : null`. -/
def lastLeafId (entries : List FileEntry) : Option Json :=
  match entries.getLast? with
  | some last => if isSession last then some .null else entryId last
  | none => some .null

/-- A file without a valid header is replaced by a new session. -/
def recoverSession (platform : Platform) (env : OpenEnvironment) (path cwd dir : String)
    (disk : Disk) : Disk × Result Manager :=
  let entries := [sessionHeader env.newSessionId.text env.now cwd none]
  let disk := rewriteFile (backupCorruptSessionFile disk path env.now) path entries env.generation
  (disk, do
    let head ← sessionDurableHeadFromFile platform disk path (some .null) entries
    return openedManager path cwd dir env.newSessionId.text entries head)

/-- The end of `setSessionFile` for records with a valid header; `snapshot` is the file after a
quarantine. -/
def acceptEntries (platform : Platform) (env : OpenEnvironment) (path cwd dir sessionId : String)
    (snapshot : Option DiskFile) (file : DiskFile) (entries : List FileEntry) (disk : Disk) :
    Disk × Result Manager :=
  let needsMigration := versionBelow (entries.headD .null) currentSessionVersion
  let accepted := do
    -- the head before a migration is compared with the same file after the validation
    if needsMigration then
      let _ ← sessionDurableHeadFromFile platform disk path (some (lastStringId entries)) entries
    validatePersistedCompactionEnvelopes platform file.bytes entries sessionId
    migrateToCurrentVersion env.uuids entries
  match accepted with
  | .error e => (disk, .error e)
  | .ok (entries, migrated) =>
    let disk := if migrated then rewriteFile disk path entries env.generation else disk
    (disk, do
      let head ←
        match migrated, snapshot with
        | false, some snapshot =>
          sessionDurableHeadFromSnapshot platform snapshot (lastLeafId entries) entries
        | _, _ => sessionDurableHeadFromFile platform disk path (lastLeafId entries) entries
      return openedManager path cwd dir sessionId entries head)

/-- `new SessionManager(cwd, dir, path, true)`, which is `setSessionFile(path)`. -/
def openSession (platform : Platform) (env : OpenEnvironment) (path cwd dir : String) (disk : Disk) :
    Disk × Result Manager :=
  match disk.get? path with
  | none =>
    (disk, .ok { newSession platform cwd dir true env.newSessionId.text env.now none with
      sessionFile := some path })
  | some file =>
    match quarantineSessionTrailingFragment disk path file env.quarantineId.text
      env.quarantineGeneration env.trimmedGeneration with
    | .error e => (disk, .error e)
    | .ok (snapshot, disk) =>
      let file := snapshot.getD file
      let entries := loadEntries file.bytes
      match headerId entries with
      | none => recoverSession platform env path cwd dir disk
      | some sessionId => acceptEntries platform env path cwd dir sessionId snapshot file entries disk

end CodingAgent
