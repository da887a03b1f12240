import OmkVerified.CodingAgent.Session.FileCompaction

/-!
# Durable session files

Embedding of `session-file-persistence.ts` and `session-file-head.ts`: the files that a session
manager writes, and the durable head by which it recognises that nobody else wrote its file.

Locks, file modes and hard links are not modelled: one manager writes its file alone. A write takes
effect as a whole and gives the file a new generation, which is an input of the operation.
-/

namespace CodingAgent

open Lib

/-- `DurableFileGeneration`: what `stat` tells about one generation of a file. -/
structure Generation where
  dev : UInt64
  ino : UInt64
  birthtimeNs : Int
  ctimeNs : Int
deriving DecidableEq, Inhabited

/-- `{ dev, ino }` as decimal texts. -/
def Generation.identity (generation : Generation) : FileIdentity :=
  ⟨String.ofList (Nat.toDigits 10 generation.dev.toNat),
    String.ofList (Nat.toDigits 10 generation.ino.toNat)⟩

/-- A file. -/
structure DiskFile where
  bytes : List UInt8
  generation : Generation
deriving DecidableEq, Inhabited

/-- The files, by path. -/
abbrev Disk := OrderedMap String DiskFile

/-- `loadEntriesFromFile(filePath)`. -/
def loadEntriesFromFile (disk : Disk) (path : String) : List FileEntry :=
  match disk.get? path with
  | some file => loadEntries file.bytes
  | none => []

/-- `SessionDurableHead`. -/
structure DurableHead where
  revision : SessionRevisionToken
  generation : Generation

/-- The id of the last entry, if it is a string. -/
def lastStringId (entries : List FileEntry) : Json :=
  match entries.getLast? with
  | some last =>
    if isSession last then .null
    else
      match entryId last with
      | some (.str id) => .str id
      | _ => .null
  | none => .null

/-- The argument of `createSessionRevisionToken` for the head of a file. -/
def headInput (platform : Platform) (file : DiskFile) (sessionId : String)
    (activeLeafId : Option Json) (entries : List FileEntry) : Json :=
  .obj ([("sessionId", .str sessionId), ("completeBytes", number file.bytes.length),
    ("recordCount", number (file.bytes.count 0x0a))] ++ optionalField "leafId" activeLeafId ++
      [("lastEntryId", lastStringId entries),
        ("completePrefixSha256", .str (platform.sha256 file.bytes)),
        ("fileIdentity", file.generation.identity.toJson)])

/-- The id of the header, when `entries` starts with a valid one. -/
def headerId (entries : List FileEntry) : Option String :=
  match entries with
  | header :: _ =>
    if isSession header then
      match entryId header with
      | some (.str id) => some id
      | _ => none
    else none
  | [] => none

/-- `sessionDurableHeadFromSnapshot(snapshot, activeLeafId, entries)`. -/
def sessionDurableHeadFromSnapshot (platform : Platform) (file : DiskFile)
    (activeLeafId : Option Json) (entries : List FileEntry) : Result (Option DurableHead) :=
  match headerId entries with
  | none => .ok none
  | some sessionId => do
    let revision ← createSessionRevisionToken
      (some (headInput platform file sessionId activeLeafId entries))
    return some ⟨revision, file.generation⟩

/-- `sessionDurableHeadFromFile(filePath, activeLeafId, entries)`. -/
def sessionDurableHeadFromFile (platform : Platform) (disk : Disk) (path : String)
    (activeLeafId : Option Json) (entries : List FileEntry) : Result (Option DurableHead) :=
  match disk.get? path with
  | none => .ok none
  | some file =>
    match headerId entries with
    | none => .ok none
    | some _ => do
      require (file.bytes.length ≤ maxSafeInteger) "Session file is too large"
      sessionDurableHeadFromSnapshot platform file activeLeafId entries

/-- `sameDurableSessionHead(left, right)`. -/
def sameDurableSessionHead : Option DurableHead → Option DurableHead → Bool
  | none, none => true
  | some left, some right =>
    left.revision.sessionId = right.revision.sessionId &&
      left.revision.completeBytes = right.revision.completeBytes &&
      left.revision.recordCount = right.revision.recordCount &&
      left.revision.lastEntryId = right.revision.lastEntryId &&
      left.revision.completePrefixSha256 = right.revision.completePrefixSha256 &&
      left.generation = right.generation
  | _, _ => false

/-- `SessionManagerStaleWriteError`. -/
def staleWrite : SessionError :=
  .thrown "Session file changed since this manager accepted its durable head"

/-- The bytes up to the last line feed. -/
def completePrefix (bytes : List UInt8) : List UInt8 :=
  (bytes.reverse.dropWhile fun byte => byte ≠ 0x0a).reverse

/-- `sessionFileHasCompleteTail` without its size check. -/
def hasCompleteTail (bytes : List UInt8) : Bool := (bytes.getLast?).all fun byte => byte = 0x0a

/-- `quarantineSessionTrailingFragment(filePath)`: the fragment after the last line feed moves to a
file of its own. Returns the snapshot of the file after the rewrite. -/
def quarantineSessionTrailingFragment (disk : Disk) (path : String) (file : DiskFile)
    (quarantineId : String) (quarantineGeneration generation : Generation) :
    Result (Option DiskFile × Disk) := do
  require (file.bytes.length ≤ maxSafeInteger) "Session file is too large"
  if hasCompleteTail file.bytes then return (none, disk)
  let kept := completePrefix file.bytes
  let quarantinePath := path ++ ".quarantine-" ++ quarantineId
  require (!disk.has quarantinePath) ("EEXIST: file already exists, open '" ++ quarantinePath ++ "'")
  let rewritten : DiskFile := ⟨kept, generation⟩
  return (some rewritten,
    (disk.set quarantinePath ⟨file.bytes.drop kept.length, quarantineGeneration⟩).set path rewritten)

end CodingAgent
