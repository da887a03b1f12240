import OmkVerified.CodingAgent.Session.Entry
import OmkVerified.Lib.Chain
import OmkVerified.Lib.OrderedMap

/-!
# The session context

Embedding of the tree traversal of `session-manager.ts`: the index by id, the branch from the root
to an entry, and `buildSessionContext`, which resolves a branch to the messages that are sent to the
model.

The code follows parent links until there is none; on a cycle it does not return, which is the error
`diverges` here.
-/

namespace CodingAgent

open Lib

/-- Why an operation has no result. -/
inductive SessionError
  | thrown (message : String)
  | diverges
deriving DecidableEq

/-- `SHA256_PATTERN`. -/
def isSha256 (text : String) : Bool :=
  text.toList.length = 64 && text.toList.all fun c => c.isDigit || ('a' ≤ c && c ≤ 'f')

/-- The services of the platform: the SHA-256 digest of `node:crypto` in hexadecimal,
`new Date(value).getTime()`, where `none` is `NaN`, and `join` of `node:path`. -/
structure Platform where
  sha256 : List UInt8 → String
  sha256_hex : ∀ bytes, isSha256 (sha256 bytes) = true
  getTime : Option Json → Option Decimal
  join : String → String → String

theorem isSha256_zeros (_ : List UInt8) :
    isSha256 (String.ofList (List.replicate 64 '0')) = true := by
  rw [isSha256, String.toList_ofList]
  decide

/-- `Map<string, SessionEntry>`. -/
abbrev Index := OrderedMap (Option Json) FileEntry

/-- `byId.set(entry.id, entry)` for each entry. -/
def indexEntries (entries : List FileEntry) : Index :=
  entries.foldl (fun byId entry => byId.set (entryId entry) entry) .empty

/-- `current.parentId ? byId.get(current.parentId) : undefined`. The value of a `parentId` field that
is an object is not the key of any entry. -/
def parentEntry (byId : Index) (entry : FileEntry) : Option FileEntry :=
  match entryParentId entry with
  | some parentId =>
    if parentId.truthy && parentId.isPrimitive then byId.get? (some parentId) else none
  | none => none

/-- The entries from the root to `entry`. -/
def pathTo (byId : Index) (entry : FileEntry) : Except SessionError (List FileEntry) :=
  match walk (parentEntry byId) (byId.size + 1) entry with
  | some path => .ok path
  | none => .error .diverges

/-- `getBranch(fromId)` with the start already chosen. -/
def branchFrom (byId : Index) (startId : Option Json) : Except SessionError (List FileEntry) :=
  if isTruthy startId then
    match byId.get? startId with
    | some entry => pathTo byId entry
    | none => .ok []
  else .ok []

/-- `SessionContext`. -/
structure SessionContext where
  messages : List Json
  thinkingLevel : Option Json
  model : Option (Option Json × Option Json)

def SessionContext.empty : SessionContext := ⟨[], some (.str "off"), none⟩

/-- `entry.message.role`. -/
def messageRole (entry : FileEntry) : Except SessionError (Option Json) :=
  match entry.get? "message" with
  | none => .error (.thrown "Cannot read properties of undefined (reading 'role')")
  | some .null => .error (.thrown "Cannot read properties of null (reading 'role')")
  | some message => .ok (message.get? "role")

/-- What the first pass over the path collects. -/
structure Settings where
  thinkingLevel : Option Json
  model : Option (Option Json × Option Json)
  compaction : Option FileEntry

def Settings.initial : Settings := ⟨some (.str "off"), none, none⟩

/-- One step of the first pass. -/
def Settings.step (s : Settings) (entry : FileEntry) : Except SessionError Settings :=
  if hasType entry "thinking_level_change" then
    .ok { s with thinkingLevel := entry.get? "thinkingLevel" }
  else if hasType entry "model_change" then
    .ok { s with model := some (entry.get? "provider", entry.get? "modelId") }
  else if hasType entry "message" then
    match messageRole entry with
    | .error e => .error e
    | .ok role =>
      if role = some (.str "assistant") then
        let message := (entry.get? "message").getD .null
        .ok { s with model := some (message.get? "provider", message.get? "model") }
      else .ok s
  else if hasType entry "compaction" then .ok { s with compaction := some entry }
  else .ok s

/-- `new Date(timestamp).getTime()` as a field of a message. -/
def timeField (platform : Platform) (entry : FileEntry) : String × Json :=
  ("timestamp", ((platform.getTime (entry.get? "timestamp")).map .num).getD .null)

/-- The message that an entry contributes. -/
def entryMessage (platform : Platform) (entry : FileEntry) : List Json :=
  if hasType entry "message" then (entry.get? "message").toList
  else if hasType entry "custom_message" then
    [.obj (("role", .str "custom") :: optionalField "customType" (entry.get? "customType") ++
      optionalField "content" (entry.get? "content") ++
      optionalField "display" (entry.get? "display") ++
      optionalField "details" (entry.get? "details") ++ [timeField platform entry])]
  else if hasType entry "branch_summary" && isTruthy (entry.get? "summary") then
    [.obj (("role", .str "branchSummary") :: optionalField "summary" (entry.get? "summary") ++
      optionalField "fromId" (entry.get? "fromId") ++ [timeField platform entry])]
  else []

/-- `createCompactionSummaryMessage(...)`. -/
def compactionSummaryMessage (platform : Platform) (entry : FileEntry) : Json :=
  .obj (("role", .str "compactionSummary") :: optionalField "summary" (entry.get? "summary") ++
    optionalField "tokensBefore" (entry.get? "tokensBefore") ++ [timeField platform entry])

/-- `left === right`, where the two sides are never the same object. -/
def strictEq (left right : Option Json) : Bool := decide (left = right) && left.all Json.isPrimitive

/-- The entries of a path that contribute messages, given the latest compaction. -/
def keptEntries (path : List FileEntry) (compaction : FileEntry) : List FileEntry :=
  let index := path.findIdx fun e => hasType e "compaction" && decide (entryId e = entryId compaction)
  (path.take index).dropWhile (fun e => !strictEq (entryId e) (compaction.get? "firstKeptEntryId")) ++
    path.drop (index + 1)

/-- The context of a path. -/
def pathContext (platform : Platform) (path : List FileEntry) :
    Except SessionError SessionContext := do
  let settings ← path.foldlM Settings.step Settings.initial
  let messages :=
    match settings.compaction with
    | some compaction =>
      compactionSummaryMessage platform compaction ::
        (keptEntries path compaction).flatMap (entryMessage platform)
    | none => path.flatMap (entryMessage platform)
  return ⟨messages, settings.thinkingLevel, settings.model⟩

/-- The entry the context is built for. -/
def contextLeaf (entries : List FileEntry) (leafId : Option Json) (byId : Index) :
    Option FileEntry :=
  let leaf := if isTruthy leafId then byId.get? leafId else none
  leaf.orElse fun _ => entries.getLast?

/-- `buildSessionContext(entries, leafId, byId)`. -/
def buildSessionContext (platform : Platform) (entries : List FileEntry) (leafId : Option Json)
    (byId : Index) : Except SessionError SessionContext :=
  if leafId = some .null then .ok .empty
  else
    match contextLeaf entries leafId byId with
    | none => .ok .empty
    | some leaf => pathTo byId leaf >>= pathContext platform

end CodingAgent
