import OmkVerified.Lib.JsonText
import OmkVerified.Lib.JsNumber
import OmkVerified.Lib.Utf8

/-!
# Session files

Embedding of the data model of `session-manager.ts`: the header and the entries of a session file,
how they are written and how they are loaded. A file is a sequence of lines, each a JSON value.

An entry is kept as the JSON value that the program reads and writes: `open` does not check more of
it than the code does. A field whose value is `undefined` is absent.
-/

namespace CodingAgent

open Lib

/-- A record of a session file: the header or an entry. -/
abbrev FileEntry := Json

/-- `entry.type === type`. -/
def hasType (entry : FileEntry) (type : String) : Bool :=
  decide (entry.get? "type" = some (.str type))

/-- `entry.type === "session"`. -/
def isSession (entry : FileEntry) : Bool := hasType entry "session"

/-- `entry.id`. -/
def entryId (entry : FileEntry) : Option Json := entry.get? "id"

/-- `entry.parentId`. -/
def entryParentId (entry : FileEntry) : Option Json := entry.get? "parentId"

/-- `condition` on a value that may be `undefined`. -/
def isTruthy (value : Option Json) : Bool := value.any Json.truthy

/-- `CURRENT_SESSION_VERSION`. -/
def currentSessionVersion : Nat := 3

/-- A field that is left out when its value is `undefined`. -/
def optionalField (key : String) (value : Option Json) : List (String × Json) :=
  match value with
  | some value => [(key, value)]
  | none => []

/-- The header that the current version writes. -/
def sessionHeader (id timestamp cwd : String) (parentSession : Option String) : FileEntry :=
  .obj ([("type", .str "session"), ("version", .num (.ofNat currentSessionVersion)),
    ("id", .str id), ("timestamp", .str timestamp), ("cwd", .str cwd)] ++
      optionalField "parentSession" (parentSession.map .str))

/-! ## The entries that are appended

The functions `append...` differ in the fields they add and in where they add them. -/

/-- `id`, `parentId` and `timestamp`. -/
def identityFields (id : String) (parentId : Option Json) (timestamp : String) :
    List (String × Json) :=
  ("id", .str id) :: optionalField "parentId" parentId ++ [("timestamp", .str timestamp)]

/-- The payload of an entry: what distinguishes the kinds of `SessionEntry`. -/
inductive Payload
  | message (message : Json)
  | thinkingLevelChange (thinkingLevel : String)
  | modelChange (provider modelId : String)
  | compaction (summary firstKeptEntryId : String) (tokensBefore : Decimal)
      (details : Option Json) (fromHook : Option Bool)
  | branchSummary (fromId summary : String) (details : Option Json) (fromHook : Option Bool)
  | custom (customType : String) (data : Option Json)
  | customMessage (customType : String) (content : Json) (display : Bool) (details : Option Json)
  | label (targetId : String) (label : Option String)
  | sessionInfo (name : String)

/-- `SessionEntry`, with the fields in the order of the object literals of the source. -/
def makeEntry (payload : Payload) (id : String) (parentId : Option Json) (timestamp : String) :
    FileEntry :=
  let identity := identityFields id parentId timestamp
  match payload with
  | .message message => .obj (("type", .str "message") :: identity ++ [("message", message)])
  | .thinkingLevelChange thinkingLevel =>
    .obj (("type", .str "thinking_level_change") :: identity ++
      [("thinkingLevel", .str thinkingLevel)])
  | .modelChange provider modelId =>
    .obj (("type", .str "model_change") :: identity ++
      [("provider", .str provider), ("modelId", .str modelId)])
  | .compaction summary firstKeptEntryId tokensBefore details fromHook =>
    .obj (("type", .str "compaction") :: identity ++
      [("summary", .str summary), ("firstKeptEntryId", .str firstKeptEntryId),
        ("tokensBefore", .num tokensBefore)] ++
      optionalField "details" details ++ optionalField "fromHook" (fromHook.map .bool))
  | .branchSummary fromId summary details fromHook =>
    .obj (("type", .str "branch_summary") :: identity ++
      [("fromId", .str fromId), ("summary", .str summary)] ++
      optionalField "details" details ++ optionalField "fromHook" (fromHook.map .bool))
  | .custom customType data =>
    .obj (("type", .str "custom") :: ("customType", .str customType) ::
      optionalField "data" data ++ identity)
  | .customMessage customType content display details =>
    .obj (("type", .str "custom_message") :: ("customType", .str customType) ::
      ("content", content) :: ("display", .bool display) ::
      optionalField "details" details ++ identity)
  | .label targetId label =>
    .obj (("type", .str "label") :: identity ++
      ("targetId", .str targetId) :: optionalField "label" (label.map .str))
  | .sessionInfo name => .obj (("type", .str "session_info") :: identity ++ [("name", .str name)])

/-! ## Writing and loading -/

/-- `serializeFileEntries(entries)`. -/
def serializeFileEntries (entries : List FileEntry) : List Char :=
  ['\n'].intercalate (entries.map Json.stringify) ++ ['\n']

/-- `parseSessionEntryLine(line)`: `null` for a blank or malformed line. -/
def parseSessionEntryLine (line : List Char) : Option FileEntry :=
  if (trim line).isEmpty then none else Json.parse line

/-- The entries of complete lines, without those for which `if (entry)` fails. -/
def parseLines (lines : List (List Char)) : List FileEntry :=
  (lines.filterMap parseSessionEntryLine).filter Json.truthy

/-- The lines that end in a line feed; what follows the last one is never parsed. -/
def completeLines (text : List Char) : List (List Char) := (text.splitOn '\n').dropLast

/-- The first record is a session header with a string id. -/
def hasHeader (entries : List FileEntry) : Bool :=
  match entries with
  | header :: _ =>
    isSession header &&
      match entryId header with
      | some (.str _) => true
      | _ => false
  | [] => false

/-- `loadEntriesFromFile` on the bytes of the file. The streaming `StringDecoder` decodes the same
text whatever the chunks are, so the chunks are not modelled. -/
def loadEntries (bytes : List UInt8) : List FileEntry :=
  let entries := parseLines (completeLines (Utf8.decode bytes))
  if hasHeader entries then entries else []

end CodingAgent
