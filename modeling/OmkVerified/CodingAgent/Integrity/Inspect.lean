import OmkVerified.Agent.Transcript
import OmkVerified.CodingAgent.Session.Disk
import OmkVerified.CodingAgent.Integrity.Shape

/-!
# The integrity of a session file

Embedding of `inspectSessionIntegrity` of `session-integrity.ts`: the inspection of the bytes of a
session file. It parses the complete lines strictly, checks the tree of the entries, and checks the
transcript of the active branch. What it finds is collected; later phases run on what the earlier
ones have let through.

Two loops of the code follow parent links. They are given as many steps as there are entries, and the
error `diverges` stands for a loop that needs more.
-/

namespace CodingAgent.Integrity

open Lib

/-! ## Reports -/

/-- `SessionIntegrityReasonCode`. -/
inductive ReasonCode
  | trailingFragment | invalidUtf8 | malformedJson | missingHeader | invalidHeader
  | unsupportedHeader | multipleHeader | lateHeader | invalidEntry | unsupportedEntry
  | duplicateEntryId | missingParent | selfCycle | parentCycle | activeLeafMissing
  | compactionFirstKeptNotAncestor | activeBranchContextInvalid
  | transcript (kind : Agent.TranscriptIntegrityIssueKind)
deriving DecidableEq

/-- The code as it is written. -/
def ReasonCode.text : ReasonCode → String
  | trailingFragment => "trailing_fragment"
  | invalidUtf8 => "invalid_utf8"
  | malformedJson => "malformed_json"
  | missingHeader => "missing_header"
  | invalidHeader => "invalid_header"
  | unsupportedHeader => "unsupported_header"
  | multipleHeader => "multiple_header"
  | lateHeader => "late_header"
  | invalidEntry => "invalid_entry"
  | unsupportedEntry => "unsupported_entry"
  | duplicateEntryId => "duplicate_entry_id"
  | missingParent => "missing_parent"
  | selfCycle => "self_cycle"
  | parentCycle => "parent_cycle"
  | activeLeafMissing => "active_leaf_missing"
  | compactionFirstKeptNotAncestor => "compaction_first_kept_not_ancestor"
  | activeBranchContextInvalid => "active_branch_context_invalid"
  | transcript kind => "transcript_" ++ kind.word

/-- `SessionIntegrityFinding`. -/
structure Finding where
  reason : ReasonCode
  line : Option Nat := none
  entryId : Option String := none
  parentId : Option String := none
  cycleEntryIds : Option (List String) := none
  toolCallId : Option String := none
  toolName : Option String := none

/-- `SessionByteDigest`. -/
structure ByteDigest where
  byteCount : Nat
  sha256 : String

/-- `SessionCompletePrefix`. -/
structure CompletePrefix extends ByteDigest where
  lineCount : Nat

/-- `SessionIntegrityReport`. -/
structure Report where
  ok : Bool
  source : ByteDigest
  completePrefix : CompletePrefix
  trailingFragment : Option ByteDigest
  header : Option FileEntry
  entries : List FileEntry
  activeLeafId : Option String
  activeBranch : List FileEntry
  activeMessages : List Json
  transcript : Option Agent.TranscriptIntegrityReport
  findings : List Finding

/-- One finding, if the condition holds. -/
def findingIf (condition : Bool) (finding : Finding) : List Finding :=
  if condition then [finding] else []

/-- A text field of a value that was checked. -/
def textOf : Option Json → String
  | some (.str text) => text
  | _ => ""

/-! ## Lines -/

/-- `ParsedRecord`. -/
structure ParsedRecord where
  line : Nat
  value : Json

/-- The lines of the complete prefix: `text.slice(0, -1).split("\n")`. -/
def recordTexts (text : List Char) : List (List Char) := text.dropLast.splitOn '\n'

/-- The loop over the lines. -/
def parseRecords : (line : Nat) → List (List Char) → List Finding × List ParsedRecord
  | _, [] => ([], [])
  | line, text :: texts =>
    let (findings, records) := parseRecords (line + 1) texts
    match (if (trim text).isEmpty then none else Json.parse text) with
    | some value => (findings, ⟨line, value⟩ :: records)
    | none => ({ reason := .malformedJson, line := some line } :: findings, records)

/-- The records of the complete prefix, and the number of its lines. -/
def readRecords (complete : List UInt8) : List Finding × Nat × List ParsedRecord :=
  if complete.isEmpty then ([], 0, [])
  else
    match Utf8.decodeFatal complete with
    | none => ([{ reason := .invalidUtf8 }], 0, [])
    | some text =>
      let (findings, records) := parseRecords 1 (recordTexts text)
      (findings, (recordTexts text).length, records)

/-! ## The header -/

/-- `isRecord(record.value) && record.value.type === "session"`. -/
def ParsedRecord.isHeader (record : ParsedRecord) : Bool := isSession record.value

/-- `value.version === CURRENT_SESSION_VERSION`. -/
def hasCurrentVersion (value : Json) : Bool :=
  decide (value.get? "version" = some (.num (.ofNat currentSessionVersion)))

/-- The fields of a header. -/
def validHeaderFields (value : Json) : Bool :=
  nonEmptyString (value.get? "id") && nonEmptyString (value.get? "timestamp") &&
    nonEmptyString (value.get? "cwd") && optionally isText (value.get? "parentSession")

/-- `validHeader(value, line, findings)`, as the findings it adds. -/
def headerFindings (value : Json) (line : Nat) : List Finding :=
  if !hasCurrentVersion value then [{ reason := .unsupportedHeader, line := some line }]
  else findingIf (!validHeaderFields value) { reason := .invalidHeader, line := some line }

/-- The record of the first line. -/
def firstRecord (records : List ParsedRecord) : Option ParsedRecord :=
  records.find? fun record => decide (record.line = 1)

/-- The header and the findings on it. -/
def readHeader (records : List ParsedRecord) : Option FileEntry × List Finding :=
  match firstRecord records with
  | some record =>
    if record.isHeader then
      let findings := headerFindings record.value 1
      (if findings.isEmpty then some record.value else none, findings)
    else (none, [{ reason := .missingHeader, line := some 1 }])
  | none => (none, [{ reason := .missingHeader, line := some 1 }])

/-- The findings on headers other than the first. -/
def lateHeaderFindings (records : List ParsedRecord) : List Finding :=
  let headers := records.filter ParsedRecord.isHeader
  (match headers with
    | _ :: second :: _ => [{ reason := .multipleHeader, line := some second.line }]
    | _ => []) ++
  headers.flatMap fun record =>
    if record.line = 1 then []
    else { reason := .lateHeader, line := some record.line } ::
      findingIf (!hasCurrentVersion record.value)
        { reason := .unsupportedHeader, line := some record.line }

/-! ## Entries -/

/-- `ParsedEntry`: an entry of a valid shape. -/
structure ParsedEntry (platform : Platform) where
  line : Nat
  entry : FileEntry
  valid : validEntryShape platform entry = true

/-- The id of an entry, which is a text. -/
def ParsedEntry.id {platform : Platform} (parsed : ParsedEntry platform) : String :=
  textOf (entryId parsed.entry)

/-- The checks of a record that is no header. -/
def checkEntry (platform : Platform) (record : ParsedRecord) :
    Except Finding (ParsedEntry platform) :=
  if !record.value.isRecord then .error { reason := .invalidEntry, line := some record.line }
  else if isText (record.value.get? "type") &&
      !supportedEntryTypes.contains (textOf (record.value.get? "type")) then
    .error { reason := .unsupportedEntry, line := some record.line }
  else if h : validEntryShape platform record.value then .ok ⟨record.line, record.value, h⟩
  else
    .error { reason := .invalidEntry, line := some record.line
             entryId := if isText (record.value.get? "id") then some (textOf (record.value.get? "id"))
               else none }

/-- The loop that collects the entries. -/
def checkEntries (platform : Platform) :
    List ParsedRecord → List Finding × List (ParsedEntry platform)
  | [] => ([], [])
  | record :: records =>
    let (findings, entries) := checkEntries platform records
    if record.isHeader then (findings, entries)
    else
      match checkEntry platform record with
      | .ok entry => (findings, entry :: entries)
      | .error finding => (finding :: findings, entries)

/-! ## The tree -/

section Tree

variable {platform : Platform}

/-- The finding on an entry whose id is taken. -/
def duplicateFinding (parsed : ParsedEntry platform) : Finding :=
  { reason := .duplicateEntryId, line := some parsed.line, entryId := some parsed.id }

/-- The loop that fills `byId`: the first entry of an id stays. -/
def indexFirst (entries : List (ParsedEntry platform)) : List Finding × Index :=
  entries.foldl
    (fun (findings, byId) parsed =>
      if byId.has (entryId parsed.entry) then (findings ++ [duplicateFinding parsed], byId)
      else (findings, byId.set (entryId parsed.entry) parsed.entry))
    ([], .empty)

/-- `entry.parentId !== null && !byId.has(entry.parentId)`. -/
def lacksParent (byId : Index) (entry : FileEntry) : Bool :=
  decide (entryParentId entry ≠ some .null) && !byId.has (entryParentId entry)

/-- The findings on entries whose parent is missing. -/
def parentFindings (entries : List (ParsedEntry platform)) (byId : Index) : List Finding :=
  entries.flatMap fun parsed =>
    findingIf (lacksParent byId parsed.entry)
      { reason := .missingParent, line := some parsed.line, entryId := some parsed.id
        parentId := some (textOf (entryParentId parsed.entry)) }

/-- `current.parentId === null ? undefined : byId.get(current.parentId)`. -/
def parentOf (byId : Index) (entry : FileEntry) : Option FileEntry :=
  if entryParentId entry = some .null then none else byId.get? (entryParentId entry)

/-- The key of the entry that comes after the entry with this key. -/
def parentKey (byId : Index) (key : Option Json) : Option (Option Json) :=
  (byId.get? key).bind fun entry => (parentOf byId entry).map fun _ => entryParentId entry

/-- The finding on a cycle. -/
def cycleFinding (cycle : List (Option Json)) : Finding where
  reason := if cycle.length = 1 then .selfCycle else .parentCycle
  entryId := cycle.head?.map textOf
  cycleEntryIds := some (cycle.map textOf)

/-- `findCycles(entries, byId)`. -/
def findCycles (entries : List (ParsedEntry platform)) (byId : Index) :
    Except SessionError (List Finding) :=
  match searchCycles (parentKey byId) (byId.size + 1) []
    (entries.map fun parsed => entryId parsed.entry) with
  | some cycles => .ok (cycles.map cycleFinding)
  | none => .error .diverges

end Tree

/-! ## The active branch -/

/-- The loop that collects the active branch. -/
def branchOf (byId : Index) (leafId : Option String) : Except SessionError (List FileEntry) :=
  match leafId.bind fun id => byId.get? (some (.str id)) with
  | none => .ok []
  | some leaf =>
    match walk (parentOf byId) (byId.size + 1) leaf with
    | some branch => .ok branch
    | none => .error .diverges

/-- The findings on compactions whose first kept entry is not an ancestor. -/
def compactionFindings : (ancestorIds : List (Option Json)) → List FileEntry → List Finding
  | _, [] => []
  | ancestorIds, entry :: entries =>
    findingIf (hasType entry "compaction" && !ancestorIds.contains (entry.get? "firstKeptEntryId"))
      { reason := .compactionFirstKeptNotAncestor, entryId := some (textOf (entryId entry)) } ++
    compactionFindings (ancestorIds ++ [entryId entry]) entries

/-- A block of an assistant message, as the transcript inspector reads it. -/
def transcriptBlock (block : Json) : Agent.AssistantBlock :=
  if isLiteral (block.get? "type") "toolCall" then
    .toolCall ⟨textOf (block.get? "id"), textOf (block.get? "name"),
      (block.get? "arguments").getD .null⟩
  else if isLiteral (block.get? "type") "thinking" then .thinking (textOf (block.get? "thinking"))
  else .text (textOf (block.get? "text"))

/-- A message of a context, as the transcript inspector reads it. Fields that it does not read have
no particular value. -/
def transcriptMessage (message : Json) : Except SessionError Agent.AgentMessage :=
  match message.get? "role" with
  | some (.str "assistant") =>
    match message.get? "content" with
    | some (.arr blocks) =>
      .ok (.assistant
        { content := blocks.map transcriptBlock
          api := textOf (message.get? "api")
          provider := textOf (message.get? "provider")
          model := textOf (message.get? "model")
          usage := Agent.emptyUsage
          stopReason := .stop
          errorMessage := none
          timestamp := 0 })
    | _ => .error (.thrown "message.content is not iterable")
  | some (.str "toolResult") =>
    .ok (.toolResult
      { toolCallId := textOf (message.get? "toolCallId")
        toolName := textOf (message.get? "toolName")
        content := []
        details := message.get? "details"
        isError := decide (message.get? "isError" = some (.bool true))
        timestamp := 0 })
  | some (.str "user") => .ok (.user [] 0)
  | _ => .ok (.custom message)

/-- The transcript of a context. -/
def transcriptOf (messages : List Json) : Except SessionError (List Agent.AgentMessage) :=
  messages.mapM transcriptMessage

/-- The finding on an issue of the transcript. -/
def issueFinding (issue : Agent.TranscriptIntegrityIssue) : Finding :=
  { reason := .transcript issue.kind, toolCallId := some issue.toolCallId
    toolName := issue.toolName }

/-- The part of the report on the active branch. -/
structure BranchPart where
  findings : List Finding
  activeBranch : List FileEntry
  activeMessages : List Json
  transcript : Option Agent.TranscriptIntegrityReport

/-- The id of the leaf as the context builder takes it: `null` selects the empty branch. -/
def leafKey : (leafId : Option String) → Option Json
  | some id => some (.str id)
  | none => some .null

/-- The messages of the active branch and the report on their transcript. -/
def branchTranscript (platform : Platform) (entries : List FileEntry) (leafId : Option String)
    (byId : Index) : Except SessionError (List Json × Agent.TranscriptIntegrityReport) := do
  let context ← buildSessionContext platform entries (leafKey leafId) byId
  let transcript ← transcriptOf context.messages
  return (context.messages, Agent.inspectTranscriptIntegrity transcript)

/-- The inspection of the active branch. What is thrown is caught. -/
def inspectBranch (platform : Platform) (entries : List FileEntry) (leafId : Option String)
    (byId : Index) : Except SessionError BranchPart :=
  match branchOf byId leafId with
  | .error e => .error e
  | .ok branch =>
    let compactions := compactionFindings [] branch
    if !compactions.isEmpty then .ok ⟨compactions, branch, [], none⟩
    else
      match branchTranscript platform entries leafId byId with
      | .ok (messages, transcript) =>
        .ok ⟨transcript.issues.map issueFinding, branch, messages, some transcript⟩
      | .error (.thrown _) =>
        .ok ⟨[{ reason := .activeBranchContextInvalid, entryId := leafId }], [], [], none⟩
      | .error .diverges => .error .diverges

/-- Whether a finding stops the inspection of the active branch. -/
def isStructural (finding : Finding) : Bool := decide (finding.reason ≠ .trailingFragment)

/-! ## The inspection -/

/-- What the phases before the active branch collect. -/
structure Structure (platform : Platform) where
  fragment : List UInt8
  lineCount : Nat
  header : Option FileEntry
  entries : List (ParsedEntry platform)
  byId : Index
  findings : List Finding

/-- The phases before the active branch. -/
def inspectStructure (platform : Platform) (bytes : List UInt8) :
    Except SessionError (Structure platform) := do
  let complete := CodingAgent.completePrefix bytes
  let fragment := bytes.drop complete.length
  let (lineFindings, lineCount, records) := readRecords complete
  let (header, firstFindings) := readHeader records
  let (entryFindings, entries) := checkEntries platform records
  let (duplicateFindings, byId) := indexFirst entries
  let cycleFindings ← findCycles entries byId
  return {
    fragment := fragment
    lineCount := lineCount
    header := header
    entries := entries
    byId := byId
    findings := findingIf (!fragment.isEmpty) { reason := .trailingFragment } ++ lineFindings ++
      firstFindings ++ lateHeaderFindings records ++ entryFindings ++ duplicateFindings ++
      parentFindings entries byId ++ cycleFindings }

/-- The leaf of the active branch: the last entry, unless the options name another. -/
def selectedLeaf {platform : Platform} (entries : List (ParsedEntry platform))
    (activeLeafId : Option (Option String)) : Option String :=
  match activeLeafId with
  | some leaf => leaf
  | none => entries.getLast?.map ParsedEntry.id

/-- The part of the report on the active branch. It is left out when there is a structural finding. -/
def branchPart (platform : Platform) (s : Structure platform) (leaf : Option String) :
    Except SessionError BranchPart :=
  match leaf.filter fun id => !s.byId.has (some (.str id)) with
  | some missing => .ok ⟨[{ reason := .activeLeafMissing, entryId := some missing }], [], [], none⟩
  | none =>
    if s.findings.any isStructural then .ok ⟨[], [], [], none⟩
    else inspectBranch platform (s.entries.map ParsedEntry.entry) leaf s.byId

/-- The report, from its two parts. -/
def reportOf (platform : Platform) (bytes : List UInt8) (s : Structure platform)
    (leaf : Option String) (branch : BranchPart) : Report where
  ok := (s.findings ++ branch.findings).isEmpty
  source := ⟨bytes.length, platform.sha256 bytes⟩
  completePrefix :=
    ⟨⟨(CodingAgent.completePrefix bytes).length,
      platform.sha256 (CodingAgent.completePrefix bytes)⟩, s.lineCount⟩
  trailingFragment :=
    if s.fragment.isEmpty then none else some ⟨s.fragment.length, platform.sha256 s.fragment⟩
  header := s.header
  entries := s.entries.map ParsedEntry.entry
  activeLeafId := leaf
  activeBranch := branch.activeBranch
  activeMessages := branch.activeMessages
  transcript := branch.transcript
  findings := s.findings ++ branch.findings

/-- `inspectSessionIntegrity(bytes, options)`; `activeLeafId` is the field of the options. -/
def inspectSessionIntegrity (platform : Platform) (bytes : List UInt8)
    (activeLeafId : Option (Option String) := none) : Except SessionError Report := do
  let s ← inspectStructure platform bytes
  let leaf := selectedLeaf s.entries activeLeafId
  let branch ← branchPart platform s leaf
  return reportOf platform bytes s leaf branch

end CodingAgent.Integrity
