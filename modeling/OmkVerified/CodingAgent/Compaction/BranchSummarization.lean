import OmkVerified.CodingAgent.Session.Manager

/-!
# Branch summaries

`branch-summarization.ts`: the entries that are left behind when the leaf moves to another branch, and
the messages among them that are summarized. What the model makes of the messages is not part of it. An
entry of type `message` has a message, and a message has the fields of its role.
-/

namespace CodingAgent

open Lib

/-! ## Collecting entries -/

structure CollectEntriesResult where
  entries : List FileEntry
  commonAncestorId : Option Json

/-- `session.getEntry(id)`. An object is no key of the index. -/
def Manager.getEntry (session : Manager) (id : Option Json) : Option FileEntry :=
  if id.all Json.isPrimitive then session.byId.get? id else none

/-- The loop from the old leaf back to the common ancestor. -/
def collectBack (session : Manager) (commonAncestorId : Option Json) : (fuel : Nat) →
    (current : Option Json) → (entries : List FileEntry) → Except SessionError (List FileEntry)
  | 0, _, _ => .error .diverges
  | fuel + 1, current, entries =>
    if isTruthy current && decide (current ≠ commonAncestorId) then
      match session.getEntry current with
      | none => .ok entries
      | some entry =>
        collectBack session commonAncestorId fuel (entryParentId entry) (entries ++ [entry])
    else .ok entries

def collectEntriesForBranchSummary (session : Manager) (oldLeafId : Option String)
    (targetId : String) : Except SessionError CollectEntriesResult :=
  if oldLeafId.getD "" = "" then .ok ⟨[], none⟩
  else do
    let oldLeaf := oldLeafId.map Json.str
    let oldBranch ← session.getBranch oldLeaf
    let oldPath := oldBranch.map entryId
    let targetPath ← session.getBranch (some (.str targetId))
    let commonAncestorId :=
      (targetPath.reverse.find? fun entry => entryId entry ∈ oldPath).bind entryId
    let entries ← collectBack session commonAncestorId (session.byId.size + 1) oldLeaf []
    return ⟨entries.reverse, commonAncestorId⟩

/-! ## Messages -/

def createBranchSummaryMessage (platform : Platform) (entry : FileEntry) : Json :=
  .obj (("role", .str "branchSummary") :: optionalField "summary" (entry.get? "summary") ++
    optionalField "fromId" (entry.get? "fromId") ++ [timeField platform entry])

def getMessageFromEntry (platform : Platform) (entry : FileEntry) : Option Json :=
  if hasType entry "message" then
    (entry.get? "message").filter fun message => message.get? "role" ≠ some (.str "toolResult")
  else if hasType entry "custom_message" then (entryMessage platform entry).head?
  else if hasType entry "branch_summary" then some (createBranchSummaryMessage platform entry)
  else if hasType entry "compaction" then some (compactionSummaryMessage platform entry)
  else none

/-- `value.length` of a string. -/
def textLength (value : Option Json) : Nat :=
  match value with
  | some (.str text) => jsLength text
  | _ => 0

/-- The elements of an array. -/
def elements (value : Option Json) : List Json :=
  match value with
  | some (.arr items) => items
  | _ => []

/-- `ESTIMATED_IMAGE_CHARS`. -/
def estimatedImageChars : Nat := 4800

def estimateTextAndImageContentChars (content : Option Json) : Nat :=
  textLength content + ((elements content).map fun block =>
    if hasType block "text" then textLength (block.get? "text")
    else if hasType block "image" then estimatedImageChars
    else 0).sum

/-- The characters of a block of an assistant message. -/
def assistantBlockChars (block : Json) : Nat :=
  if hasType block "text" then textLength (block.get? "text")
  else if hasType block "thinking" then textLength (block.get? "thinking")
  else if hasType block "toolCall" then
    textLength (block.get? "name") +
      (utf16 (Json.stringify ((block.get? "arguments").getD .null))).length
  else 0

/-- The characters that `estimateTokens` counts. -/
def messageChars (message : Json) : Nat :=
  match message.get? "role" with
  | some (.str "assistant") => ((elements (message.get? "content")).map assistantBlockChars).sum
  | some (.str "bashExecution") =>
    textLength (message.get? "command") + textLength (message.get? "output")
  | some (.str "branchSummary") => textLength (message.get? "summary")
  | some (.str "compactionSummary") => textLength (message.get? "summary")
  | some (.str "user") => estimateTextAndImageContentChars (message.get? "content")
  | some (.str "custom") => estimateTextAndImageContentChars (message.get? "content")
  | some (.str "toolResult") => estimateTextAndImageContentChars (message.get? "content")
  | _ => 0

/-- `Math.ceil(chars / 4)`. -/
def estimateTokens (message : Json) : Nat := (messageChars message + 3) / 4

/-! ## File operations -/

/-- The sets of `FileOperations`, in the order of insertion. -/
structure FileOperations where
  read : List Json
  written : List Json
  edited : List Json

/-- `set.add(path)`. -/
def addPath (paths : List Json) (path : Json) : List Json :=
  if path ∈ paths then paths else paths ++ [path]

/-- The operation of a tool call. -/
def extractFileOp (ops : FileOperations) (block : Json) : FileOperations :=
  match block.get? "arguments" with
  | none => ops
  | some args =>
    match args.get? "path" with
    | some (.str path) =>
      if path = "" ∨ hasType block "toolCall" = false then ops
      else if block.get? "name" = some (.str "read") then
        { ops with read := addPath ops.read (.str path) }
      else if block.get? "name" = some (.str "write") then
        { ops with written := addPath ops.written (.str path) }
      else if block.get? "name" = some (.str "edit") then
        { ops with edited := addPath ops.edited (.str path) }
      else ops
    | _ => ops

def extractFileOpsFromMessage (message : Json) (ops : FileOperations) : FileOperations :=
  if message.get? "role" = some (.str "assistant") then
    (elements (message.get? "content")).foldl extractFileOp ops
  else ops

/-- The first pass: what earlier branch summaries have recorded. -/
def summaryFileOps (entries : List FileEntry) : FileOperations :=
  entries.foldl (fun ops entry =>
    if hasType entry "branch_summary" && !isTruthy (entry.get? "fromHook") then
      let details := (entry.get? "details").getD .null
      { ops with
        read := (elements (details.get? "readFiles")).foldl addPath ops.read
        edited := (elements (details.get? "modifiedFiles")).foldl addPath ops.edited }
    else ops) ⟨[], [], []⟩

/-! ## Selecting messages -/

structure BranchPreparation where
  messages : List Json
  fileOps : FileOperations
  totalTokens : Nat

/-- `messages.unshift(message)` and `totalTokens += tokens`. -/
def BranchPreparation.unshift (p : BranchPreparation) (message : Json) : BranchPreparation :=
  { p with
    messages := message :: p.messages
    totalTokens := p.totalTokens + estimateTokens message }

/-- `entry.type === "compaction" || entry.type === "branch_summary"`. -/
def isSummaryEntry (entry : FileEntry) : Bool :=
  hasType entry "compaction" || hasType entry "branch_summary"

/-- The second pass, from the newest entry to the oldest. A budget that is not positive is no limit. -/
def selectBack (platform : Platform) (tokenBudget : Int) :
    List FileEntry → BranchPreparation → BranchPreparation
  | [], p => p
  | entry :: older, p =>
    match getMessageFromEntry platform entry with
    | none => selectBack platform tokenBudget older p
    | some message =>
      let p := { p with fileOps := extractFileOpsFromMessage message p.fileOps }
      if 0 < tokenBudget ∧ tokenBudget < p.totalTokens + estimateTokens message then
        if isSummaryEntry entry ∧ 10 * (p.totalTokens : Int) < 9 * tokenBudget then p.unshift message
        else p
      else selectBack platform tokenBudget older (p.unshift message)

def prepareBranchEntries (platform : Platform) (entries : List FileEntry) (tokenBudget : Int) :
    BranchPreparation :=
  selectBack platform tokenBudget entries.reverse ⟨[], summaryFileOps entries, 0⟩

/-- `(model.contextWindow || 128000) - reserveTokens`. -/
def branchTokenBudget (contextWindow : Nat) (reserveTokens : Option Nat) : Int :=
  ((if contextWindow = 0 then 128000 else contextWindow : Nat) : Int) - (reserveTokens.getD 16384 : Nat)

/-- What `generateBranchSummary` asks for. -/
inductive SummaryRequest
  /-- `{ summary: "No content to summarize" }`. -/
  | noContent
  | summarize (messages : List Json) (fileOps : FileOperations)

def SummaryRequest.messages : SummaryRequest → List Json
  | .noContent => []
  | .summarize messages _ => messages

/-- `generateBranchSummary(entries, options)` up to the request. -/
def generateBranchSummary (platform : Platform) (entries : List FileEntry) (contextWindow : Nat)
    (reserveTokens : Option Nat) : SummaryRequest :=
  let preparation := prepareBranchEntries platform entries (branchTokenBudget contextWindow reserveTokens)
  if preparation.messages = [] then .noContent
  else .summarize preparation.messages preparation.fileOps

/-! ## What is summarized -/

/-- The branch of the old position; none before there was one. -/
def IsOldBranch (session : Manager) (oldLeafId : Option String) (oldBranch : List FileEntry) : Prop :=
  match oldLeafId with
  | none => oldBranch = []
  | some id => session.getBranch (some (.str id)) = .ok oldBranch

/-- The entries with a message, and their messages. -/
def conversation (platform : Platform) (entries : List FileEntry) : List (FileEntry × Json) :=
  entries.filterMap fun entry => (getMessageFromEntry platform entry).map fun m => (entry, m)

/-- The estimate for a list of messages. -/
def tokensOf (messages : List (FileEntry × Json)) : Nat :=
  (messages.map fun message => estimateTokens message.2).sum

/-- The longest end of the conversation that fits in the budget, nothing if there is no budget. -/
def IsFittingEnd (messages : List (FileEntry × Json)) (budget : Int)
    (selected : List (FileEntry × Json)) : Prop :=
  selected <:+ messages ∧
    if 0 < budget then
      tokensOf selected ≤ budget ∧
        ∀ other, other <:+ messages → tokensOf other ≤ budget → other.length ≤ selected.length
    else selected = []

/-- The selected messages are the fitting end of the conversation, or that end with the summary that
precedes it. -/
def SelectsFittingEnd (messages : List (FileEntry × Json)) (budget : Int) (selected : List Json) :
    Prop :=
  ∃ fitting, IsFittingEnd messages budget fitting ∧
    (selected = fitting.map Prod.snd ∨
      ∃ summary, isSummaryEntry summary.1 = true ∧ (summary :: fitting) <:+ messages ∧
        selected = summary.2 :: fitting.map Prod.snd)

/-- The collected entries are the old branch after its common start with the target branch, and the
messages are selected from them within the budget. -/
def SummarizesBranch (platform : Platform) (session : Manager) (oldLeafId : Option String)
    (targetId : String) (oldBranch targetBranch : List FileEntry) (contextWindow : Nat)
    (reserveTokens : Option Nat) : Prop :=
  ∃ result, collectEntriesForBranchSummary session oldLeafId targetId = .ok result ∧
    result.entries = oldBranch.drop (commonPrefix oldBranch targetBranch).length ∧
    SelectsFittingEnd (conversation platform result.entries)
      (branchTokenBudget contextWindow reserveTokens)
      (generateBranchSummary platform result.entries contextWindow reserveTokens).messages

end CodingAgent
