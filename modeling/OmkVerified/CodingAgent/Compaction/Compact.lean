import OmkVerified.CodingAgent.Compaction.CutPoint
import OmkVerified.CodingAgent.Compaction.Conversation
import OmkVerified.CodingAgent.Session.Proofs.BranchedSessionProofs

/-!
# Compacting a branch

`prepareCompaction` and `compact` of `compaction.ts`: what a compaction summarizes, and the requests
that it sends to a model. What the model answers is not part of it, and neither is `tokensBefore`, which
only goes into the record of the compaction.
-/

namespace CodingAgent

open Lib

/-! ## Preparation -/

def getMessageFromEntryForCompaction (platform : Platform) (entry : FileEntry) : Option Json :=
  if hasType entry "message" then entry.get? "message"
  else if hasType entry "custom_message" then (entryMessage platform entry).head?
  else if hasType entry "branch_summary" then some (createBranchSummaryMessage platform entry)
  else none

/-- The messages of the entries from `start` up to `stop`. -/
def messagesBetween (platform : Platform) (entries : List FileEntry) (start stop : Nat) : List Json :=
  ((entries.take stop).drop start).filterMap (getMessageFromEntryForCompaction platform)

/-- The index of the latest compaction. -/
def prevCompactionIndex (pathEntries : List FileEntry) : Option Nat :=
  searchBack (entryIs pathEntries fun e => hasType e "compaction") 0 pathEntries.length

/-- `boundaryStart`: the first entry that the latest compaction kept. -/
def boundaryStart (pathEntries : List FileEntry) : Nat :=
  match prevCompactionIndex pathEntries with
  | none => 0
  | some index =>
    let firstKeptEntryId := (pathEntries[index]?).bind fun e => e.get? "firstKeptEntryId"
    (pathEntries.findIdx? fun e => strictEq (entryId e) firstKeptEntryId).getD (index + 1)

/-- `prevCompaction.summary`. -/
def previousSummary (pathEntries : List FileEntry) : Option String :=
  match ((prevCompactionIndex pathEntries).bind fun index => pathEntries[index]?).bind fun e =>
    e.get? "summary" with
  | some (.str summary) => some summary
  | _ => none

/-- `extractFileOperations(messages, entries, prevCompactionIndex)`. -/
def extractFileOperations (messages : List Json) (entries : List FileEntry)
    (prevIndex : Option Nat) : FileOperations :=
  let prevCompaction := (prevIndex.bind fun index => entries[index]?).getD .null
  let recorded : FileOperations :=
    if isTruthy (prevCompaction.get? "fromHook") then ⟨[], [], []⟩
    else
      let details := (prevCompaction.get? "details").getD .null
      ⟨(elements (details.get? "readFiles")).foldl addPath [], [],
        (elements (details.get? "modifiedFiles")).foldl addPath []⟩
  messages.foldl (fun ops message => extractFileOpsFromMessage message ops) recorded

structure CompactionPreparation where
  firstKeptEntryId : Json
  messagesToSummarize : List Json
  turnPrefixMessages : List Json
  isSplitTurn : Bool
  previousSummary : Option String
  fileOps : FileOperations

/-- The preparation for a cut. -/
def preparationAt (platform : Platform) (pathEntries : List FileEntry) (cutPoint : CutPointResult)
    (firstKeptEntryId : Json) : CompactionPreparation :=
  let turnStart := cutPoint.turnStartIndex.getD 0
  let historyEnd := if cutPoint.isSplitTurn then turnStart else cutPoint.firstKeptEntryIndex
  let messagesToSummarize :=
    messagesBetween platform pathEntries (boundaryStart pathEntries) historyEnd
  let turnPrefixMessages :=
    if cutPoint.isSplitTurn then
      messagesBetween platform pathEntries turnStart cutPoint.firstKeptEntryIndex
    else []
  { firstKeptEntryId, messagesToSummarize, turnPrefixMessages, isSplitTurn := cutPoint.isSplitTurn,
    previousSummary := previousSummary pathEntries,
    fileOps := turnPrefixMessages.foldl (fun ops message => extractFileOpsFromMessage message ops)
      (extractFileOperations messagesToSummarize pathEntries (prevCompactionIndex pathEntries)) }

/-- `prepareCompaction(pathEntries, settings)`; of the settings only `keepRecentTokens` counts here. -/
def prepareCompaction (platform : Platform) (pathEntries : List FileEntry)
    (keepRecentTokens : Lib.JsNumber) : Option CompactionPreparation :=
  if (pathEntries.getLast?).any fun e => hasType e "compaction" then none
  else
    let cutPoint := findCutPoint pathEntries (boundaryStart pathEntries) pathEntries.length
      keepRecentTokens
    match (pathEntries[cutPoint.firstKeptEntryIndex]?).bind entryId with
    | some firstKeptEntryId =>
      if firstKeptEntryId.truthy then
        some (preparationAt platform pathEntries cutPoint firstKeptEntryId)
      else none
    | none => none

/-! ## Requests -/

/-- `SUMMARIZATION_PROMPT`. -/
def summarizationPrompt : String :=
  "The messages above are a conversation to summarize. Create a structured context checkpoint " ++
  "summary that another LLM will use to continue the work.\n" ++
  "\nUse this EXACT format:\n\n## Goal\n" ++
  "[What is the user trying to accomplish? Can be multiple items if the session covers " ++
  "different tasks.]\n" ++
  "\n## Constraints & Preferences\n" ++
  "- [Any constraints, preferences, or requirements mentioned by user]\n" ++
  "- [Or \"(none)\" if none were mentioned]\n\n## Progress\n### Done\n" ++
  "- [x] [Completed tasks/changes]\n\n### In Progress\n- [ ] [Current work]\n\n### Blocked\n" ++
  "- [Issues preventing progress, if any]\n\n## Key Decisions\n" ++
  "- **[Decision]**: [Brief rationale]\n\n## Next Steps\n" ++
  "1. [Ordered list of what should happen next]\n\n## Critical Context\n" ++
  "- [Any data, examples, or references needed to continue]\n" ++
  "- [Or \"(none)\" if not applicable]\n\n" ++
  "Keep each section concise. Preserve exact file paths, function names, and error messages."

/-- `UPDATE_SUMMARIZATION_PROMPT`. -/
def updateSummarizationPrompt : String :=
  "The messages above are NEW conversation messages to incorporate into the existing summary " ++
  "provided in <previous-summary> tags.\n" ++
  "\nUpdate the existing structured summary with new information. RULES:\n" ++
  "- PRESERVE all existing information from the previous summary\n" ++
  "- ADD new progress, decisions, and context from the new messages\n" ++
  "- UPDATE the Progress section: move items from \"In Progress\" to \"Done\" when completed\n" ++
  "- UPDATE \"Next Steps\" based on what was accomplished\n" ++
  "- PRESERVE exact file paths, function names, and error messages\n" ++
  "- If something is no longer relevant, you may remove it\n\nUse this EXACT format:\n\n" ++
  "## Goal\n[Preserve existing goals, add new ones if the task expanded]\n\n" ++
  "## Constraints & Preferences\n- [Preserve existing, add new ones discovered]\n\n" ++
  "## Progress\n### Done\n- [x] [Include previously done items AND newly completed items]\n\n" ++
  "### In Progress\n- [ ] [Current work - update based on progress]\n\n### Blocked\n" ++
  "- [Current blockers - remove if resolved]\n\n## Key Decisions\n" ++
  "- **[Decision]**: [Brief rationale] (preserve all previous, add new)\n\n## Next Steps\n" ++
  "1. [Update based on current state]\n\n## Critical Context\n" ++
  "- [Preserve important context, add new if needed]\n\n" ++
  "Keep each section concise. Preserve exact file paths, function names, and error messages."

/-- `TURN_PREFIX_SUMMARIZATION_PROMPT`. -/
def turnPrefixSummarizationPrompt : String :=
  "This is the PREFIX of a turn that was too large to keep. The SUFFIX (recent work) is " ++
  "retained.\n" ++
  "\nSummarize the prefix to provide context for the retained suffix:\n\n## Original Request\n" ++
  "[What did the user ask for in this turn?]\n\n## Early Progress\n" ++
  "- [Key decisions and work done in the prefix]\n\n## Context for Suffix\n" ++
  "- [Information needed to understand the retained recent work]\n\n" ++
  "Be concise. Focus on what's needed to understand the kept suffix."

/-- The prompt of `generateSummary`; an empty text counts as none. -/
def summaryPrompt (currentMessages : List Json) (customInstructions previousSummary : Option String) :
    List Nat :=
  let previous := previousSummary.getD ""
  let custom := customInstructions.getD ""
  let basePrompt := if previous = "" then summarizationPrompt else updateSummarizationPrompt
  codeUnits "<conversation>\n" ++ serializeConversation (convertToLlm currentMessages) ++
    codeUnits "\n</conversation>\n\n" ++
    (if previous = "" then []
      else codeUnits "<previous-summary>\n" ++ codeUnits previous ++
        codeUnits "\n</previous-summary>\n\n") ++
    codeUnits basePrompt ++
    (if custom = "" then [] else codeUnits ("\n\nAdditional focus: " ++ custom))

/-- The prompt of `generateTurnPrefixSummary`. -/
def turnPrefixPrompt (messages : List Json) : List Nat :=
  codeUnits "<conversation>\n" ++ serializeConversation (convertToLlm messages) ++
    codeUnits "\n</conversation>\n\n" ++ codeUnits turnPrefixSummarizationPrompt

/-- The prompts of the requests that `compact(preparation, ...)` sends. -/
def compactPrompts (preparation : CompactionPreparation) (customInstructions : Option String) :
    List (List Nat) :=
  let history := summaryPrompt preparation.messagesToSummarize customInstructions
    preparation.previousSummary
  if preparation.isSplitTurn ∧ preparation.turnPrefixMessages ≠ [] then
    (if preparation.messagesToSummarize = [] then [] else [history]) ++
      [turnPrefixPrompt preparation.turnPrefixMessages]
  else [history]

end CodingAgent

/-!
# The previous summary in the requests

The previous summary goes into the request for the history. A split turn whose prefix is all that there
is to summarize sends no such request, and the summary of the earlier compaction is dropped.
-/

namespace CodingAgent

open Lib

/-- The turn is split, the turn is all that there is to summarize, and the text of its request does not
contain the previous summary by chance. -/
def DropsPreviousSummary (platform : Platform) (pathEntries : List FileEntry)
    (keepRecentTokens : Lib.JsNumber) (previous : String) : Prop :=
  let start := boundaryStart pathEntries
  let cutPoint := findCutPoint pathEntries start pathEntries.length keepRecentTokens
  ∃ turnStart, cutPoint.turnStartIndex = some turnStart ∧
    messagesBetween platform pathEntries start turnStart = [] ∧
    messagesBetween platform pathEntries turnStart cutPoint.firstKeptEntryIndex ≠ [] ∧
    ¬ codeUnits previous <:+:
      turnPrefixPrompt (messagesBetween platform pathEntries turnStart cutPoint.firstKeptEntryIndex)

/-! ## Prompts -/

/-- The request for the history contains the previous summary. -/
theorem previous_infix_summaryPrompt (messages : List Json) (customInstructions : Option String)
    (previous : String) :
    codeUnits previous <:+: summaryPrompt messages customInstructions (some previous) := by
  unfold summaryPrompt
  simp only [Option.getD_some]
  by_cases hempty : previous = ""
  · rw [hempty]
    exact List.nil_infix
  · simp only [hempty, if_false]
    exact ⟨codeUnits "<conversation>\n" ++ serializeConversation (convertToLlm messages) ++
        codeUnits "\n</conversation>\n\n" ++ codeUnits "<previous-summary>\n",
      codeUnits "\n</previous-summary>\n\n" ++ codeUnits updateSummarizationPrompt ++
        (if customInstructions.getD "" = "" then []
          else codeUnits ("\n\nAdditional focus: " ++ customInstructions.getD "")),
      by simp only [List.append_assoc]⟩

/-- Some request contains the previous summary, unless only the turn is summarized. -/
theorem exists_prompt_iff {preparation : CompactionPreparation} {previous : String}
    (hprevious : preparation.previousSummary = some previous) (customInstructions : Option String) :
    (∃ prompt ∈ compactPrompts preparation customInstructions, codeUnits previous <:+: prompt) ↔
      ¬ (preparation.isSplitTurn = true ∧ preparation.turnPrefixMessages ≠ [] ∧
        preparation.messagesToSummarize = [] ∧
        ¬ codeUnits previous <:+: turnPrefixPrompt preparation.turnPrefixMessages) := by
  have hhistory := previous_infix_summaryPrompt preparation.messagesToSummarize customInstructions
    previous
  unfold compactPrompts
  simp only [hprevious]
  split_ifs with hsplit hempty
  · -- only the turn is summarized
    simp [hsplit.1, hsplit.2, hempty]
  · refine iff_of_true ⟨_, by simp, hhistory⟩ ?_
    rintro ⟨-, -, hnone, -⟩
    exact hempty hnone
  · refine iff_of_true ⟨_, by simp, hhistory⟩ ?_
    rintro ⟨htrue, hne, -⟩
    exact hsplit ⟨htrue, hne⟩

/-! ## The preparation -/

/-- A split turn is one with a turn start. -/
theorem isSplitTurn_findCutPoint (entries : List FileEntry) (startIndex endIndex : Nat)
    (keepRecentTokens : Lib.JsNumber) :
    (findCutPoint entries startIndex endIndex keepRecentTokens).isSplitTurn =
      (findCutPoint entries startIndex endIndex keepRecentTokens).turnStartIndex.isSome := by
  rcases findCutPoint_cases entries startIndex endIndex keepRecentTokens with
    ⟨-, hresult⟩ | ⟨cut, kept, -, -, hresult⟩
  · rw [hresult]
    rfl
  · rw [hresult]
    simp only
    split_ifs with huser
    · simp [huser]
    · simp [huser]

theorem prepareCompaction_eq_some {platform : Platform} {pathEntries : List FileEntry}
    {keepRecentTokens : Lib.JsNumber} {preparation : CompactionPreparation}
    (h : prepareCompaction platform pathEntries keepRecentTokens = some preparation) :
    ∃ firstKeptEntryId, preparation = preparationAt platform pathEntries
      (findCutPoint pathEntries (boundaryStart pathEntries) pathEntries.length keepRecentTokens)
      firstKeptEntryId := by
  unfold prepareCompaction at h
  split_ifs at h
  simp only at h
  split at h
  · rename_i firstKeptEntryId _
    split_ifs at h
    exact ⟨firstKeptEntryId, (Option.some.inj h).symm⟩
  · exact absurd h (by simp)

/-- A compaction sends the previous summary with some request exactly when it does not summarize a split
turn alone. -/
theorem compact_previousSummary_iff {platform : Platform} {pathEntries : List FileEntry}
    {keepRecentTokens : Lib.JsNumber} {preparation : CompactionPreparation} {previous : String}
    (h : prepareCompaction platform pathEntries keepRecentTokens = some preparation)
    (hprevious : preparation.previousSummary = some previous) (customInstructions : Option String) :
    (∃ prompt ∈ compactPrompts preparation customInstructions, codeUnits previous <:+: prompt) ↔
      ¬ DropsPreviousSummary platform pathEntries keepRecentTokens previous := by
  rw [exists_prompt_iff hprevious, not_iff_not]
  obtain ⟨firstKeptEntryId, rfl⟩ := prepareCompaction_eq_some h
  have hsplit := isSplitTurn_findCutPoint pathEntries (boundaryStart pathEntries) pathEntries.length
    keepRecentTokens
  unfold DropsPreviousSummary preparationAt
  simp only [hsplit]
  cases hstart : (findCutPoint pathEntries (boundaryStart pathEntries) pathEntries.length
      keepRecentTokens).turnStartIndex with
  | none => simp
  | some turnStart =>
    simp only [Option.isSome_some, if_true, Option.getD_some, true_and, Option.some.injEq,
      exists_eq_left']
    constructor
    · rintro ⟨hturn, hhistory, hprompt⟩
      exact ⟨hhistory, hturn, hprompt⟩
    · rintro ⟨hhistory, hturn, hprompt⟩
      exact ⟨hturn, hhistory, hprompt⟩

/-! ## A second compaction -/

/-- A compaction that kept the entry `a` and what follows it. -/
def keepingCompaction : FileEntry :=
  .obj [("type", .str "compaction"), ("id", .str "k"), ("summary", .str "100%"),
    ("firstKeptEntryId", .str "a")]

/-- A request, a compaction in its turn, and two answers. -/
def longTurn : List FileEntry :=
  [messageEntry "user" "a", keepingCompaction, messageEntry "assistant" "b",
    messageEntry "assistant" "c"]

theorem mem_of_mem_utf16 {c : Char} (hc : c.toNat < 0xD800) {text : List Char}
    (h : c.toNat ∈ utf16 text) : c ∈ text := by
  obtain ⟨d, hd, hunit⟩ := List.mem_flatMap.mp h
  unfold utf16Units at hunit
  split_ifs at hunit
  · rw [List.mem_singleton] at hunit
    rwa [Char.ext (UInt32.toNat_inj.mp hunit)]
  · simp only [List.mem_cons, List.not_mem_nil, or_false] at hunit
    omega

set_option maxRecDepth 8000 in
theorem percent_notMem_turnPrefixSummarizationPrompt :
    '%'.toNat ∉ codeUnits turnPrefixSummarizationPrompt := by
  intro h
  have hmem := mem_of_mem_utf16 (by decide) h
  unfold turnPrefixSummarizationPrompt at hmem
  -- piece by piece: the whole text is slow to evaluate
  simp only [String.toList_append, List.mem_append] at hmem
  simp at hmem

/-- The second compaction of a turn drops the summary of the first. -/
theorem compact_drops_previousSummary :
    ∃ preparation, prepareCompaction samplePlatform longTurn 1 = some preparation ∧
      preparation.previousSummary = some "100%" ∧
      ¬ ∃ prompt ∈ compactPrompts preparation none, codeUnits "100%" <:+: prompt := by
  have hany : (prepareCompaction samplePlatform longTurn 1).any (fun preparation =>
      decide (preparation.previousSummary = some "100%" ∧ preparation.isSplitTurn = true ∧
        preparation.turnPrefixMessages ≠ [] ∧ preparation.messagesToSummarize = [] ∧
        '%'.toNat ∉ codeUnits "<conversation>\n" ++
          serializeConversation (convertToLlm preparation.turnPrefixMessages) ++
          codeUnits "\n</conversation>\n\n")) = true := by
    decide +kernel
  obtain ⟨preparation, hsome, hcheck⟩ := (Option.any_eq_true _ _).mp hany
  obtain ⟨hprevious, hsplit, hturn, hhistory, htext⟩ := of_decide_eq_true hcheck
  refine ⟨preparation, hsome, hprevious, ?_⟩
  rw [exists_prompt_iff hprevious, not_not]
  refine ⟨hsplit, hturn, hhistory, fun hinfix => ?_⟩
  have hmem : '%'.toNat ∈ turnPrefixPrompt preparation.turnPrefixMessages :=
    hinfix.subset (by decide)
  rcases List.mem_append.mp hmem with hmem | hmem
  · exact htext hmem
  · exact percent_notMem_turnPrefixSummarizationPrompt hmem

/-- A whole turn before the one that is split. -/
def twoTurns : List FileEntry :=
  [messageEntry "user" "a", keepingCompaction, messageEntry "assistant" "b",
    messageEntry "user" "c", messageEntry "assistant" "d"]

/-- With an earlier turn to summarize, the previous summary is sent. -/
theorem compact_sends_previousSummary :
    ∃ preparation, prepareCompaction samplePlatform twoTurns 1 = some preparation ∧
      ∃ prompt ∈ compactPrompts preparation none, codeUnits "100%" <:+: prompt := by
  have hany : (prepareCompaction samplePlatform twoTurns 1).any (fun preparation =>
      decide (preparation.previousSummary = some "100%")) = true := by
    decide +kernel
  obtain ⟨preparation, hsome, hcheck⟩ := (Option.any_eq_true _ _).mp hany
  refine ⟨preparation, hsome,
    (compact_previousSummary_iff hsome (of_decide_eq_true hcheck) none).mpr ?_⟩
  rintro ⟨turnStart, hstart, hnone, -⟩
  have hturn : (findCutPoint twoTurns (boundaryStart twoTurns) twoTurns.length 1).turnStartIndex =
      some 3 := by
    decide +kernel
  obtain rfl : 3 = turnStart := Option.some.inj (hturn.symm.trans hstart)
  exact absurd hnone (by decide +kernel)

end CodingAgent
