import OmkVerified.CodingAgent.Integrity.RepairPlan
import OmkVerified.CodingAgent.Integrity.Proofs.ExtendProofs
import OmkVerified.Agent.Proofs.RepairProofs

/-!
# What a repair plan repairs

On the report of an inspection the plan is blocked by a finding that cannot be repaired and by
nothing else. Otherwise it names the calls that the repair of the transcript answers, and the file
that it describes passes the inspection.
-/

namespace CodingAgent.Integrity

open Lib
open Agent (inspectTranscriptIntegrity AgentMessage unansweredCalls syntheticResults
  ToolResultMessage createSyntheticToolResult ToolCall)

section Identity

variable {κ : Type} [DecidableEq κ]

/-- The counts of a multiset of keys. -/
def Counts (counts : OrderedMap κ Nat) (keys : List κ) : Prop :=
  ∀ key, counts.get? key = if keys.count key = 0 then none else some (keys.count key)

theorem counts_foldl_bump (keys : List κ) :
    Counts (keys.foldl OrderedMap.bump .empty) keys := by
  intro key
  have hcount := OrderedMap.getD_foldl_bump keys .empty key
  have hmem := OrderedMap.mem_keys_foldl_bump keys .empty key
  simp only [OrderedMap.get?_empty, Option.getD_none, Nat.zero_add, OrderedMap.keys_empty,
    List.not_mem_nil, false_or] at hcount hmem
  cases hget : (keys.foldl OrderedMap.bump .empty).get? key with
  | none =>
    rw [OrderedMap.get?_eq_none_iff, hmem] at hget
    rw [if_pos (List.count_eq_zero.mpr hget)]
  | some count =>
    have hin : key ∈ keys := by
      by_contra hnot
      rw [← hmem, ← OrderedMap.get?_eq_none_iff, hget] at hnot
      simp at hnot
    rw [hget, Option.getD_some] at hcount
    rw [if_neg (List.count_pos_iff.mpr hin).ne', hcount]

theorem takeIdentity_of_mem {counts : OrderedMap κ Nat} {keys : List κ}
    (h : Counts counts keys) {key : κ} (hkey : key ∈ keys) :
    ∃ counts', takeIdentity counts key = some counts' ∧ Counts counts' (keys.erase key) := by
  have hpos := List.count_pos_iff.mpr hkey
  have hget := h key
  rw [if_neg hpos.ne'] at hget
  unfold takeIdentity
  rw [hget]
  simp only
  split_ifs with hone
  · refine ⟨_, rfl, ?_⟩
    intro key'
    rw [OrderedMap.get?_delete]
    by_cases hkey' : key' = key
    · rw [if_pos hkey', hkey', List.count_erase_self, hone]
      rfl
    · rw [if_neg hkey', List.count_erase_of_ne hkey', h key']
  · refine ⟨_, rfl, ?_⟩
    intro key'
    rw [OrderedMap.get?_set]
    by_cases hkey' : key' = key
    · rw [if_pos hkey', hkey', List.count_erase_self, if_neg (by omega)]
    · rw [if_neg hkey', List.count_erase_of_ne hkey', h key']

theorem sameIdentityMultiset_self (keys : List κ) :
    sameIdentityMultiset keys keys = true := by
  have hrun : ∀ (right left : List κ) (counts : OrderedMap κ Nat),
      Counts counts left → right.Perm left →
        ∃ counts', right.foldlM takeIdentity counts = some counts' ∧ Counts counts' [] := by
    intro right
    induction right with
    | nil =>
      intro left counts hcounts hperm
      obtain rfl := List.nil_perm.mp hperm
      exact ⟨counts, rfl, hcounts⟩
    | cons key right ih =>
      intro left counts hcounts hperm
      have hkey : key ∈ left := hperm.subset (by simp)
      obtain ⟨counts', htake, hcounts'⟩ := takeIdentity_of_mem hcounts hkey
      have hrest : right.Perm (left.erase key) := by
        have := hperm.erase key
        rwa [List.erase_cons_head] at this
      obtain ⟨counts'', hfold, hnil⟩ := ih _ _ hcounts' hrest
      exact ⟨counts'', by rw [List.foldlM_cons, htake]; exact hfold, hnil⟩
  obtain ⟨counts, hfold, hnil⟩ := hrun keys keys _ (counts_foldl_bump keys) (List.Perm.refl _)
  have hsize : counts.size = 0 := by
    rw [OrderedMap.size_eq_zero_iff, List.eq_nil_iff_forall_not_mem]
    intro key hkey
    have hnone := hnil key
    rw [List.count_nil, if_pos rfl, OrderedMap.get?_eq_none_iff] at hnone
    exact hnone hkey
  unfold sameIdentityMultiset
  rw [hfold]
  simp [hsize]

end Identity

/-! ## The messages of a context -/

/-- What the checks of the entries promise of a message of the context. -/
structure Checked (message : Json) : Prop where
  assistant : hasRole "assistant" message = true → validAssistant message = true
  toolResult : hasRole "toolResult" message = true → validToolResult message = true

theorem hasRole_eq_true {role : String} {message : Json} :
    hasRole role message = true ↔ message.get? "role" = some (.str role) := by
  unfold hasRole isLiteral
  rw [decide_eq_true_eq]

theorem checked_of_role {message : Json} {role : String}
    (h : message.get? "role" = some (.str role)) (ha : role ≠ "assistant")
    (ht : role ≠ "toolResult") : Checked message := by
  constructor
  · intro hrole
    rw [hasRole_eq_true, h] at hrole
    exact absurd (by simpa using hrole) ha
  · intro hrole
    rw [hasRole_eq_true, h] at hrole
    exact absurd (by simpa using hrole) ht

theorem checked_of_valid {message : Json} (h : validAgentMessage (some message) = true) :
    Checked message := by
  unfold validAgentMessage at h
  rw [Option.any_some, Bool.and_eq_true] at h
  have hswitch := h.2
  constructor
  · intro hrole
    rw [(hasRole_eq_true).mp hrole] at hswitch
    exact hswitch
  · intro hrole
    rw [(hasRole_eq_true).mp hrole] at hswitch
    exact hswitch

section Context

variable {platform : Platform}

theorem checked_entryMessage {entry : FileEntry} (hvalid : validEntryShape platform entry = true)
    {message : Json} (h : message ∈ entryMessage platform entry) : Checked message := by
  unfold entryMessage at h
  split_ifs at h with hmessage hcustom hsummary
  · have htype : entry.get? "type" = some (.str "message") := by
      simpa [hasType] using hmessage
    unfold validEntryShape at hvalid
    rw [htype] at hvalid
    simp only [Bool.and_eq_true] at hvalid
    have hpayload : validAgentMessage (entry.get? "message") = true := hvalid.2
    rw [Option.mem_toList] at h
    rw [h] at hpayload
    exact checked_of_valid hpayload
  · rw [List.mem_singleton.mp h]
    exact checked_of_role (show _ = some (Json.str "custom") from rfl) (by decide) (by decide)
  · rw [List.mem_singleton.mp h]
    exact checked_of_role (show _ = some (Json.str "branchSummary") from rfl) (by decide) (by decide)
  · simp at h

theorem mem_of_mem_keptEntries {path : List FileEntry} {compaction entry : FileEntry}
    (h : entry ∈ keptEntries path compaction) : entry ∈ path := by
  unfold keptEntries at h
  rcases List.mem_append.mp h with h | h
  · exact List.mem_of_mem_take ((List.dropWhile_suffix _).subset h)
  · exact List.mem_of_mem_drop h

/-- The messages of the context of valid entries are checked. -/
theorem checked_pathContext {path : List FileEntry} {context : SessionContext}
    (hcontext : pathContext platform path = .ok context)
    (hvalid : ∀ entry ∈ path, validEntryShape platform entry = true) :
    ∀ message ∈ context.messages, Checked message := by
  unfold pathContext at hcontext
  obtain ⟨settings, -, hpure⟩ := bind_eq_ok.mp hcontext
  obtain rfl := Except.ok.inj hpure
  intro message hmessage
  cases hcompaction : settings.compaction with
  | none =>
    simp only [hcompaction] at hmessage
    obtain ⟨entry, hentry, hmem⟩ := List.mem_flatMap.mp hmessage
    exact checked_entryMessage (hvalid entry hentry) hmem
  | some compaction =>
    simp only [hcompaction] at hmessage
    rcases List.mem_cons.mp hmessage with rfl | hmessage
    · exact checked_of_role (show _ = some (Json.str "compactionSummary") from rfl) (by decide) (by decide)
    · obtain ⟨entry, hentry, hmem⟩ := List.mem_flatMap.mp hmessage
      exact checked_entryMessage (hvalid entry (mem_of_mem_keptEntries hentry)) hmem

end Context

/-! ## The transcript of a context -/

/-- A message and what the transcript inspector reads of it. -/
inductive ReadAs : Json → AgentMessage → Prop
  | assistant {message : Json} {blocks : List Json} {read : Agent.AssistantMessage}
      (role : hasRole "assistant" message = true) (content : message.get? "content" = some (.arr blocks))
      (read_content : read.content = blocks.map transcriptBlock) : ReadAs message (.assistant read)
  | toolResult {message : Json} {read : ToolResultMessage}
      (role : hasRole "toolResult" message = true)
      (call : read.toolCallId = textOf (message.get? "toolCallId")) :
      ReadAs message (.toolResult read)
  | other {message : Json} {read : AgentMessage} (role : hasRole "assistant" message = false)
      (not_assistant : read.isAssistant = false) (not_result : read.answers = none) :
      ReadAs message read

theorem readAs_of_transcriptMessage {message : Json} {read : AgentMessage}
    (h : transcriptMessage message = .ok read) : ReadAs message read := by
  unfold transcriptMessage at h
  split at h
  · rename_i hrole
    split at h
    · rename_i blocks hcontent
      obtain rfl := Except.ok.inj h
      exact .assistant ((hasRole_eq_true).mpr hrole) hcontent rfl
    · simp at h
  · rename_i hrole
    obtain rfl := Except.ok.inj h
    exact .toolResult ((hasRole_eq_true).mpr hrole) rfl
  · rename_i hrole
    obtain rfl := Except.ok.inj h
    refine .other ?_ rfl rfl
    simp [hasRole, isLiteral, hrole]
  · rename_i hassistant htoolResult huser
    obtain rfl := Except.ok.inj h
    refine .other ?_ rfl rfl
    rw [← Bool.not_eq_true, hasRole_eq_true]
    exact hassistant

theorem readAs_transcriptOf {messages : List Json} {read : List AgentMessage}
    (h : transcriptOf messages = .ok read) : List.Forall₂ ReadAs messages read := by
  unfold transcriptOf at h
  induction messages generalizing read with
  | nil =>
    obtain rfl := Except.ok.inj h
    exact .nil
  | cons message messages ih =>
    rw [List.mapM_cons] at h
    obtain ⟨first, hfirst, hmore⟩ := bind_eq_ok.mp h
    obtain ⟨rest, hrest, hpure⟩ := bind_eq_ok.mp hmore
    obtain rfl := Except.ok.inj hpure
    exact .cons (readAs_of_transcriptMessage hfirst) (ih hrest)

theorem ReadAs.hasRole_assistant {message : Json} {read : AgentMessage}
    (h : ReadAs message read) : hasRole "assistant" message = read.isAssistant := by
  cases h with
  | assistant role => exact role
  | toolResult role =>
    rw [hasRole_eq_true] at role
    unfold hasRole isLiteral
    rw [role]
    rfl
  | other role not_assistant => rw [role, not_assistant]

theorem lastAssistantPosition_eq {messages : List Json} {read : List AgentMessage}
    (h : List.Forall₂ ReadAs messages read) :
    lastAssistantPosition messages = Agent.lastAssistantIndex read := by
  have hmap : messages.map (hasRole "assistant") = read.map AgentMessage.isAssistant := by
    induction h with
    | nil => rfl
    | cons hfirst _ ih => rw [List.map_cons, List.map_cons, hfirst.hasRole_assistant, ih]
  have hfind : messages.reverse.findIdx? (hasRole "assistant") =
      read.reverse.findIdx? AgentMessage.isAssistant := by
    have hreverse := congrArg List.reverse hmap
    rw [← List.map_reverse, ← List.map_reverse] at hreverse
    have hsame := congrArg (List.findIdx? id) hreverse
    rw [List.findIdx?_map, List.findIdx?_map] at hsame
    exact hsame
  unfold lastAssistantPosition Agent.lastAssistantIndex
  rw [hfind, h.length_eq]

theorem isText_of_nonEmptyString {value : Option Json} (h : nonEmptyString value = true) :
    isText value = true := by
  obtain ⟨text, rfl, -⟩ := nonEmptyString_eq_true.mp h
  rfl

theorem validToolCall_of_literal {block : Json} (h : validAssistantBlock block = true)
    (hliteral : isLiteral (block.get? "type") "toolCall" = true) : validToolCall block = true := by
  have htype : block.get? "type" = some (.str "toolCall") := by
    simpa [isLiteral] using hliteral
  simpa [validAssistantBlock, validTextContent, validThinkingContent, isLiteral, htype] using h

theorem isToolCall_of_valid {block : Json} (h : validAssistantBlock block = true) :
    isToolCall block = isLiteral (block.get? "type") "toolCall" := by
  unfold isToolCall
  by_cases hliteral : isLiteral (block.get? "type") "toolCall" = true
  · have htype : block.get? "type" = some (.str "toolCall") := by
      simpa [isLiteral] using hliteral
    have hcall := validToolCall_of_literal h hliteral
    unfold validToolCall at hcall
    simp only [Bool.and_eq_true] at hcall
    rw [Json.isRecord_of_get? htype, hliteral, isText_of_nonEmptyString hcall.1.1.1.2,
      isText_of_nonEmptyString hcall.1.1.2]
    rfl
  · rw [Bool.not_eq_true] at hliteral
    rw [hliteral]
    simp

/-- The tool calls of a checked message are the blocks that the plan takes for tool calls. -/
theorem toolCalls_eq {blocks : List Json} (h : ∀ block ∈ blocks, validAssistantBlock block = true) :
    (blocks.filter isToolCall).map toolCallOf =
      (blocks.map transcriptBlock).filterMap fun
        | .toolCall call => some call
        | _ => none := by
  induction blocks with
  | nil => rfl
  | cons block blocks ih =>
    have hrest := ih fun b hb => h b (List.mem_cons_of_mem _ hb)
    rw [List.map_cons, List.filterMap_cons, List.filter_cons,
      isToolCall_of_valid (h block (by simp)), ← hrest]
    unfold transcriptBlock
    split_ifs <;> rfl

variable {active : List Json} {others : List Finding} {timestamp : Nat}

section Reached

variable {platform : Platform} {bytes : List UInt8} {report : Report} {header : FileEntry}
  {messages : List AgentMessage}

/-- The messages of a branch of a forest are checked. -/
theorem Forest.checked {entries path : List FileEntry} (h : Forest platform entries)
    (hmem : ∀ entry ∈ path, entry ∈ entries)
    (hcontext : ∃ context, pathContext platform path = .ok context ∧ context.messages = active) :
    ∀ message ∈ active, Checked message := by
  obtain ⟨context, hcontext, hmessages⟩ := hcontext
  rw [← hmessages]
  exact checked_pathContext hcontext fun entry hentry => h.valid entry (hmem entry hentry)

theorem Reached.checked (h : Reached platform bytes report header messages) :
    ∀ message ∈ report.activeMessages, Checked message := by
  obtain ⟨-, hmem, -⟩ := h.healthy.forest.rootPath_iff.mp h.branch
  exact h.healthy.forest.checked hmem h.context

/-- The results behind the last assistant message. -/
theorem isResultOf_of_readAs {callIds : List String} {message : Json}
    {result : ToolResultMessage} (h : ReadAs message (.toolResult result))
    (hchecked : Checked message) (hmem : result.toolCallId ∈ callIds) :
    isResultOf callIds message = true := by
  cases h with
  | toolResult role call =>
    have hvalid := hchecked.toolResult role
    unfold validToolResult at hvalid
    simp only [Bool.and_eq_true] at hvalid
    obtain ⟨id, hid, -⟩ := nonEmptyString_eq_true.mp hvalid.1.1.1
    rw [hid] at call
    unfold isResultOf
    rw [role, Bool.true_and, List.any_eq_true]
    refine ⟨id, ?_, by simp [isLiteral, hid]⟩
    have hread : result.toolCallId = id := call
    rw [← hread]
    exact hmem
  | other role not_assistant not_result => simp [AgentMessage.answers] at not_result

/-- The calls of an assistant message, which have an id and a name. -/
theorem calls_of_readAs {message : Json} {read : Agent.AssistantMessage}
    (h : ReadAs message (.assistant read)) (hchecked : Checked message) :
    ∃ blocks, message.get? "content" = some (.arr blocks) ∧
      (blocks.filter isToolCall).map toolCallOf = read.toolCalls ∧
      (∀ call ∈ read.toolCalls, call.id ≠ "" ∧ call.name ≠ "") ∧
      ∀ block ∈ blocks, validAssistantBlock block = true := by
  cases h with
  | assistant role content read_content =>
    rename_i blocks
    have hvalid := hchecked.assistant role
    unfold validAssistant at hvalid
    simp only [Bool.and_eq_true] at hvalid
    have hblocks := hvalid.1.1.1.1.1.1.1.1.1
    rw [content] at hblocks
    have hall := List.all_eq_true.mp hblocks
    have hcalls : (blocks.filter isToolCall).map toolCallOf = read.toolCalls := by
      unfold Agent.AssistantMessage.toolCalls
      rw [read_content]
      exact toolCalls_eq hall
    refine ⟨blocks, content, hcalls, ?_, hall⟩
    intro call hcall
    rw [← hcalls] at hcall
    obtain ⟨block, hmem, rfl⟩ := List.mem_map.mp hcall
    obtain ⟨hblock, hfilter⟩ := List.mem_filter.mp hmem
    rw [isToolCall_of_valid (hall block hblock)] at hfilter
    have hvalidCall := validToolCall_of_literal (hall block hblock) hfilter
    unfold validToolCall at hvalidCall
    simp only [Bool.and_eq_true] at hvalidCall
    obtain ⟨id, hid, hidNe⟩ := nonEmptyString_eq_true.mp hvalidCall.1.1.1.2
    obtain ⟨name, hname, hnameNe⟩ := nonEmptyString_eq_true.mp hvalidCall.1.1.2
    unfold toolCallOf
    rw [hid, hname]
    exact ⟨hidNe, hnameNe⟩
  | other role not_assistant not_result => simp [AgentMessage.isAssistant] at not_assistant

theorem exists_of_forall₂ {α β : Type} {R : α → β → Prop} {as : List α} {bs : List β}
    (h : List.Forall₂ R as bs) {a : α} (ha : a ∈ as) : ∃ b ∈ bs, R a b := by
  induction h with
  | nil => simp at ha
  | @cons a' b as bs hab _ ih =>
    rcases List.mem_cons.mp ha with rfl | ha
    · exact ⟨b, by simp, hab⟩
    · obtain ⟨b', hmem, hrel⟩ := ih ha
      exact ⟨b', List.mem_cons_of_mem _ hmem, hrel⟩

/-- The calls of checked messages have an id and a name. -/
theorem named_of_mem_toolCalls (hactive : transcriptOf active = .ok messages)
    (hchecked : ∀ message ∈ active, Checked message) {message : AgentMessage}
    (hmessage : message ∈ messages) {call : ToolCall} (hcall : call ∈ message.toolCalls) :
    call.id ≠ "" ∧ call.name ≠ "" := by
  cases message with
  | assistant read =>
    obtain ⟨source, hsource, hread⟩ := exists_of_forall₂ (readAs_transcriptOf hactive).flip hmessage
    obtain ⟨-, -, -, hnamed, -⟩ := calls_of_readAs hread (hchecked source hsource)
    exact hnamed call hcall
  | _ => simp [AgentMessage.toolCalls] at hcall

/-- The open tail of a transcript, as the messages of the context hold it. -/
structure ActiveTail (active : List Json) (messages pre : List AgentMessage)
    (last : Agent.AssistantMessage) (results : List ToolResultMessage) (message : Json)
    (blocks : List Json) : Prop extends Agent.OpenTail messages pre last results where
  position : lastAssistantPosition active = some pre.length
  message_eq : active[pre.length]? = some message
  role : hasRole "assistant" message = true
  content : message.get? "content" = some (.arr blocks)
  checked : ∀ block ∈ blocks, validAssistantBlock block = true
  calls : (blocks.filter isToolCall).map toolCallOf = last.toolCalls
  own : (active.drop (pre.length + 1)).all
    (isResultOf (last.toolCalls.map ToolCall.id)) = true

theorem exists_activeTail (hactive : transcriptOf active = .ok messages)
    (hchecked : ∀ message ∈ active, Checked message)
    (hmissing : ∀ issue ∈ (inspectTranscriptIntegrity messages).issues,
      issue.kind = .missingResult)
    (hne : (inspectTranscriptIntegrity messages).issues ≠ []) :
    ∃ pre last results message blocks,
      ActiveTail active messages pre last results message blocks := by
  obtain ⟨issue, hissue⟩ := List.exists_mem_of_ne_nil _ hne
  have hid : issue.toolCallId ∈ (Agent.callIds messages).filter
      fun id => decide (id ∉ Agent.resultIds messages) := by
    rw [← Agent.missing_ids hmissing]
    exact List.mem_map_of_mem hissue
  obtain ⟨hcall, hunanswered⟩ := List.mem_filter.mp hid
  obtain ⟨pre, last, results, htail⟩ :=
    Agent.exists_openTail hmissing hcall (by simpa using hunanswered)
  have hread := readAs_transcriptOf hactive
  have hposition : lastAssistantPosition active = some pre.length := by
    rw [lastAssistantPosition_eq hread, htail.split]
    exact Agent.lastAssistantIndex_tail pre last results
  -- the messages split as the transcript does
  rw [htail.split] at hread
  obtain ⟨message, rest, hmessage, hrest, hdrop⟩ :=
    List.forall₂_cons_right_iff.mp (List.forall₂_drop_append _ _ _ hread)
  have hget : active[pre.length]? = some message := by
    have hhead := congrArg (fun l => l[0]?) hdrop
    simpa [List.getElem?_drop] using hhead
  have hafter : active.drop (pre.length + 1) = rest := by
    rw [← List.drop_drop, hdrop, List.drop_one, List.tail_cons]
  obtain ⟨blocks, hcontent, hcalls, -, hblocks⟩ := calls_of_readAs hmessage
    (hchecked message (List.mem_of_getElem? hget))
  refine ⟨pre, last, results, message, blocks, htail, hposition, hget,
    hmessage.hasRole_assistant, hcontent, hblocks, hcalls, ?_⟩
  rw [hafter, List.all_eq_true]
  intro other hother
  obtain ⟨read, hmem, hreadAs⟩ := exists_of_forall₂ hrest hother
  obtain ⟨result, hresult, rfl⟩ := List.mem_map.mp hmem
  refine isResultOf_of_readAs hreadAs (hchecked other ?_) (htail.results_own result hresult)
  rw [← hafter] at hother
  exact List.mem_of_mem_drop hother

/-- The plan finds the unanswered calls of the transcript. -/
theorem Reached.missingTailCalls_eq (h : Reached platform bytes report header messages)
    (hmissing : ∀ issue ∈ (inspectTranscriptIntegrity messages).issues,
      issue.kind = .missingResult) :
    missingTailCalls report = .ok (some (unansweredCalls messages)) := by
  have hids := Agent.missing_ids hmissing
  have hnodup := ((Agent.issues_missing_iff messages).mp hmissing).1
  have hkinds : ((inspectTranscriptIntegrity messages).issues.any fun issue =>
      decide (issue.kind ≠ .missingResult)) = false := by
    rw [List.any_eq_false]
    intro issue hissue
    simpa using hmissing issue hissue
  unfold missingTailCalls
  simp only [h.transcript, hkinds, Bool.false_eq_true, if_false]
  by_cases hnil : (inspectTranscriptIntegrity messages).issues = []
  · have hnone : unansweredCalls messages = [] :=
      Agent.unansweredCalls_of_ok ((Agent.ok_iff_issues_eq_nil messages).mpr hnil)
    rw [hnil, hnone]
    rfl
  · obtain ⟨pre, last, results, message, blocks, htail⟩ :=
      exists_activeTail h.messages_eq h.checked hmissing hnil
    have hown : (((Agent.callIds messages).filter fun id =>
        decide (id ∉ Agent.resultIds messages)).any fun id =>
          decide (id ∉ last.toolCalls.map ToolCall.id)) = false := by
      rw [List.any_eq_false]
      intro id hid
      obtain ⟨hcall, hunanswered⟩ := List.mem_filter.mp hid
      simpa using htail.missing_own id hcall (by simpa using hunanswered)
    rw [if_neg (by simpa using hnil), htail.position]
    simp only [htail.message_eq, Option.bind_some, htail.content, htail.calls, hids, hown, htail.own,
      Bool.false_eq_true, if_false, if_true]
    rw [htail.missing_calls hnodup]

end Reached

section Inspection

variable {platform : Platform} {bytes : List UInt8} {report : Report}

theorem trailingFragment_eq (h : inspectSessionIntegrity platform bytes = .ok report) :
    report.trailingFragment.isNone = (bytes.drop (completePrefix bytes).length).isEmpty ∧
      report.completePrefix.byteCount = (completePrefix bytes).length := by
  obtain ⟨s, rest, hs⟩ := exists_inspected platform bytes
  unfold inspectSessionIntegrity at h
  rw [hs.inspect, ok_bind] at h
  obtain ⟨part, -, heq⟩ := bind_eq_ok.mp h
  obtain rfl := Except.ok.inj heq
  refine ⟨?_, rfl⟩
  show (if s.fragment.isEmpty then none else some _).isNone = _
  rw [← hs.fragment]
  split_ifs with hempty <;> simp [hempty]

/-- The findings after the one on the trailing fragment have other reasons. -/
theorem filter_trailing (h : inspectSessionIntegrity platform bytes = .ok report)
    (hfindings : report.findings = fragmentFindings bytes ++ others)
    (hothers : ∀ finding ∈ others, finding.reason ≠ .trailingFragment) :
    (report.findings.filter fun f => decide (f.reason = .trailingFragment)) = fragmentFindings bytes ∧
      (fragmentFindings bytes).length = if report.trailingFragment.isNone then 0 else 1 := by
  have hnone : (others.filter fun f => decide (f.reason = .trailingFragment)) = [] := by
    rw [List.filter_eq_nil_iff]
    intro finding hfinding
    simpa using hothers finding hfinding
  rw [hfindings, List.filter_append, hnone, List.append_nil, (trailingFragment_eq h).1]
  unfold fragmentFindings findingIf
  cases (bytes.drop (completePrefix bytes).length).isEmpty <;> exact ⟨rfl, rfl⟩

theorem fragmentFindings_reason {finding : Finding} (h : finding ∈ fragmentFindings bytes) :
    finding = { reason := .trailingFragment } := by
  unfold fragmentFindings findingIf at h
  split_ifs at h
  · exact List.mem_singleton.mp h
  · simp at h

/-- The check of the trailing fragment passes. -/
theorem trailing_consistent (h : inspectSessionIntegrity platform bytes = .ok report)
    (hfindings : report.findings = fragmentFindings bytes ++ others)
    (hothers : ∀ finding ∈ others, finding.reason ≠ .trailingFragment) :
    (decide ((report.findings.filter fun f => decide (f.reason = .trailingFragment)).length ≠
        if report.trailingFragment.isNone then 0 else 1) ||
      (report.findings.filter fun f => decide (f.reason = .trailingFragment)).any fun f =>
        decide (f.keyCount ≠ 1)) = false := by
  obtain ⟨htrailing, hlength⟩ := filter_trailing h hfindings hothers
  have hkeys : ((fragmentFindings bytes).any fun f => decide (f.keyCount ≠ 1)) = false := by
    rw [List.any_eq_false]
    intro finding hfinding
    rw [fragmentFindings_reason hfinding]
    decide
  rw [htrailing, hkeys, hlength]
  simp

theorem Stopped.reportIsConsistent_eq (h : inspectSessionIntegrity platform bytes = .ok report)
    (hstopped : Stopped bytes report others) : reportIsConsistent report = .ok true := by
  have hothers : ∀ finding ∈ others, finding.reason ≠ .trailingFragment := by
    intro finding hfinding hreason
    have hstructural := hstopped.structural finding hfinding
    rw [hreason] at hstructural
    exact Bool.noConfusion hstructural
  have htranscript : (report.findings.filter fun f => f.reason.isTranscript) = [] := by
    rw [List.filter_eq_nil_iff, hstopped.findings]
    intro finding hfinding
    rcases List.mem_append.mp hfinding with hfinding | hfinding
    · rw [fragmentFindings_reason hfinding]
      decide
    · have hstructural := hstopped.structural finding hfinding
      cases hreason : finding.reason with
      | transcript kind =>
        rw [hreason] at hstructural
        exact Bool.noConfusion hstructural
      | _ => simp [ReasonCode.isTranscript]
  unfold reportIsConsistent
  simp only [trailing_consistent h hstopped.findings hothers, ok_eq_isEmpty h, htranscript,
    hstopped.transcript, ne_eq, not_true_eq_false, if_false, Bool.false_eq_true, List.isEmpty_nil]

theorem Reached.reportIsConsistent_eq (h : inspectSessionIntegrity platform bytes = .ok report)
    {header : FileEntry} {messages : List AgentMessage}
    (hreached : Reached platform bytes report header messages) :
    reportIsConsistent report = .ok true := by
  have hothers : ∀ finding ∈ (inspectTranscriptIntegrity messages).issues.map issueFinding,
      finding.reason ≠ .trailingFragment ∧ finding.reason.isTranscript = true := by
    intro finding hfinding
    obtain ⟨issue, -, rfl⟩ := List.mem_map.mp hfinding
    exact ⟨by simp [issueFinding], rfl⟩
  have htranscript : (report.findings.filter fun f => f.reason.isTranscript) =
      (inspectTranscriptIntegrity messages).issues.map issueFinding := by
    have hnone : ((fragmentFindings bytes).filter fun f => f.reason.isTranscript) = [] := by
      rw [List.filter_eq_nil_iff]
      intro finding hfinding
      rw [fragmentFindings_reason hfinding]
      decide
    rw [hreached.findings, List.filter_append, hnone, List.nil_append, List.filter_eq_self]
    exact fun finding hfinding => (hothers finding hfinding).2
  have hany : (report.findings.any fun f =>
      decide (f.reason ≠ .trailingFragment) && !f.reason.isTranscript) = false := by
    rw [hreached.findings, List.any_eq_false]
    intro finding hfinding
    rcases List.mem_append.mp hfinding with hfinding | hfinding
    · rw [fragmentFindings_reason hfinding]
      decide
    · simp [(hothers finding hfinding).2]
  have hidentities : ((inspectTranscriptIntegrity messages).issues.map issueFinding).map
      findingIdentity = (inspectTranscriptIntegrity messages).issues.map expectedIdentity := by
    rw [List.map_map]
    rfl
  have hissues : (inspectTranscriptIntegrity messages).ok =
      (inspectTranscriptIntegrity messages).issues.isEmpty := by
    rw [Bool.eq_iff_iff, Agent.ok_iff_issues_eq_nil, List.isEmpty_iff]
  unfold reportIsConsistent
  simp only [trailing_consistent h hreached.findings fun f hf => (hothers f hf).1, ok_eq_isEmpty h,
    htranscript, hreached.transcript, hany, hreached.messages_eq, hidentities,
    sameIdentityMultiset_self, hissues, ne_eq, not_true_eq_false, if_false, Bool.false_eq_true, ok_bind,
    decide_false, Bool.not_true, Bool.or_self, pure_eq_ok]

end Inspection

/-! ## The plan -/

/-- The results that a plan appends. -/
def SessionRepairPlan.results (plan : SessionRepairPlan) : List ToolResultMessage :=
  plan.actions.filterMap fun
    | .appendSyntheticToolResult _ _ _ message => some message
    | .quarantineTrailingFragment _ _ => none

/-- The file that a plan describes: the complete prefix, and one message entry for each result. The
entries are chained from the active leaf. -/
def SessionRepairPlan.repairedBytes (plan : SessionRepairPlan) (bytes : List UInt8)
    (stamps : List Stamp) : List UInt8 :=
  bytes.take plan.precondition.completePrefix.byteCount ++
    (chainEntries (leafKey plan.precondition.activeLeafId)
      (stamps.zip (plan.results.map ToolResultMessage.toJson))).flatMap entryLine

section Plan

variable {platform : Platform} {bytes : List UInt8} {report : Report} {options : Json}
  {checked : RepairOptions}

theorem isRepairable_eq_false {reason : ReasonCode} :
    reason.isRepairable = false ↔
      reason ≠ .trailingFragment ∧ reason ≠ .transcript .missingResult := by
  simp [ReasonCode.isRepairable]

theorem consistent_of_inspection (h : inspectSessionIntegrity platform bytes = .ok report) :
    reportIsConsistent report = .ok true := by
  rcases inspectSessionIntegrity_cases h with ⟨others, hstopped⟩ | ⟨header, messages, hreached⟩
  · exact Stopped.reportIsConsistent_eq h hstopped
  · exact Reached.reportIsConsistent_eq h hreached

/-- A finding that cannot be repaired blocks the plan. -/
theorem createSessionRepairPlan_blocked (h : inspectSessionIntegrity platform bytes = .ok report)
    (hoptions : validateOptions options = .ok checked) {finding : Finding}
    (hfinding : finding ∈ report.findings) (hreason : finding.reason.isRepairable = false) :
    createSessionRepairPlan report options = .ok (basePlan report checked .blocked []
      ((report.findings.filter fun f => !f.reason.isRepairable).map blockerForFinding)) := by
  have hne : ((report.findings.filter fun f => !f.reason.isRepairable).map
      blockerForFinding).isEmpty = false := by
    rw [List.isEmpty_eq_false_iff, ne_eq, List.map_eq_nil_iff]
    exact List.ne_nil_of_mem (List.mem_filter.mpr ⟨hfinding, by simp [hreason]⟩)
  unfold createSessionRepairPlan
  rw [hoptions, ok_bind, consistent_of_inspection h, ok_bind]
  simp only [hne, Bool.not_true, Bool.not_false, Bool.false_eq_true, if_false, if_true, pure_eq_ok]

/-- Without such a finding the inspection reaches a transcript in which only results are missing. -/
theorem reached_of_repairable (h : inspectSessionIntegrity platform bytes = .ok report)
    (hrepairable : ∀ finding ∈ report.findings, finding.reason.isRepairable = true) :
    ∃ header messages, Reached platform bytes report header messages ∧
      ∀ issue ∈ (inspectTranscriptIntegrity messages).issues, issue.kind = .missingResult := by
  rcases inspectSessionIntegrity_cases h with ⟨others, hstopped⟩ | ⟨header, messages, hreached⟩
  · obtain ⟨finding, hfinding⟩ := List.exists_mem_of_ne_nil _ hstopped.nonempty
    have hreason := hrepairable finding (by simp [hstopped.findings, hfinding])
    have hstructural := hstopped.structural finding hfinding
    cases hcode : finding.reason with
    | trailingFragment => rw [hcode] at hstructural; exact Bool.noConfusion hstructural
    | transcript kind => rw [hcode] at hstructural; exact Bool.noConfusion hstructural
    | _ => rw [hcode] at hreason; exact Bool.noConfusion hreason
  · refine ⟨header, messages, hreached, ?_⟩
    intro issue hissue
    have hreason := hrepairable (issueFinding issue) (by
      rw [hreached.findings]
      exact List.mem_append_right _ (List.mem_map_of_mem hissue))
    simpa [issueFinding, ReasonCode.isRepairable] using hreason

/-- The plan appends a result for each unanswered call. -/
theorem createSessionRepairPlan_unanswered
    (h : inspectSessionIntegrity platform bytes = .ok report)
    (hoptions : validateOptions options = .ok checked)
    (hrepairable : ∀ finding ∈ report.findings, finding.reason.isRepairable = true)
    {header : FileEntry} {messages : List AgentMessage}
    (hreached : Reached platform bytes report header messages)
    (hmissing : ∀ issue ∈ (inspectTranscriptIntegrity messages).issues,
      issue.kind = .missingResult) :
    createSessionRepairPlan report options =
      let actions := repairActions report checked (unansweredCalls messages)
      .ok (basePlan report checked (if actions.isEmpty then .notNeeded else .repairable) actions []) := by
  have hblockers : (report.findings.filter fun f => !f.reason.isRepairable) = [] := by
    rw [List.filter_eq_nil_iff]
    intro finding hfinding
    simp [hrepairable finding hfinding]
  have hissues : ((inspectTranscriptIntegrity messages).issues.filter fun issue =>
      decide (issue.kind = .missingResult)) = (inspectTranscriptIntegrity messages).issues := by
    rw [List.filter_eq_self]
    intro issue hissue
    simpa using hmissing issue hissue
  have hkinds : ((inspectTranscriptIntegrity messages).issues.any fun issue =>
      decide (issue.kind ≠ .missingResult)) = false := by
    rw [List.any_eq_false]
    intro issue hissue
    simpa using hmissing issue hissue
  have hfindings : (report.findings.filter fun f =>
      decide (f.reason = .transcript .missingResult)).length =
        (inspectTranscriptIntegrity messages).issues.length := by
    have hnone : ((fragmentFindings bytes).filter fun f =>
        decide (f.reason = .transcript .missingResult)) = [] := by
      rw [List.filter_eq_nil_iff]
      intro finding hfinding
      rw [fragmentFindings_reason hfinding]
      decide
    have hall : (((inspectTranscriptIntegrity messages).issues.map issueFinding).filter
        fun f => decide (f.reason = .transcript .missingResult)) =
          (inspectTranscriptIntegrity messages).issues.map issueFinding := by
      rw [List.filter_eq_self]
      intro finding hfinding
      obtain ⟨issue, hissue, rfl⟩ := List.mem_map.mp hfinding
      simp [issueFinding, hmissing issue hissue]
    rw [hreached.findings, List.filter_append, hnone, hall, List.nil_append, List.length_map]
  unfold createSessionRepairPlan
  rw [hoptions, ok_bind, consistent_of_inspection h, ok_bind]
  simp only [hblockers, hreached.transcript, hissues, hkinds, hfindings,
    hreached.missingTailCalls_eq hmissing, List.map_nil, List.isEmpty_nil, Bool.not_true,
    Bool.false_eq_true, if_false, ne_eq, not_true_eq_false, decide_false, Bool.or_self, ok_bind,
    pure_eq_ok]

/-- The results of the plan are those of the repair of the transcript. -/
theorem results_basePlan (status : SessionRepairPlanStatus) (calls : List ToolCall) :
    (basePlan report checked status (repairActions report checked calls) []).results =
      syntheticResults (repairText checked.reason) (fun _ => checked.timestamp) calls := by
  have hcalls : ∀ n, ((calls.zipIdx n).map fun p => createSyntheticToolResult p.1.id p.1.name
      (repairText checked.reason) checked.timestamp) =
      syntheticResults (repairText checked.reason) (fun _ => checked.timestamp) calls := by
    induction calls with
    | nil =>
      intro n
      rfl
    | cons call calls ih =>
      intro n
      rw [List.zipIdx_cons, List.map_cons, syntheticResults, ← ih (n + 1)]
  unfold SessionRepairPlan.results basePlan repairActions
  rw [List.filterMap_append, List.filterMap_map, ← hcalls 0, ← List.filterMap_eq_map]
  cases report.trailingFragment <;> rfl

end Plan

/-! ## The results in the file -/

theorem wellFormed_syntheticResult (call : ToolCall) (text : String) (timestamp : Nat) :
    (createSyntheticToolResult call.id call.name text timestamp).toJson.WellFormed := by
  simp [createSyntheticToolResult, ToolResultMessage.toJson, Agent.syntheticEnvelope,
    Agent.ToolResultEnvelope.toJson, Agent.ContentBlock.toJson, Json.WellFormed,
    Json.WellFormed.WellFormedItems, Json.WellFormed.WellFormedFields]

theorem finiteNonNegativeNumber_ofNat {n : Nat} (h : n ≤ maxSafeInteger) :
    finiteNonNegativeNumber (some (.num (.ofNat n))) = true := by
  have hvalue := Decimal.toNat?_ofNat n
  unfold Decimal.toNat? at hvalue
  split_ifs at hvalue with hsign
  obtain ⟨hmantissa, hexponent⟩ := hsign
  have hproduct := Option.some.inj hvalue
  have habs : (Decimal.ofNat n).mantissa.natAbs = (Decimal.ofNat n).mantissa.toNat := by omega
  have hmax : maxSafeInteger < 2 ^ 53 := by decide
  have hbound : (Decimal.ofNat n).exponent ≤ 310 := by
    by_contra hlarge
    have hpow : 10 ^ 16 ≤ 10 ^ (Decimal.ofNat n).exponent.toNat :=
      Nat.pow_le_pow_right (by omega) (by omega)
    have hzero : (Decimal.ofNat n).mantissa ≠ 0 := by
      intro hzero
      rcases (Decimal.ofNat n).normal with hnormal | hnormal
      · exact hnormal (by rw [hzero]; rfl)
      · omega
    have hle : 10 ^ (Decimal.ofNat n).exponent.toNat ≤
        (Decimal.ofNat n).mantissa.toNat * 10 ^ (Decimal.ofNat n).exponent.toNat :=
      Nat.le_mul_of_pos_left _ (by omega)
    rw [hproduct] at hle
    have hlarge' := hpow.trans hle
    omega
  have hfinite : n < 2 ^ 1024 - 2 ^ 970 := by
    have hfar : 2 ^ 53 < 2 ^ 1024 - 2 ^ 970 := by decide +kernel
    exact (h.trans_lt hmax).trans hfar
  have hrounds : roundsFinite (.ofNat n) = true := by
    unfold roundsFinite
    rw [if_pos hexponent, habs, hproduct, decide_eq_true hbound, decide_eq_true hfinite]
    rfl
  have hsign : roundsNonNegative (.ofNat n) = true := by
    unfold roundsNonNegative
    rw [decide_eq_true hmantissa, Bool.true_or]
  show (roundsFinite (.ofNat n) && roundsNonNegative (.ofNat n)) = true
  rw [hrounds, hsign]
  rfl

/-- The synthetic result of a named call is a message that the inspection accepts. -/
theorem validAgentMessage_syntheticResult {call : ToolCall} (hid : call.id ≠ "")
    (hname : call.name ≠ "") (text : String) (htime : timestamp ≤ maxSafeInteger) :
    validAgentMessage (some
      (createSyntheticToolResult call.id call.name text timestamp).toJson) = true := by
  have hrole : validToolResult
      (createSyntheticToolResult call.id call.name text timestamp).toJson = true := by
    show (nonEmptyString (some (.str call.id)) && nonEmptyString (some (.str call.name)) && _ && _) =
      true
    simp only [nonEmptyString, hid, hname, ne_eq, not_false_eq_true, decide_true, Bool.and_self,
      Bool.true_and]
    rfl
  show (finiteNonNegativeNumber (some (.num (.ofNat timestamp))) && validToolResult _) = true
  rw [finiteNonNegativeNumber_ofNat htime, hrole]
  rfl

/-- A tool result as the transcript inspector reads it from the file. -/
def readResult (result : ToolResultMessage) : ToolResultMessage :=
  { result with content := [], timestamp := 0 }

theorem transcriptMessage_toolResult (result : ToolResultMessage) :
    transcriptMessage result.toJson = .ok (.toolResult (readResult result)) := by
  obtain ⟨toolCallId, toolName, content, details, isError, timestamp⟩ := result
  cases details <;> cases isError <;> rfl

theorem transcriptOf_toolResults (results : List ToolResultMessage) :
    transcriptOf (results.map ToolResultMessage.toJson) =
      .ok ((results.map readResult).map .toolResult) := by
  unfold transcriptOf
  induction results with
  | nil => rfl
  | cons result results ih =>
    rw [List.map_cons, List.mapM_cons, transcriptMessage_toolResult, ok_bind, ih, ok_bind]
    rfl

theorem transcriptOf_append {front back : List Json} {read read' : List AgentMessage}
    (hfront : transcriptOf front = .ok read) (hback : transcriptOf back = .ok read') :
    transcriptOf (front ++ back) = .ok (read ++ read') := by
  unfold transcriptOf at *
  rw [List.mapM_append, hfront, ok_bind, hback, ok_bind]
  rfl

section Plan

variable {platform : Platform} {bytes : List UInt8} {report : Report} {header : FileEntry}
  {messages : List AgentMessage}

theorem Reached.named (h : Reached platform bytes report header messages) :
    ∀ call ∈ unansweredCalls messages, call.id ≠ "" ∧ call.name ≠ "" := by
  intro call hcall
  unfold unansweredCalls at hcall
  obtain ⟨message, hmessage, hmem⟩ := List.mem_flatMap.mp (List.mem_of_mem_filter hcall)
  exact named_of_mem_toolCalls h.messages_eq h.checked hmessage hmem

theorem mem_syntheticResults {text : String} {calls : List ToolCall}
    {result : ToolResultMessage}
    (h : result ∈ syntheticResults text (fun _ => timestamp) calls) :
    ∃ call ∈ calls, result = createSyntheticToolResult call.id call.name text timestamp := by
  induction calls with
  | nil => simp [syntheticResults] at h
  | cons call calls ih =>
    rcases List.mem_cons.mp h with rfl | h
    · exact ⟨call, by simp, rfl⟩
    · obtain ⟨other, hmem, heq⟩ := ih h
      exact ⟨other, List.mem_cons_of_mem _ hmem, heq⟩

/-- The file with the results of the unanswered calls passes the inspection. -/
theorem Reached.closed_ok (h : Reached platform bytes report header messages)
    (hmissing : ∀ issue ∈ (inspectTranscriptIntegrity messages).issues,
      issue.kind = .missingResult)
    (text : String) (htime : timestamp ≤ maxSafeInteger) {stamps : List Stamp}
    (hlength : stamps.length = (unansweredCalls messages).length)
    (hfresh : FreshStamps platform report.entries stamps) :
    let results :=
      syntheticResults text (fun _ => timestamp) (unansweredCalls messages)
    ∃ report', inspectSessionIntegrity platform (completePrefix bytes ++
        (chainEntries (leafKey report.activeLeafId)
          (stamps.zip (results.map ToolResultMessage.toJson))).flatMap entryLine) =
      .ok report' ∧ report'.ok = true := by
  intro results
  have hcount : results.length = (unansweredCalls messages).length := by
    rw [← List.length_map (f := ToolResultMessage.toolCallId), Agent.syntheticResults_ids,
      List.length_map]
  set stamped := stamps.zip (results.map ToolResultMessage.toJson) with hstamped
  have hfirst : stamped.map Prod.fst = stamps :=
    List.map_fst_zip (by rw [List.length_map]; omega)
  have hsecond : stamped.map Prod.snd = results.map ToolResultMessage.toJson :=
    List.map_snd_zip (by rw [List.length_map]; omega)
  have hresults : ∀ message ∈ stamped.map Prod.snd, ∃ call ∈ unansweredCalls messages,
      message = (createSyntheticToolResult call.id call.name text timestamp).toJson := by
    intro message hmessage
    rw [hsecond] at hmessage
    obtain ⟨result, hresult, rfl⟩ := List.mem_map.mp hmessage
    obtain ⟨call, hcall, rfl⟩ := mem_syntheticResults hresult
    exact ⟨call, hcall, rfl⟩
  have hmessages : ∀ message ∈ stamped.map Prod.snd,
      message.WellFormed ∧ validAgentMessage (some message) = true := by
    intro message hmessage
    obtain ⟨call, hcall, rfl⟩ := hresults message hmessage
    obtain ⟨hid, hname⟩ := h.named call hcall
    exact ⟨wellFormed_syntheticResult call text timestamp,
      validAgentMessage_syntheticResult hid hname text htime⟩
  have hroles : ∀ message ∈ stamped.map Prod.snd,
      message ≠ .null ∧ message.get? "role" ≠ some (.str "assistant") := by
    intro message hmessage
    obtain ⟨call, -, rfl⟩ := hresults message hmessage
    have hrole : (createSyntheticToolResult call.id call.name text timestamp).toJson.get?
        "role" = some (.str "toolResult") := rfl
    refine ⟨by simp [ToolResultMessage.toJson], ?_⟩
    rw [hrole]
    simp
  have hcomplete := complete_completePrefix h.healthy.nonempty
  obtain ⟨context, hcontext, hactive⟩ := h.context
  obtain ⟨hhealthy, hcomplete', hpath⟩ :=
    h.healthy.extend stamped hmessages hcomplete h.branch (hfirst.symm ▸ hfresh)
  have hread : transcriptOf (context.messages ++ stamped.map Prod.snd) =
      .ok (messages ++ (results.map readResult).map .toolResult) := by
    rw [hactive, hsecond]
    exact transcriptOf_append h.messages_eq (transcriptOf_toolResults results)
  have hids : (results.map readResult).map ToolResultMessage.toolCallId =
      (unansweredCalls messages).map ToolCall.id := by
    rw [List.map_map]
    exact Agent.syntheticResults_ids text _ _
  rw [h.leaf]
  exact ok_of_healthy hhealthy hcomplete' hpath (compactionFindings_append_chain h.compactions _ _)
    (pathContext_append_chain hcontext _ hroles) hread (Agent.closed_ok hmissing hids)

end Plan

/-- On the report of an inspection a plan is blocked exactly by a finding that is neither a trailing
fragment nor a missing result. A plan that is not blocked appends the results with which the repair
of the transcript closes it, and the file that it describes passes the inspection. -/
theorem createSessionRepairPlan_repairs {platform : Platform} {bytes : List UInt8} {report : Report}
    (h : inspectSessionIntegrity platform bytes = .ok report) {options : Json}
    {checked : RepairOptions} (hoptions : validateOptions options = .ok checked) :
    ∃ plan, createSessionRepairPlan report options = .ok plan ∧
      (plan.status = .blocked ↔ ∃ finding ∈ report.findings,
        finding.reason ≠ .trailingFragment ∧ finding.reason ≠ .transcript .missingResult) ∧
      (plan.status = .repairable → ∀ stamps : List Stamp, stamps.length = plan.results.length →
        FreshStamps platform report.entries stamps →
          ∃ report', inspectSessionIntegrity platform (plan.repairedBytes bytes stamps) =
            .ok report' ∧ report'.ok = true) ∧
      (plan.status ≠ .blocked → ∃ messages, transcriptOf report.activeMessages = .ok messages ∧
        Agent.repairTranscriptIntegrity messages (some (repairText checked.reason))
            (fun _ => checked.timestamp) =
          .ok (messages ++ plan.results.map .toolResult)) := by
  by_cases hblocked : ∃ finding ∈ report.findings, finding.reason.isRepairable = false
  · obtain ⟨finding, hfinding, hreason⟩ := hblocked
    refine ⟨_, createSessionRepairPlan_blocked h hoptions hfinding hreason, ?_, ?_, ?_⟩
    · exact iff_of_true rfl ⟨finding, hfinding, (isRepairable_eq_false).mp hreason⟩
    · intro hstatus
      simp [basePlan] at hstatus
    · intro hstatus
      exact absurd rfl hstatus
  · have hrepairable : ∀ finding ∈ report.findings, finding.reason.isRepairable = true := by
      intro finding hfinding
      by_contra hreason
      exact hblocked ⟨finding, hfinding, by simpa using hreason⟩
    obtain ⟨header, messages, hreached, hmissing⟩ := reached_of_repairable h hrepairable
    have hplan := createSessionRepairPlan_unanswered h hoptions hrepairable hreached hmissing
    refine ⟨_, hplan, ?_, ?_, ?_⟩
    · refine iff_of_false ?_ ?_
      · unfold basePlan
        dsimp only
        split_ifs <;> simp
      · rintro ⟨finding, hfinding, hreason⟩
        exact hblocked ⟨finding, hfinding, (isRepairable_eq_false).mpr hreason⟩
    · rintro - stamps hlength hfresh
      rw [results_basePlan] at hlength
      unfold SessionRepairPlan.repairedBytes
      rw [results_basePlan]
      have htake : bytes.take report.completePrefix.byteCount = completePrefix bytes := by
        rw [(trailingFragment_eq h).2]
        exact (List.prefix_iff_eq_take.mp (completePrefix_isPrefix bytes)).symm
      show ∃ report', inspectSessionIntegrity platform (bytes.take report.completePrefix.byteCount ++
        (chainEntries (leafKey report.activeLeafId) _).flatMap entryLine) = _ ∧ _
      rw [htake]
      refine hreached.closed_ok hmissing _ checked.safe ?_ hfresh
      rw [hlength, ← List.length_map (f := Agent.ToolResultMessage.toolCallId),
        Agent.syntheticResults_ids, List.length_map]
    · rintro -
      refine ⟨messages, hreached.messages_eq, ?_⟩
      rw [results_basePlan]
      exact Agent.repair_of_missing _ _ hmissing

/-! ## An interrupted session -/

/-- The text of a session that ends in a tool call, and a fragment of another line. -/
def interruptedText : List Char :=
  serializeFileEntries
    [sessionHeader "s" "2026-01-01T00:00:00.000Z" "/tmp" none,
      makeEntry (.message (.obj [("role", .str "assistant"),
        ("content", .arr [.obj [("type", .str "toolCall"), ("id", .str "c"), ("name", .str "bash"),
          ("arguments", .obj [])]]),
        ("api", .str "a"), ("provider", .str "p"), ("model", .str "m"),
        ("usage", .obj [("input", number 0), ("output", number 0), ("cacheRead", number 0),
          ("cacheWrite", number 0), ("totalTokens", number 0),
          ("cost", .obj [("input", number 0), ("output", number 0), ("cacheRead", number 0),
            ("cacheWrite", number 0), ("total", number 0)])]),
        ("stopReason", .str "toolUse"), ("timestamp", number 0)]))
        "11111111" (some .null) "2026-01-01T00:00:00.000Z"] ++ ['x']

def sampleRepairOptions : Json :=
  .obj [("repairId", .str "r"), ("reason", .str "doctor_repair"), ("timestamp", number 1)]

/-- The repair of the interrupted session. -/
theorem createSessionRepairPlan_repairs_interrupted :
    ∃ plan, createSessionRepairPlan (reportOn interruptedText) sampleRepairOptions = .ok plan ∧
      plan.status = .repairable ∧ plan.results.map Agent.ToolResultMessage.toolCallId = ["c"] ∧
      ∃ report', inspectSessionIntegrity newYearPlatform
          (plan.repairedBytes (Utf8.encode interruptedText)
            [⟨"22222222", "2026-01-01T00:00:00.000Z"⟩]) = .ok report' ∧ report'.ok = true := by
  have hoptions : (validateOptions sampleRepairOptions).isOk = true := by decide +kernel
  cases hchecked : validateOptions sampleRepairOptions with
  | error e =>
    rw [hchecked] at hoptions
    exact absurd hoptions (by simp [Except.isOk, Except.toBool])
  | ok checked =>
    obtain ⟨plan, hplan, -, hrepairs, -⟩ :=
      createSessionRepairPlan_repairs (reportOn_eq interruptedText) hchecked
    have hvalues : (createSessionRepairPlan (reportOn interruptedText)
        sampleRepairOptions).toOption.map
          (fun plan => (plan.status, plan.results.map Agent.ToolResultMessage.toolCallId)) =
        some (.repairable, ["c"]) := by
      decide +kernel
    rw [hplan] at hvalues
    obtain ⟨hstatus, hresults⟩ := Prod.mk.inj (Option.some.inj hvalues)
    have hlength : plan.results.length = 1 := by
      have := congrArg List.length hresults
      simpa using this
    refine ⟨plan, hplan, hstatus, hresults, hrepairs hstatus _ hlength.symm ?_⟩
    refine ⟨by simp, by simp, ?_, ?_⟩
    · decide +kernel
    · decide +kernel

end CodingAgent.Integrity
