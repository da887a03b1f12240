import OmkVerified.CodingAgent.Compaction.Barrier
import OmkVerified.CodingAgent.Integrity.Proofs.RepairPlanProofs

/-!
# When the compaction barrier opens

A report of the inspection with nothing but missing results is consistent with itself, and its
missing results are those of the last batch of calls. So the barrier decides by the findings and the
pending ids alone.
-/

namespace CodingAgent.Compaction

open Lib Integrity

/-! ## The purpose -/

/-- The ids of the last batch of calls: those of an assistant message that only results follow. -/
def LastBatch (messages : List Json) (ids : List String) : Prop :=
  ∃ front message back blocks, messages = front ++ message :: back ∧
    hasRole "assistant" message = true ∧ (∀ other ∈ back, hasRole "toolResult" other = true) ∧
    message.get? "content" = some (.arr blocks) ∧
    ids = ((blocks.filter isToolCall).map toolCallOf).map Agent.ToolCall.id

/-- The only findings are missing results of the last batch, and all of their ids are pending. -/
def WaitsOnLastBatch (report : Report) (pending : List String) : Prop :=
  report.findings ≠ [] ∧ ∃ ids, LastBatch report.activeMessages ids ∧
    ∀ finding ∈ report.findings, finding.reason = .transcript .missingResult ∧
      ∃ id ∈ finding.toolCallId, id ∈ ids ∧ id ∈ pending

/-! ## Digests -/

section Inspection

variable {platform : Platform} {bytes : List UInt8} {activeLeafId : Option (Option String)}
  {report : Report}

/-- The digests of a report. -/
theorem digests_eq (h : inspectSessionIntegrity platform bytes activeLeafId = .ok report) :
    report.source = ⟨bytes.length, platform.sha256 bytes⟩ ∧
      report.completePrefix = ⟨⟨(completePrefix bytes).length,
        platform.sha256 (completePrefix bytes)⟩, (readRecords (completePrefix bytes)).2.1⟩ ∧
      report.trailingFragment = (if (bytes.drop (completePrefix bytes).length).isEmpty then none
        else some ⟨(bytes.drop (completePrefix bytes).length).length,
          platform.sha256 (bytes.drop (completePrefix bytes).length)⟩) ∧
      report.ok = report.findings.isEmpty := by
  obtain ⟨cycles, -, -, hstructure⟩ := inspectStructure_eq platform bytes
  unfold inspectSessionIntegrity at h
  rw [hstructure, ok_bind] at h
  obtain ⟨part, -, heq⟩ := bind_eq_ok.mp h
  obtain rfl := Except.ok.inj heq
  exact ⟨rfl, rfl, rfl, rfl⟩

theorem length_splitOn_le (c : Char) (text : List Char) :
    (text.splitOn c).length ≤ text.length + 1 := by
  induction text with
  | nil => simp
  | cons d text ih =>
    rw [List.splitOn_cons_eq_if_modifyHead]
    split_ifs
    · simpa using ih
    · rw [List.length_modifyHead, List.length_cons]
      omega

theorem length_le_encode (text : List Char) : text.length ≤ (Utf8.encode text).length := by
  induction text with
  | nil => simp
  | cons c text ih =>
    have hsize := c.utf8Size_pos
    rw [Utf8.encode_cons, List.length_append, String.length_utf8EncodeChar, List.length_cons]
    omega

theorem lineCount_le (complete : List UInt8) : (readRecords complete).2.1 ≤ complete.length := by
  unfold readRecords
  split_ifs with hempty
  · exact Nat.zero_le _
  · have hpos : 0 < complete.length := List.length_pos_iff.mpr (by simpa using hempty)
    cases htext : Utf8.decodeFatal complete with
    | none => exact Nat.zero_le _
    | some text =>
      obtain ⟨full, rfl, rfl⟩ := Utf8.decodeFatal_eq_some htext
      have hlines := length_splitOn_le '\n' (Utf8.dropBom false full).dropLast
      have hdrop : (Utf8.dropBom false full).length ≤ full.length := by
        unfold Utf8.dropBom
        split
        · rw [apply_ite List.length]
          split_ifs <;> simp
        · exact le_rfl
      have hencode := length_le_encode full
      rw [List.length_dropLast] at hlines
      show (List.splitOn '\n' (Utf8.dropBom false full).dropLast).length ≤ _
      omega

/-- The digests and the findings of a report without a trailing fragment are consistent. -/
theorem digestsAreConsistent_of (h : inspectSessionIntegrity platform bytes activeLeafId = .ok report)
    (hsize : bytes.length ≤ maxSafeInteger) (hfragment : fragmentFindings bytes = [])
    (hnonempty : completePrefix bytes ≠ [])
    (hfindings : ∀ finding ∈ report.findings,
      finding.reason = .transcript .missingResult ∧ finding.line = none) :
    digestsAreConsistent report = true := by
  obtain ⟨hsource, hprefix, htrailing, hok⟩ := digests_eq h
  have hempty : (bytes.drop (completePrefix bytes).length).isEmpty = true := by
    simpa [fragmentFindings, findingIf_eq_nil] using hfragment
  have hcomplete : completePrefix bytes = bytes :=
    completePrefix_of_fragment (List.isEmpty_iff.mp hempty)
  rw [if_pos hempty] at htrailing
  have hlines := lineCount_le bytes
  have hvalid : report.findings.all validFinding = true := by
    rw [List.all_eq_true]
    intro finding hfinding
    unfold validFinding
    rw [(hfindings finding hfinding).2]
    rfl
  have hnone : (report.findings.filter fun f => decide (f.reason = .trailingFragment)) = [] := by
    rw [List.filter_eq_nil_iff]
    intro finding hfinding
    simp [(hfindings finding hfinding).1]
  have hpos : bytes.length ≠ 0 := by
    rw [hcomplete] at hnonempty
    simpa using hnonempty
  unfold digestsAreConsistent
  rw [hcomplete] at hprefix
  simp only [hsource, hprefix, htrailing, hok, hvalid, hnone, validByteDigest, validCompletePrefix,
    platform.sha256_hex, hsize, hlines, hlines.trans hsize, hpos, Option.map_none, Option.getD_none,
    Option.all_none, Option.isNone_none, Nat.add_zero, ne_eq, not_false_eq_true, decide_true,
    Bool.and_self, Bool.true_or, Bool.or_true, beq_self_eq_true, if_true, List.length_nil,
    List.all_nil]

/-! ## The header and the branch -/

theorem headerIsConsistent_of {header : FileEntry} (hheader : report.header = some header)
    (h : ValidHeader header) : headerIsConsistent report = true := by
  have hsession := h.session
  unfold isSession hasType at hsession
  rw [decide_eq_true_eq] at hsession
  have hfields := h.fields
  unfold validHeaderFields at hfields
  simp only [Bool.and_eq_true] at hfields
  unfold headerIsConsistent
  rw [hheader]
  simp only [Json.isRecord_of_get? hsession, hfields.1.1.1, Bool.and_self]

/-- A chain of entries passes the loop over the branch. -/
theorem branchIsLinked_of_chain {entries : List FileEntry} (h : Forest platform entries)
    {path : List FileEntry} (hlinks : path.IsChain fun a b => parentOf (indexEntries entries) b = some a)
    (hmem : ∀ entry ∈ path, entry ∈ entries) (hnodup : (path.map entryId).Nodup)
    {expectedParent : Option Json} (hhead : ∀ entry ∈ path.head?, entryParentId entry = expectedParent)
    {branchIds : List (Option Json)} (hfresh : ∀ entry ∈ path, entryId entry ∉ branchIds) :
    branchIsLinked (entries.map entryId) expectedParent branchIds path = true := by
  induction path generalizing expectedParent branchIds with
  | nil => rfl
  | cons entry path ih =>
    have hentry := hmem entry (by simp)
    obtain ⟨id, hid, -⟩ := entryId_of_valid (h.valid entry hentry)
    rw [List.map_cons, List.nodup_cons] at hnodup
    have hrest : branchIsLinked (entries.map entryId) (entryId entry)
        (branchIds ++ [entryId entry]) path = true := by
      refine ih hlinks.tail (fun e he => hmem e (List.mem_cons_of_mem _ he)) hnodup.2 ?_ ?_
      · intro e he
        cases path with
        | nil => simp at he
        | cons next path =>
          obtain rfl : next = e := by simpa using he
          exact (h.parentOf_eq_some.mp (List.isChain_cons_cons.mp hlinks).1).2
      · intro e he
        rw [List.mem_append, List.mem_singleton, not_or]
        refine ⟨hfresh e (List.mem_cons_of_mem _ he), ?_⟩
        intro heq
        exact hnodup.1 (heq ▸ List.mem_map_of_mem he)
    unfold branchIsLinked
    rw [hrest, isRecord_of_validEntryShape (h.valid entry hentry), hhead entry (by simp)]
    have hseen : branchIds.contains (entryId entry) = false := by
      simpa using hfresh entry (by simp)
    have hown : (entries.map entryId).contains (entryId entry) = true := by
      simpa using ⟨entry, hentry, rfl⟩
    rw [hseen, hown, hid]
    simp [isText]

section Followed

variable {header : FileEntry} {messages : List Agent.AgentMessage}

theorem activeBranchIsConsistent_of (h : Followed platform bytes report header messages) :
    activeBranchIsConsistent report = true := by
  have hforest := h.healthy.forest
  have hentries : (report.entries.all fun entry =>
      entry.isRecord && nonEmptyString (entryId entry)) = true := by
    rw [List.all_eq_true]
    intro entry hentry
    rw [isRecord_of_validEntryShape (hforest.valid entry hentry),
      nonEmptyString_eq_true.mpr (entryId_of_valid (hforest.valid entry hentry))]
    rfl
  have hlast := h.last
  unfold activeBranchIsConsistent
  rw [hentries, Bool.true_and]
  cases hleaf : report.activeLeafId with
  | none =>
    rw [hleaf] at hlast
    simpa using List.getLast?_eq_none_iff.mp hlast
  | some leaf =>
    rw [hleaf] at hlast
    have hhas := h.named leaf hleaf
    rw [OrderedMap.has_iff, keys_indexEntries] at hhas
    obtain ⟨entry, hentry, hid⟩ := List.mem_map.mp hhas
    have hlast : report.activeBranch.getLast? = some entry := by
      rw [hlast]
      show (indexEntries report.entries).get? (some (.str leaf)) = some entry
      rw [← hid]
      exact hforest.stored hentry
    have hnodup : (report.activeBranch.map entryId).Nodup :=
      h.chain.nodup.map_on fun a ha b hb hab =>
        List.inj_on_of_nodup_map hforest.distinct (h.members a ha) (h.members b hb) hab
    have hlinked : branchIsLinked (report.entries.map entryId) (some .null) []
        report.activeBranch = true := by
      refine branchIsLinked_of_chain hforest h.chain.links h.members hnodup ?_ (by simp)
      intro e he
      exact (hforest.parentOf_eq_none (h.members e (List.mem_of_head? he))).mp (h.chain.root e he)
    have hne : report.activeBranch.isEmpty = false := by
      rw [List.isEmpty_eq_false_iff]
      rintro hnil
      simp [hnil] at hlast
    simp only [hlinked, hne, hlast, Option.bind_some, hid, decide_true, Bool.not_false,
      Bool.and_self]

theorem checked_of_followed (h : Followed platform bytes report header messages) :
    ∀ message ∈ report.activeMessages, Checked message :=
  h.healthy.forest.checked h.members h.context

/-- The transcript part of such a report is consistent. -/
theorem transcriptIsConsistent_of (h : Followed platform bytes report header messages)
    (hfindings : report.findings =
      (Agent.inspectTranscriptIntegrity messages).issues.map issueFinding)
    (hmissing : ∀ issue ∈ (Agent.inspectTranscriptIntegrity messages).issues,
      issue.kind = .missingResult) : transcriptIsConsistent report = true := by
  have htranscript : (report.findings.filter fun f => f.reason.isTranscript) = report.findings := by
    rw [hfindings, List.filter_eq_self]
    intro finding hfinding
    obtain ⟨issue, -, rfl⟩ := List.mem_map.mp hfinding
    rfl
  have hstructural : report.findings.any isStructuralFinding = false := by
    rw [hfindings, List.any_eq_false]
    intro finding hfinding
    obtain ⟨issue, -, rfl⟩ := List.mem_map.mp hfinding
    simp [isStructuralFinding, issueFinding, ReasonCode.isTranscript]
  -- a missing result names a call, and calls have an id
  have hvalid : (Agent.inspectTranscriptIntegrity messages).issues.all validTranscriptIssue = true := by
    rw [List.all_eq_true]
    intro issue hissue
    have hid : issue.toolCallId ∈ Agent.callIds messages := by
      refine List.mem_of_mem_filter (p := fun id => decide (id ∉ Agent.resultIds messages)) ?_
      rw [← Agent.missing_ids hmissing]
      exact List.mem_map_of_mem hissue
    obtain ⟨message, hmessage, hcalls⟩ := List.mem_flatMap.mp hid
    obtain ⟨call, hcall, heq⟩ := List.mem_map.mp hcalls
    have hnamed := named_of_mem_toolCalls h.messages_eq (checked_of_followed h) hmessage hcall
    simpa [validTranscriptIssue, ← heq] using hnamed.1
  have hok : (Agent.inspectTranscriptIntegrity messages).ok =
      (Agent.inspectTranscriptIntegrity messages).issues.isEmpty := by
    rw [Bool.eq_iff_iff, Agent.ok_iff_issues_eq_nil, List.isEmpty_iff]
  have hidentities : report.findings.map findingIdentity =
      (Agent.inspectTranscriptIntegrity messages).issues.map expectedIdentity := by
    rw [hfindings, List.map_map]
    rfl
  unfold transcriptIsConsistent
  simp only [h.transcript, htranscript, hstructural, hvalid, hok, h.messages_eq, hidentities,
    sameIdentityMultiset_self, beq_self_eq_true, Bool.not_false, Bool.and_self]

end Followed

/-! ## The barrier -/

/-- Anything but a missing result closes the barrier. -/
theorem failClosed_of_finding {ids : Option Json} {pending : List String}
    (hpending : copyIdArray ids "pendingToolCallIds" maxProvenanceIds = .ok pending)
    {finding : Finding} (hfinding : finding ∈ report.findings)
    (hreason : finding.reason ≠ .transcript .missingResult) :
    ∃ result, evaluateCompactionBarrier report ids = .ok result ∧ result.status = .failClosed := by
  have hblocked : ∀ issues, isBlocked report issues = true := by
    intro issues
    unfold isBlocked
    rw [Bool.or_eq_true, List.any_eq_true]
    exact .inl ⟨finding, hfinding, by simpa using hreason⟩
  unfold evaluateCompactionBarrier
  rw [hpending]
  simp only [hblocked, if_true]
  split_ifs
  · exact ⟨_, rfl, rfl⟩
  · exact ⟨_, rfl, rfl⟩

/-- A report whose findings are all missing results: it follows the branch to its transcript. -/
structure OnlyMissing (platform : Platform) (bytes : List UInt8) (report : Report)
    (header : FileEntry) (messages : List Agent.AgentMessage) : Prop extends
    Followed platform bytes report header messages where
  consistent : reportIsConsistent report = true
  missing : ∀ issue ∈ (Agent.inspectTranscriptIntegrity messages).issues, issue.kind = .missingResult
  findings_eq : report.findings = (Agent.inspectTranscriptIntegrity messages).issues.map issueFinding

theorem exists_onlyMissing (h : inspectSessionIntegrity platform bytes activeLeafId = .ok report)
    (hsize : bytes.length ≤ maxSafeInteger)
    (hfindings : ∀ finding ∈ report.findings, finding.reason = .transcript .missingResult) :
    ∃ header messages, OnlyMissing platform bytes report header messages := by
  rcases followed_cases h with ⟨others, hstopped⟩ | ⟨header, messages, hf⟩
  · obtain ⟨finding, hfinding⟩ := List.exists_mem_of_ne_nil _ hstopped.nonempty
    have hstructural := hstopped.structural finding hfinding
    rw [hfindings finding (by simp [hstopped.findings, hfinding])] at hstructural
    exact Bool.noConfusion hstructural
  · have hfragment : fragmentFindings bytes = [] := by
      rw [List.eq_nil_iff_forall_not_mem]
      intro finding hfinding
      have hreason := hfindings finding (by simp [hf.findings, hfinding])
      rw [fragmentFindings_reason hfinding] at hreason
      simp at hreason
    have hall := hf.findings
    rw [hfragment, List.nil_append] at hall
    have hmissing : ∀ issue ∈ (Agent.inspectTranscriptIntegrity messages).issues,
        issue.kind = .missingResult := by
      intro issue hissue
      have hreason := hfindings (issueFinding issue) (by
        rw [hall]
        exact List.mem_map_of_mem hissue)
      simpa [issueFinding] using hreason
    have hdigests := digestsAreConsistent_of h hsize hfragment hf.healthy.nonempty
      (fun finding hfinding => ⟨hfindings finding hfinding, by
        rw [hall] at hfinding
        obtain ⟨issue, -, rfl⟩ := List.mem_map.mp hfinding
        rfl⟩)
    refine ⟨header, messages, hf, ?_, hmissing, hall⟩
    unfold reportIsConsistent
    rw [hdigests, headerIsConsistent_of hf.header_eq hf.healthy.header,
      activeBranchIsConsistent_of hf, transcriptIsConsistent_of hf hall hmissing]
    rfl

section OnlyMissing

variable {header : FileEntry} {messages : List Agent.AgentMessage}

theorem OnlyMissing.isBlocked_eq (h : OnlyMissing platform bytes report header messages) :
    isBlocked report (Agent.inspectTranscriptIntegrity messages).issues = false := by
  unfold isBlocked
  rw [Bool.or_eq_false_iff, List.any_eq_false, List.any_eq_false, h.findings_eq]
  refine ⟨?_, fun issue hissue => by simpa using h.missing issue hissue⟩
  intro finding hfinding
  obtain ⟨issue, hissue, rfl⟩ := List.mem_map.mp hfinding
  simp [issueFinding, h.missing issue hissue]

/-- The missing results are those of the last batch. -/
theorem OnlyMissing.atTail (h : OnlyMissing platform bytes report header messages)
    (hne : (Agent.inspectTranscriptIntegrity messages).issues ≠ []) :
    missingCallsAreAtActiveTail report ((Agent.inspectTranscriptIntegrity messages).issues.map
        Agent.TranscriptIntegrityIssue.toolCallId) = .ok true ∧
      ∃ ids, LastBatch report.activeMessages ids ∧
        ∀ issue ∈ (Agent.inspectTranscriptIntegrity messages).issues, issue.toolCallId ∈ ids := by
  obtain ⟨pre, last, results, message, blocks, htail⟩ :=
    exists_activeTail h.messages_eq (checked_of_followed h.toFollowed) h.missing hne
  have hcalls : ((blocks.filter isToolCall).map toolCallOf).map Agent.ToolCall.id =
      last.toolCalls.map Agent.ToolCall.id := by
    rw [htail.calls]
  have hown : ∀ issue ∈ (Agent.inspectTranscriptIntegrity messages).issues,
      issue.toolCallId ∈ last.toolCalls.map Agent.ToolCall.id := by
    intro issue hissue
    have hid : issue.toolCallId ∈ (Agent.callIds messages).filter
        fun id => decide (id ∉ Agent.resultIds messages) := by
      rw [← Agent.missing_ids h.missing]
      exact List.mem_map_of_mem hissue
    obtain ⟨hcall, hunanswered⟩ := List.mem_filter.mp hid
    exact htail.missing_own _ hcall (by simpa using hunanswered)
  have hids : messageToolCallIds message = .ok (last.toolCalls.map Agent.ToolCall.id) := by
    have hfilter : (blocks.filter fun block => isLiteral (block.get? "type") "toolCall") =
        blocks.filter isToolCall := by
      refine List.filter_congr ?_
      intro block hblock
      exact (isToolCall_of_valid (htail.checked block hblock)).symm
    unfold messageToolCallIds
    rw [htail.content, ← hcalls, List.map_map]
    simp only [hfilter]
    rfl
  have hall : (((Agent.inspectTranscriptIntegrity messages).issues.map
      Agent.TranscriptIntegrityIssue.toolCallId).all fun id =>
        decide (id ∈ last.toolCalls.map Agent.ToolCall.id)) = true := by
    rw [List.all_map, List.all_eq_true]
    intro issue hissue
    simpa using hown issue hissue
  refine ⟨?_, _, ⟨report.activeMessages.take pre.length, message,
    report.activeMessages.drop (pre.length + 1), blocks, ?_, htail.role, ?_, htail.content, rfl⟩, ?_⟩
  · unfold missingCallsAreAtActiveTail
    simp only [htail.position, htail.message_eq, Option.getD_some, hids, ok_bind, hall, htail.own,
      Bool.and_self, pure_eq_ok]
  · obtain ⟨hlt, hget⟩ := List.getElem?_eq_some_iff.mp htail.message_eq
    rw [← hget, List.getElem_cons_drop, List.take_append_drop]
  · intro other hother
    have hresult := List.all_eq_true.mp htail.own other hother
    unfold isResultOf at hresult
    exact (Bool.and_eq_true _ _ ▸ hresult).1
  · rw [hcalls]
    exact hown

/-- What the barrier answers when only results are missing. -/
theorem OnlyMissing.evaluate_eq (h : OnlyMissing platform bytes report header messages)
    {ids : Option Json} {pending : List String}
    (hpending : copyIdArray ids "pendingToolCallIds" maxProvenanceIds = .ok pending) :
    ∃ result, evaluateCompactionBarrier report ids = .ok result ∧ result.status =
      if (Agent.inspectTranscriptIntegrity messages).issues = [] then
        if pending = [] then .ready else .defer
      else if ∀ issue ∈ (Agent.inspectTranscriptIntegrity messages).issues,
        issue.toolCallId ∈ pending then .defer else .failClosed := by
  have hkept : ((Agent.inspectTranscriptIntegrity messages).issues.filter fun issue =>
      decide (issue.kind = .missingResult)) = (Agent.inspectTranscriptIntegrity messages).issues := by
    rw [List.filter_eq_self]
    intro issue hissue
    simpa using h.missing issue hissue
  unfold evaluateCompactionBarrier
  simp only [hpending, h.transcript, Option.map_some, Option.getD_some, h.consistent, Bool.not_true,
    Bool.false_eq_true, if_false, hkept, h.isBlocked_eq, List.isEmpty_iff, List.map_eq_nil_iff]
  by_cases hnil : (Agent.inspectTranscriptIntegrity messages).issues = []
  · rw [if_pos hnil, if_pos hnil]
    split_ifs
    · exact ⟨_, rfl, rfl⟩
    · exact ⟨_, rfl, rfl⟩
  · rw [if_neg hnil, if_neg hnil, (h.atTail hnil).1, ok_bind]
    by_cases hall : ∀ issue ∈ (Agent.inspectTranscriptIntegrity messages).issues,
        issue.toolCallId ∈ pending
    · have hany : (((Agent.inspectTranscriptIntegrity messages).issues.map
          Agent.TranscriptIntegrityIssue.toolCallId).any fun id => decide (id ∉ pending)) = false := by
        rw [List.any_map, List.any_eq_false]
        intro issue hissue
        simpa using hall issue hissue
      rw [if_pos hall, hany]
      exact ⟨_, rfl, rfl⟩
    · have hany : (((Agent.inspectTranscriptIntegrity messages).issues.map
          Agent.TranscriptIntegrityIssue.toolCallId).any fun id => decide (id ∉ pending)) = true := by
        push Not at hall
        obtain ⟨issue, hissue, hnot⟩ := hall
        rw [List.any_map, List.any_eq_true]
        exact ⟨issue, hissue, by simpa using hnot⟩
      rw [if_neg hall, hany]
      exact ⟨_, rfl, rfl⟩

/-- Such a report waits on its last batch when there are issues and all of their ids are pending. -/
theorem OnlyMissing.waits_iff (h : OnlyMissing platform bytes report header messages)
    (pending : List String) :
    WaitsOnLastBatch report pending ↔ (Agent.inspectTranscriptIntegrity messages).issues ≠ [] ∧
      ∀ issue ∈ (Agent.inspectTranscriptIntegrity messages).issues, issue.toolCallId ∈ pending := by
  constructor
  · rintro ⟨hne, ids, -, hwaits⟩
    rw [h.findings_eq] at hne hwaits
    refine ⟨by simpa using hne, ?_⟩
    intro issue hissue
    obtain ⟨-, id, hid, -, hpending⟩ := hwaits _ (List.mem_map_of_mem hissue)
    obtain rfl : issue.toolCallId = id := Option.some.inj hid
    exact hpending
  · rintro ⟨hne, hall⟩
    obtain ⟨-, ids, hbatch, hmem⟩ := h.atTail hne
    refine ⟨by simpa [h.findings_eq] using hne, ids, hbatch, ?_⟩
    intro finding hfinding
    rw [h.findings_eq] at hfinding
    obtain ⟨issue, hissue, rfl⟩ := List.mem_map.mp hfinding
    exact ⟨by simp [issueFinding, h.missing issue hissue], issue.toolCallId, rfl, hmem issue hissue,
      hall issue hissue⟩

end OnlyMissing

/-- On every report of the inspection and all valid pending ids, the barrier is ready exactly when
the report is ok and nothing is pending. It defers exactly when the report is ok and something is
pending, or when the only findings are missing results of the last batch of calls and all of their
ids are pending. In every other case it fails closed. A byte array is no longer than the largest safe
integer. -/
theorem evaluateCompactionBarrier_status
    (h : inspectSessionIntegrity platform bytes activeLeafId = .ok report)
    (hsize : bytes.length ≤ maxSafeInteger) {ids : Option Json} {pending : List String}
    (hpending : copyIdArray ids "pendingToolCallIds" maxProvenanceIds = .ok pending) :
    ∃ result, evaluateCompactionBarrier report ids = .ok result ∧
      (result.status = .ready ↔ report.ok = true ∧ pending = []) ∧
      (result.status = .defer ↔
        (report.ok = true ∧ pending ≠ []) ∨ WaitsOnLastBatch report pending) ∧
      (result.status = .failClosed ↔ report.ok = false ∧ ¬ WaitsOnLastBatch report pending) := by
  have hok : report.ok = true ↔ report.findings = [] := by
    rw [(digests_eq h).2.2.2, List.isEmpty_iff]
  by_cases hfindings : ∀ finding ∈ report.findings, finding.reason = .transcript .missingResult
  · obtain ⟨header, messages, hmissing⟩ := exists_onlyMissing h hsize hfindings
    obtain ⟨result, hresult, hstatus⟩ := hmissing.evaluate_eq hpending
    refine ⟨result, hresult, ?_⟩
    rw [← Bool.not_eq_true, hok, hmissing.findings_eq, List.map_eq_nil_iff, hmissing.waits_iff, hstatus]
    split_ifs <;> simp_all
  · push Not at hfindings
    obtain ⟨finding, hfinding, hreason⟩ := hfindings
    obtain ⟨result, hresult, hstatus⟩ := failClosed_of_finding hpending hfinding hreason
    have hnot : report.ok = false := by
      rw [← Bool.not_eq_true, hok]
      exact List.ne_nil_of_mem hfinding
    have hwaits : ¬ WaitsOnLastBatch report pending := by
      rintro ⟨-, ids', -, hall⟩
      exact hreason (hall finding hfinding).1
    refine ⟨result, hresult, ?_⟩
    simp [hstatus, hnot, hwaits]

end Inspection

/-- On the interrupted session, without its fragment, the barrier waits for the open call. -/
theorem evaluateCompactionBarrier_status_interrupted :
    ∃ result, evaluateCompactionBarrier (reportOn interruptedText.dropLast)
        (some (.arr [.str "c"])) = .ok result ∧ result.status = .defer ∧
      WaitsOnLastBatch (reportOn interruptedText.dropLast) ["c"] := by
  have hpending : copyIdArray (some (.arr [.str "c"])) "pendingToolCallIds" maxProvenanceIds =
      .ok ["c"] := by
    decide +kernel
  obtain ⟨result, hresult, -, hdefer, -⟩ := evaluateCompactionBarrier_status
    (reportOn_eq interruptedText.dropLast) (by decide +kernel) hpending
  have hvalue : (evaluateCompactionBarrier (reportOn interruptedText.dropLast)
      (some (.arr [.str "c"]))).toOption.map CompactionBarrierResult.status = some .defer := by
    decide +kernel
  have hok : (reportOn interruptedText.dropLast).ok = false := by decide +kernel
  rw [hresult] at hvalue
  have hstatus : result.status = .defer := Option.some.inj hvalue
  refine ⟨result, hresult, hstatus, (hdefer.mp hstatus).resolve_left ?_⟩
  rw [hok]
  simp

end CodingAgent.Compaction
