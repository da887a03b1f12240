import OmkVerified.Agent.Proofs.TranscriptProofs

/-!
# Proofs: transcript repair

When every issue is a missing result, the unanswered calls all belong to the last assistant message
and only results of that message follow it, so that the checks made after the first one pass and
appending one result for each unanswered call closes the transcript.
-/

namespace Agent

open Lib (OrderedMap)

/-! ## The open tail -/

variable {ms pre : List AgentMessage}

/-- A list that leaves calls open ends with the assistant message that made them, followed by
results of that message only. -/
theorem open_tail {known : String → Bool} {open_ open' : List String}
    (h : scan known ms open_ = some open') (hk : ∀ id ∈ resultIds ms, known id = true)
    (hne : open' ≠ []) :
    (∃ results : List ToolResultMessage, ms = results.map AgentMessage.toolResult ∧
        open' = open_.diff (results.map ToolResultMessage.toolCallId) ∧
        ∀ r ∈ results, r.toolCallId ∈ open_) ∨
      ∃ (pre : List AgentMessage) (a : AssistantMessage) (results : List ToolResultMessage),
        ms = pre ++ .assistant a :: results.map AgentMessage.toolResult ∧
        open' = (a.toolCalls.map ToolCall.id).diff (results.map ToolResultMessage.toolCallId) ∧
        ∀ r ∈ results, r.toolCallId ∈ a.toolCalls.map ToolCall.id := by
  induction ms generalizing open_ with
  | nil =>
    simp only [scan, Option.some.injEq] at h
    exact Or.inl ⟨[], rfl, by simp [h], by simp⟩
  | cons m ms ih =>
    cases m with
    | toolResult result =>
      rw [resultIds_toolResult] at hk
      have hk' : ∀ id ∈ resultIds ms, known id = true := fun id hid =>
        hk id (List.mem_cons_of_mem _ hid)
      simp only [scan] at h
      by_cases hin : result.toolCallId ∈ open_
      · rw [if_pos hin] at h
        rcases ih h hk' with ⟨results, rfl, ho, hr⟩ | ⟨pre, a, results, rfl, ho, hr⟩
        · refine Or.inl ⟨result :: results, rfl, by rw [ho, List.map_cons, List.diff_cons], ?_⟩
          intro r hmem
          rcases List.mem_cons.mp hmem with rfl | hmem
          · exact hin
          · exact List.mem_of_mem_erase (hr r hmem)
        · exact Or.inr ⟨.toolResult result :: pre, a, results, rfl, ho, hr⟩
      · rw [if_neg hin, if_pos (hk _ (by simp))] at h
        cases h
    | assistant a =>
      rw [resultIds_cons_of_answers rfl] at hk
      simp only [scan] at h
      by_cases ho : open_ = []
      · rw [if_pos ho] at h
        right
        rcases ih h hk with ⟨results, rfl, ho', hr⟩ | ⟨pre, b, results, rfl, ho', hr⟩
        · exact ⟨[], a, results, rfl, ho', hr⟩
        · exact ⟨.assistant a :: pre, b, results, rfl, ho', hr⟩
      · rw [if_neg ho] at h
        cases h
    | user _ _ | custom _ =>
      rw [resultIds_cons_of_answers rfl] at hk
      simp only [scan] at h
      by_cases ho : open_ = []
      · rw [if_pos ho] at h
        right
        rcases ih h hk with ⟨results, -, ho', -⟩ | ⟨pre, b, results, rfl, ho', hr⟩
        · exact absurd (by rw [ho']; simp [AgentMessage.toolCalls]) hne
        · exact ⟨_ :: pre, b, results, rfl, ho', hr⟩
      · rw [if_neg ho] at h
        cases h

/-- The last assistant message of a list that ends with its results. -/
theorem lastAssistantIndex_tail (pre : List AgentMessage) (a : AssistantMessage)
    (results : List ToolResultMessage) :
    lastAssistantIndex (pre ++ .assistant a :: results.map AgentMessage.toolResult) =
      some pre.length := by
  have hnone : List.findIdx? AgentMessage.isAssistant
      (results.map AgentMessage.toolResult).reverse = none := by
    rw [List.findIdx?_eq_none_iff]
    intro m hm
    obtain ⟨r, -, rfl⟩ := List.mem_map.mp (List.mem_reverse.mp hm)
    rfl
  unfold lastAssistantIndex
  rw [List.reverse_append, List.reverse_cons, List.append_assoc, List.findIdx?_append, hnone]
  simp [List.findIdx?_cons, AgentMessage.isAssistant]

/-- The tail of a transcript whose issues are all missing results, when there is one. -/
structure OpenTail (ms : List AgentMessage) (pre : List AgentMessage) (a : AssistantMessage)
    (results : List ToolResultMessage) : Prop where
  split : ms = pre ++ .assistant a :: results.map AgentMessage.toolResult
  results_own : ∀ r ∈ results, r.toolCallId ∈ a.toolCalls.map ToolCall.id
  /-- Only calls of the last assistant message are unanswered. -/
  missing_own : ∀ id ∈ callIds ms, id ∉ resultIds ms → id ∈ a.toolCalls.map ToolCall.id

/-- The open calls at the end of the pass are the unanswered ones. -/
theorem mem_open_iff {known : String → Bool} {open' : List String} (hnd : (callIds ms).Nodup)
    (hk : ∀ id ∈ resultIds ms, known id = true) (h : scan known ms [] = some open') (id : String) :
    id ∈ open' ↔ id ∈ callIds ms ∧ id ∉ resultIds ms := by
  have hperm := scan_perm h hk
  rw [List.nil_append] at hperm
  have hnd' := hperm.nodup_iff.mp hnd
  constructor
  · intro hid
    exact ⟨hperm.symm.subset (List.mem_append_right _ hid),
      fun hr => (List.nodup_append.mp hnd').2.2 id hr id hid rfl⟩
  · rintro ⟨hc, hr⟩
    rcases List.mem_append.mp (hperm.subset hc) with h | h
    · exact absurd h hr
    · exact h

theorem exists_openTail (h : ∀ i ∈ (inspectTranscriptIntegrity ms).issues, i.kind = .missingResult)
    {id : String} (hid : id ∈ callIds ms) (hr : id ∉ resultIds ms) :
    ∃ pre a results, OpenTail ms pre a results := by
  obtain ⟨h1, h2, h3, h4⟩ := (issues_missing_iff ms).mp h
  have hk := known_of_orphanFree h3
  obtain ⟨open', hopen⟩ := Option.isSome_iff_exists.mp h4
  have hne : open' ≠ [] := List.ne_nil_of_mem ((mem_open_iff h1 hk hopen id).mpr ⟨hid, hr⟩)
  rcases open_tail hopen hk hne with ⟨results, -, ho, -⟩ | ⟨pre, a, results, hms, ho, hown⟩
  · exact absurd (by rw [ho]; simp) hne
  · refine ⟨pre, a, results, hms, hown, fun id' hc hn => ?_⟩
    have hmem := (mem_open_iff h1 hk hopen id').mpr ⟨hc, hn⟩
    rw [ho] at hmem
    exact List.diff_subset _ _ hmem

/-- The calls that a repair answers are the unanswered ones, in call order. -/
theorem OpenTail.unanswered {a : AssistantMessage} {results : List ToolResultMessage}
    (h : OpenTail ms pre a results) (hnd : (callIds ms).Nodup) :
    unansweredCalls ms = a.toolCalls.filter fun call => decide (call.id ∉ resultIds ms) := by
  have hcalls : ms.flatMap AgentMessage.toolCalls =
      pre.flatMap AgentMessage.toolCalls ++ a.toolCalls := by
    rw [h.split, List.flatMap_append, List.flatMap_cons]
    have : (results.map AgentMessage.toolResult).flatMap AgentMessage.toolCalls = [] := by
      simp [AgentMessage.toolCalls]
    rw [this, List.append_nil]
    rfl
  have hpre : (pre.flatMap AgentMessage.toolCalls).filter
      (fun call => decide (call.id ∉ resultIds ms)) = [] := by
    rw [List.filter_eq_nil_iff]
    intro call hcall
    simp only [decide_eq_true_eq, not_not]
    by_contra hn
    have hids : callIds ms = callIds pre ++ a.toolCalls.map ToolCall.id := by
      rw [h.split, callIds_append, callIds_cons, callIds_map_toolResult, List.append_nil]
      rfl
    have hin : call.id ∈ callIds pre := by
      obtain ⟨m, hm, hc⟩ := List.mem_flatMap.mp hcall
      exact List.mem_flatMap.mpr ⟨m, hm, List.mem_map.mpr ⟨call, hc, rfl⟩⟩
    have hown := h.missing_own call.id (by rw [hids]; exact List.mem_append_left _ hin) hn
    rw [hids] at hnd
    exact (List.nodup_append.mp hnd).2.2 _ hin _ hown rfl
  unfold unansweredCalls
  rw [hcalls, List.filter_append, hpre, List.nil_append]

/-! ## The repair -/

theorem syntheticResults_ids (text : String) (now : Nat → Nat) (calls : List ToolCall) :
    (syntheticResults text now calls).map ToolResultMessage.toolCallId = calls.map ToolCall.id := by
  induction calls generalizing now with
  | nil => rfl
  | cons c calls ih =>
    simp only [syntheticResults, List.map_cons, ih]
    rfl

theorem syntheticResults_isError (text : String) (now : Nat → Nat) (calls : List ToolCall) :
    ∀ r ∈ syntheticResults text now calls, r.isError = true := by
  induction calls generalizing now with
  | nil => simp [syntheticResults]
  | cons c calls ih =>
    intro r hr
    rcases List.mem_cons.mp hr with rfl | hr
    · rfl
    · exact ih _ r hr

theorem unansweredCalls_ids (ms : List AgentMessage) :
    (unansweredCalls ms).map ToolCall.id = (callIds ms).filter fun id => decide (id ∉ resultIds ms) := by
  have hids : callIds ms = (ms.flatMap AgentMessage.toolCalls).map ToolCall.id := by
    unfold callIds
    rw [List.map_flatMap]
  unfold unansweredCalls
  rw [hids, List.filter_map]
  rfl

/-- What a repair returns: the transcript with its unanswered calls closed. -/
def repaired (ms : List AgentMessage) (reason : Option String) (now : Nat → Nat) :
    List AgentMessage :=
  ms ++ (syntheticResults (repairText reason) now (unansweredCalls ms)).map .toolResult

/-- The calls of the last assistant message that are missing a result. -/
theorem OpenTail.missing_calls {a : AssistantMessage} {results : List ToolResultMessage}
    (h : OpenTail ms pre a results) (hnd : (callIds ms).Nodup) :
    (a.toolCalls.filter fun call =>
      decide (call.id ∈ (callIds ms).filter fun id => decide (id ∉ resultIds ms))) =
      unansweredCalls ms := by
  rw [h.unanswered hnd]
  refine List.filter_congr fun call hcall => ?_
  have hin : call.id ∈ callIds ms := by
    rw [h.split, callIds_append, callIds_cons]
    exact List.mem_append_right _ (List.mem_append_left _ (List.mem_map.mpr ⟨call, hcall, rfl⟩))
  simp [List.mem_filter, hin]

/-- When only results are missing, the repair succeeds. -/
theorem repair_of_missing (reason : Option String) (now : Nat → Nat)
    (h : ∀ i ∈ (inspectTranscriptIntegrity ms).issues, i.kind = .missingResult) :
    repairTranscriptIntegrity ms reason now = .ok (repaired ms reason now) := by
  have hids := missing_ids h
  have hnd := ((issues_missing_iff ms).mp h).1
  have hfind : (inspectTranscriptIntegrity ms).issues.find?
      (fun issue => decide (issue.kind ≠ .missingResult)) = none := by
    rw [List.find?_eq_none]
    intro i hi
    simpa using h i hi
  unfold repairTranscriptIntegrity
  simp only [hfind, hids]
  by_cases hmiss : (callIds ms).filter (fun id => decide (id ∉ resultIds ms)) = []
  · have hun : unansweredCalls ms = [] := by
      rw [← List.map_eq_nil_iff (f := ToolCall.id), unansweredCalls_ids, hmiss]
    rw [if_pos (by rw [hmiss]; rfl), repaired, hun]
    simp [syntheticResults]
  · obtain ⟨id, hid⟩ := List.exists_mem_of_ne_nil _ hmiss
    obtain ⟨hc, hr⟩ := List.mem_filter.mp hid
    obtain ⟨pre, a, results, ht⟩ := exists_openTail h hc (by simpa using hr)
    have hlast : lastAssistantIndex ms = some pre.length := by
      rw [ht.split]; exact lastAssistantIndex_tail pre a results
    have hget : ms[pre.length]? = some (.assistant a) := by rw [ht.split]; simp
    have hdrop : ms.drop (pre.length + 1) = results.map AgentMessage.toolResult := by
      rw [ht.split, List.drop_length_add_append]; rfl
    have hown : ((callIds ms).filter fun id => decide (id ∉ resultIds ms)).find?
        (fun id => decide (id ∉ a.toolCalls.map ToolCall.id)) = none := by
      rw [List.find?_eq_none]
      intro id hid
      obtain ⟨hc, hr⟩ := List.mem_filter.mp hid
      simpa using ht.missing_own id hc (by simpa using hr)
    have hcalls := ht.missing_calls hnd
    rw [if_neg (by simpa using hmiss)]
    simp only [hlast, hget, hown, hdrop, hcalls]
    rw [if_pos ?_]
    · rfl
    · rw [List.all_eq_true]
      intro m hm
      obtain ⟨r, hr, rfl⟩ := List.mem_map.mp hm
      simpa using ht.results_own r hr

/-- When some issue is not a missing result, the repair throws at its first check. -/
theorem repair_of_detected (reason : Option String) (now : Nat → Nat) {i : TranscriptIntegrityIssue}
    (hi : i ∈ (inspectTranscriptIntegrity ms).issues) (hk : i.kind ≠ .missingResult) :
    ∃ issue ∈ (inspectTranscriptIntegrity ms).issues, issue.kind ≠ .missingResult ∧
      repairTranscriptIntegrity ms reason now =
        .error ⟨.detected issue, inspectTranscriptIntegrity ms⟩ := by
  cases hf : (inspectTranscriptIntegrity ms).issues.find?
      (fun issue => decide (issue.kind ≠ .missingResult)) with
  | none =>
    rw [List.find?_eq_none] at hf
    exact absurd (by simpa using hk) (hf i hi)
  | some issue =>
    refine ⟨issue, List.mem_of_find?_eq_some hf, by simpa using List.find?_some hf, ?_⟩
    unfold repairTranscriptIntegrity
    simp only [hf]

theorem repair_ok_iff (ms : List AgentMessage) (reason : Option String) (now : Nat → Nat) :
    (∃ out, repairTranscriptIntegrity ms reason now = .ok out) ↔
      ∀ i ∈ (inspectTranscriptIntegrity ms).issues, i.kind = .missingResult := by
  constructor
  · rintro ⟨out, hout⟩ i hi
    by_contra hk
    obtain ⟨issue, -, -, herr⟩ := repair_of_detected reason now hi hk
    rw [herr] at hout
    cases hout
  · intro h
    exact ⟨_, repair_of_missing reason now h⟩

/-! ## The repaired transcript -/

/-- Appending tool results leaves the known call ids as they were. -/
theorem has_callIdCount_append (ms : List AgentMessage) (results : List ToolResultMessage) :
    (Accounting.ofMessages (ms ++ results.map .toolResult)).callIdCount.has =
      (Accounting.ofMessages ms).callIdCount.has := by
  funext id
  simp [has_callIdCount]

/-- Results for the unanswered calls close the transcript, whatever they say. -/
theorem closed_ok {results : List ToolResultMessage}
    (h : ∀ i ∈ (inspectTranscriptIntegrity ms).issues, i.kind = .missingResult)
    (hids : results.map ToolResultMessage.toolCallId = (unansweredCalls ms).map ToolCall.id) :
    (inspectTranscriptIntegrity (ms ++ results.map .toolResult)).ok = true := by
  obtain ⟨h1, h2, h3, h4⟩ := (issues_missing_iff ms).mp h
  have hk := known_of_orphanFree h3
  obtain ⟨open', hopen⟩ := Option.isSome_iff_exists.mp h4
  set missing := (callIds ms).filter (fun id => decide (id ∉ resultIds ms)) with hmissing
  rw [unansweredCalls_ids, ← hmissing] at hids
  have hopen_perm : missing.Perm open' := by
    refine (List.perm_ext_iff_of_nodup (h1.filter _) ?_).mpr fun id => ?_
    · have := (scan_perm hopen hk).nodup_iff.mp (by simpa using h1)
      exact (List.nodup_append.mp this).2.1
    · rw [mem_open_iff h1 hk hopen, List.mem_filter]
      simp
  rw [ok_iff, issues_missing_iff, callIds_append, callIds_map_toolResult, List.append_nil,
    resultIds_append, resultIds_map_toolResult, hids]
  refine ⟨⟨h1, h2.append (h1.filter _) ?_, ?_, ?_⟩, ?_⟩
  · intro id hr hm
    simp [hmissing, hr] at hm
  · intro id hid
    rcases List.mem_append.mp hid with hid | hid
    · exact h3 id hid
    · exact (List.mem_filter.mp hid).1
  · rw [has_callIdCount_append, scan_append, hopen, Option.bind_some]
    have := scan_results (Accounting.ofMessages ms).callIdCount.has results [] (hids ▸ hopen_perm)
    rw [List.append_nil] at this
    rw [this]
    rfl
  · intro id hid
    by_cases hr : id ∈ resultIds ms
    · exact List.mem_append_left _ hr
    · exact List.mem_append_right _ (List.mem_filter.mpr ⟨hid, by simpa using hr⟩)

theorem repaired_ok (reason : Option String) (now : Nat → Nat)
    (h : ∀ i ∈ (inspectTranscriptIntegrity ms).issues, i.kind = .missingResult) :
    (inspectTranscriptIntegrity (repaired ms reason now)).ok = true :=
  closed_ok h (syntheticResults_ids _ now _)

/-- A transcript that results at its end can close has only missing results. -/
theorem missing_of_closable {results : List ToolResultMessage}
    (h : (inspectTranscriptIntegrity (ms ++ results.map .toolResult)).ok = true) :
    ∀ i ∈ (inspectTranscriptIntegrity ms).issues, i.kind = .missingResult := by
  obtain ⟨h1, h2, h3, h4⟩ := (issues_missing_iff _).mp ((ok_iff _).mp h).1
  rw [callIds_append, callIds_map_toolResult, List.append_nil] at h1 h3
  rw [resultIds_append] at h2 h3
  rw [has_callIdCount_append, scan_append] at h4
  rw [issues_missing_iff]
  refine ⟨h1, (List.nodup_append.mp h2).1, fun id hid => h3 id (List.mem_append_left _ hid), ?_⟩
  cases hs : scan (Accounting.ofMessages ms).callIdCount.has ms [] with
  | none => simp [hs] at h4
  | some open' => rfl

theorem unansweredCalls_of_ok (h : (inspectTranscriptIntegrity ms).ok = true) :
    unansweredCalls ms = [] := by
  have hall := ((ok_iff ms).mp h).2
  rw [← List.map_eq_nil_iff (f := ToolCall.id), unansweredCalls_ids, List.filter_eq_nil_iff]
  intro id hid
  simpa using hall id hid

theorem repair_of_ok (reason : Option String) (now : Nat → Nat)
    (h : (inspectTranscriptIntegrity ms).ok = true) :
    repairTranscriptIntegrity ms reason now = .ok ms := by
  have hr := repair_of_missing reason now ((ok_iff ms).mp h).1
  rw [hr, repaired, unansweredCalls_of_ok h]
  simp [syntheticResults]

/-- Repair succeeds exactly on the transcripts whose issues are all missing results, which are
exactly those that some tool results appended at the end close. It then appends one synthetic error
result for each unanswered call in call order, the result passes inspection and is its own repair.
It never throws after its first check. -/
theorem repairTranscriptIntegrity_spec (messages : List AgentMessage) (reason : Option String)
    (now : Nat → Nat) :
    ((∃ out, repairTranscriptIntegrity messages reason now = .ok out) ↔
        ∀ i ∈ (inspectTranscriptIntegrity messages).issues, i.kind = .missingResult) ∧
      ((∃ out, repairTranscriptIntegrity messages reason now = .ok out) ↔
        ∃ results : List ToolResultMessage,
          (inspectTranscriptIntegrity (messages ++ results.map .toolResult)).ok = true) ∧
      (∀ out, repairTranscriptIntegrity messages reason now = .ok out →
        out = messages ++
            (syntheticResults (repairText reason) now (unansweredCalls messages)).map .toolResult ∧
          (∀ r ∈ syntheticResults (repairText reason) now (unansweredCalls messages),
            r.isError = true) ∧
          (inspectTranscriptIntegrity out).ok = true ∧
          ∀ reason' now', repairTranscriptIntegrity out reason' now' = .ok out) ∧
      ∀ e, repairTranscriptIntegrity messages reason now = .error e →
        ∃ issue ∈ (inspectTranscriptIntegrity messages).issues, issue.kind ≠ .missingResult ∧
          e = ⟨.detected issue, inspectTranscriptIntegrity messages⟩ := by
  have hiff := repair_ok_iff messages reason now
  refine ⟨hiff, ⟨fun hex => ?_, fun ⟨results, hok⟩ => ?_⟩, fun out hout => ?_, fun e he => ?_⟩
  · exact ⟨_, repaired_ok reason now (hiff.mp hex)⟩
  · exact hiff.mpr (missing_of_closable hok)
  · have hm := hiff.mp ⟨out, hout⟩
    obtain rfl : repaired messages reason now = out := by
      have := (repair_of_missing reason now hm).symm.trans hout
      simpa using this
    have hok := repaired_ok reason now hm
    exact ⟨rfl, syntheticResults_isError _ _ _, hok, fun reason' now' => repair_of_ok reason' now' hok⟩
  · by_cases hm : ∀ i ∈ (inspectTranscriptIntegrity messages).issues, i.kind = .missingResult
    · rw [repair_of_missing reason now hm] at he
      cases he
    · push Not at hm
      obtain ⟨i, hi, hk⟩ := hm
      obtain ⟨issue, hmem, hkind, herr⟩ := repair_of_detected reason now hi hk
      rw [herr] at he
      exact ⟨issue, hmem, hkind, by simpa using he.symm⟩

end Agent
