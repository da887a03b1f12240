import OmkVerified.Agent.Transcript

/-!
# Proofs: the transcript inspector accepts exactly the grammar

The ordering pass is compared with `scan`, the same pass over plain id lists: it returns the calls
that are still open at the end of the list, or `none` when it was interrupted. `scan` composes
along `++`, and the ids it has seen balance: the calls are the answered ones and the open ones.
-/

namespace Agent

open Lib (OrderedMap)

/-! ## The accounting loop -/

theorem foldl_addCall (calls : List ToolCall) (a : Accounting) :
    (calls.foldl Accounting.addCall a).callIdCount =
        (calls.map ToolCall.id).foldl OrderedMap.bump a.callIdCount ∧
      (calls.foldl Accounting.addCall a).resultIdCount = a.resultIdCount := by
  induction calls generalizing a with
  | nil => exact ⟨rfl, rfl⟩
  | cons c calls ih =>
    obtain ⟨h1, h2⟩ := ih (a.addCall c)
    exact ⟨by rw [List.foldl_cons, h1]; rfl, by rw [List.foldl_cons, h2]; rfl⟩

theorem foldl_addMessage (ms : List AgentMessage) (a : Accounting) :
    (ms.foldl Accounting.addMessage a).callIdCount = (callIds ms).foldl OrderedMap.bump a.callIdCount ∧
      (ms.foldl Accounting.addMessage a).resultIdCount =
        (resultIds ms).foldl OrderedMap.bump a.resultIdCount := by
  induction ms generalizing a with
  | nil => exact ⟨rfl, rfl⟩
  | cons m ms ih =>
    obtain ⟨h1, h2⟩ := ih (a.addMessage m)
    rw [List.foldl_cons, h1, h2, callIds_cons, List.foldl_append]
    cases m with
    | assistant message =>
      obtain ⟨h3, h4⟩ := foldl_addCall message.toolCalls a
      rw [resultIds_cons_of_answers rfl]
      exact ⟨congrArg (fun m => (callIds ms).foldl OrderedMap.bump m) h3,
        congrArg (fun m => (resultIds ms).foldl OrderedMap.bump m) h4⟩
    | toolResult message => exact ⟨rfl, by rw [resultIds_toolResult]; rfl⟩
    | user content timestamp => exact ⟨rfl, rfl⟩
    | custom payload => exact ⟨rfl, rfl⟩

theorem callIdCount_ofMessages (ms : List AgentMessage) :
    (Accounting.ofMessages ms).callIdCount = (callIds ms).foldl OrderedMap.bump .empty :=
  (foldl_addMessage ms .empty).1

theorem resultIdCount_ofMessages (ms : List AgentMessage) :
    (Accounting.ofMessages ms).resultIdCount = (resultIds ms).foldl OrderedMap.bump .empty :=
  (foldl_addMessage ms .empty).2

theorem mem_callIdCount (ms : List AgentMessage) (id : String) :
    id ∈ (Accounting.ofMessages ms).callIdCount.keys ↔ id ∈ callIds ms := by
  rw [callIdCount_ofMessages, OrderedMap.mem_keys_foldl_bump]
  simp

theorem mem_resultIdCount (ms : List AgentMessage) (id : String) :
    id ∈ (Accounting.ofMessages ms).resultIdCount.keys ↔ id ∈ resultIds ms := by
  rw [resultIdCount_ofMessages, OrderedMap.mem_keys_foldl_bump]
  simp

theorem has_callIdCount (ms : List AgentMessage) (id : String) :
    (Accounting.ofMessages ms).callIdCount.has id = decide (id ∈ callIds ms) := by
  simp [OrderedMap.has, mem_callIdCount]

theorem has_resultIdCount (ms : List AgentMessage) (id : String) :
    (Accounting.ofMessages ms).resultIdCount.has id = decide (id ∈ resultIds ms) := by
  simp [OrderedMap.has, mem_resultIdCount]

theorem counted_once_iff (ids : List String) :
    (∀ e ∈ (ids.foldl OrderedMap.bump .empty).entries, ¬ 1 < e.2) ↔ ids.Nodup := by
  rw [List.nodup_iff_count_le_one]
  constructor
  · intro h id
    by_contra hc
    have hcount := OrderedMap.getD_foldl_bump ids .empty id
    cases hg : (ids.foldl OrderedMap.bump .empty).get? id with
    | none => rw [hg] at hcount; simp at hcount; omega
    | some n =>
      rw [hg] at hcount
      have hn := h (id, n) (OrderedMap.get?_eq_some_iff.mp hg)
      simp at hcount hn
      omega
  · rintro h ⟨id, n⟩ he
    have hcount := OrderedMap.getD_foldl_bump ids .empty id
    rw [OrderedMap.get?_eq_some_iff.mpr he] at hcount
    have := h id
    simp at hcount ⊢
    omega

/-- The accounting issues are all missing results when no id is duplicated and no result is an
orphan. -/
theorem accounting_missing_iff (ms : List AgentMessage) :
    (∀ i ∈ (Accounting.ofMessages ms).issues, i.kind = .missingResult) ↔
      (callIds ms).Nodup ∧ (resultIds ms).Nodup ∧ ∀ id ∈ resultIds ms, id ∈ callIds ms := by
  have hc := counted_once_iff (callIds ms)
  have hr := counted_once_iff (resultIds ms)
  rw [← callIdCount_ofMessages] at hc
  rw [← resultIdCount_ofMessages] at hr
  rw [← hc, ← hr]
  unfold Accounting.issues
  simp only [List.mem_append, List.mem_map, List.mem_filter, has_callIdCount, has_resultIdCount,
    mem_callIdCount, mem_resultIdCount]
  constructor
  · intro h
    refine ⟨fun e he hlt => ?_, fun e he hlt => ?_, fun id hid => ?_⟩
    · simpa using h _ (Or.inl (Or.inl (Or.inl ⟨e, ⟨he, by simpa using hlt⟩, rfl⟩)))
    · simpa using h _ (Or.inl (Or.inl (Or.inr ⟨e, ⟨he, by simpa using hlt⟩, rfl⟩)))
    · by_contra hne
      simpa using h _ (Or.inl (Or.inr ⟨id, ⟨hid, by simpa using hne⟩, rfl⟩))
  · rintro ⟨h1, h2, h3⟩ i (((⟨e, ⟨he, hlt⟩, -⟩ | ⟨e, ⟨he, hlt⟩, -⟩) | ⟨id, ⟨hid, hne⟩, -⟩) | ⟨id, -, rfl⟩)
    · exact absurd (by simpa using hlt) (h1 e he)
    · exact absurd (by simpa using hlt) (h2 e he)
    · exact absurd (h3 id hid) (by simpa using hne)
    · rfl

variable {ms : List AgentMessage}

/-- The calls reported as missing, once the call ids are distinct. -/
theorem accounting_missing_ids (h : (callIds ms).Nodup)
    (hm : ∀ i ∈ (Accounting.ofMessages ms).issues, i.kind = .missingResult) :
    (Accounting.ofMessages ms).issues.map TranscriptIntegrityIssue.toolCallId =
      (callIds ms).filter fun id => decide (id ∉ resultIds ms) := by
  obtain ⟨-, hr, ho⟩ := (accounting_missing_iff ms).mp hm
  have h1 := (counted_once_iff (callIds ms)).mpr h
  have h2 := (counted_once_iff (resultIds ms)).mpr hr
  rw [← callIdCount_ofMessages] at h1
  rw [← resultIdCount_ofMessages] at h2
  unfold Accounting.issues
  have e1 : ((Accounting.ofMessages ms).callIdCount.entries.filter fun e => decide (1 < e.2)) = [] :=
    List.filter_eq_nil_iff.mpr fun e he => by simpa using h1 e he
  have e2 : ((Accounting.ofMessages ms).resultIdCount.entries.filter
      fun e => decide (1 < e.2)) = [] :=
    List.filter_eq_nil_iff.mpr fun e he => by simpa using h2 e he
  have e3 : ((Accounting.ofMessages ms).resultIdCount.keys.filter
      fun id => !(Accounting.ofMessages ms).callIdCount.has id) = [] :=
    List.filter_eq_nil_iff.mpr fun id hid => by
      simpa [has_callIdCount] using ho id ((mem_resultIdCount ms id).mp hid)
  have e4 : (Accounting.ofMessages ms).callIdCount.keys = callIds ms := by
    rw [callIdCount_ofMessages, OrderedMap.keys_foldl_bump_of_nodup h]
  rw [e1, e2, e3, e4]
  simp [has_resultIdCount, Function.comp_def]

/-! ## The ordering pass -/

/-- The ordering pass over id lists: the calls open at the end, or `none` when a message
interrupted an open region. -/
def scan (known : String → Bool) : List AgentMessage → List String → Option (List String)
  | [], open_ => some open_
  | .toolResult result :: rest, open_ =>
    if result.toolCallId ∈ open_ then scan known rest (open_.erase result.toolCallId)
    else if known result.toolCallId then none
    else scan known rest open_
  | message :: rest, open_ =>
    if open_ = [] then scan known rest (message.toolCalls.map ToolCall.id) else none

theorem scan_append (known : String → Bool) (ms ns : List AgentMessage) (open_ : List String) :
    scan known (ms ++ ns) open_ = (scan known ms open_).bind (scan known ns) := by
  induction ms generalizing open_ with
  | nil => rfl
  | cons m ms ih =>
    cases m <;> simp only [List.cons_append, scan, ih] <;> split <;> try rfl
    split <;> rfl

theorem interrupted_ne_nil {p : Pending} (h : p.keys ≠ []) : interrupted p ≠ [] := by
  intro hp
  simp [interrupted] at hp
  exact h (by simp [OrderedMap.keys, hp])

theorem orderingIssues_kind (known : String → Bool) (ms : List AgentMessage) (p : Pending)
    (region : Bool) : ∀ i ∈ orderingIssues known ms p region, i.kind = .interleavedNonResult := by
  have hint : ∀ q : Pending, ∀ i ∈ interrupted q, i.kind = .interleavedNonResult := by
    intro q i hi
    obtain ⟨e, -, rfl⟩ := List.mem_map.mp hi
    rfl
  induction ms generalizing p region with
  | nil => simp [orderingIssues]
  | cons m ms ih =>
    cases m with
    | assistant message =>
      simp only [orderingIssues]
      split
      · split
        · exact hint p
        · exact ih _ _
      · split
        · exact hint p
        · exact ih _ _
    | toolResult message =>
      simp only [orderingIssues]
      split
      · exact ih _ _
      · split
        · intro i hi
          rw [List.mem_singleton.mp hi]
        · exact ih _ _
    | user _ _ | custom _ =>
      simp only [orderingIssues]
      split
      · exact hint p
      · exact ih _ _

/-- The pass reports nothing exactly when `scan` is not interrupted. The flag `resultsRegion` of the
source is true exactly while calls are pending. -/
theorem orderingIssues_eq_nil_iff (known : String → Bool) (ms : List AgentMessage) (p : Pending)
    (hcalls : (callIds ms).Nodup) :
    orderingIssues known ms p (decide (p.keys ≠ [])) = [] ↔ (scan known ms p.keys).isSome := by
  induction ms generalizing p with
  | nil => simp [orderingIssues, scan]
  | cons m ms ih =>
    have hms : (callIds ms).Nodup := by
      rw [callIds_cons] at hcalls; exact (List.nodup_append.mp hcalls).2.1
    have hsize : p.size > 0 ↔ p.keys ≠ [] := OrderedMap.size_pos_iff
    cases m with
    | assistant message =>
      by_cases hp : p.keys = []
      · have hnot : ¬ p.size > 0 := by simp [hsize, hp]
        have hreg : decide (p.keys ≠ []) = false := by simp [hp]
        by_cases hc : message.toolCalls = []
        · have := ih p hms
          simp only [hp] at this
          simpa [orderingIssues, scan, hc, hp, AgentMessage.toolCalls] using this
        · have hkeys : (message.toolCalls.foldl (fun q c => q.set c.id c.name) p).keys =
              message.toolCalls.map ToolCall.id := by
            have hd : (message.toolCalls.map ToolCall.id).Nodup := by
              rw [callIds_cons] at hcalls; exact (List.nodup_append.mp hcalls).1
            rw [OrderedMap.keys_foldl_set ToolCall.id (fun _ c => c.name) message.toolCalls p
              (by rw [hp]; simpa using hd), hp, List.nil_append]
          have := ih (message.toolCalls.foldl (fun q c => q.set c.id c.name) p) hms
          rw [hkeys] at this
          have hne : decide (message.toolCalls.map ToolCall.id ≠ []) = true := by simp [hc]
          rw [hne] at this
          have hlen : message.toolCalls.length > 0 := List.length_pos_iff.mpr hc
          simpa [orderingIssues, scan, hlen, hnot, hp, AgentMessage.toolCalls] using this
      · have hpos : p.size > 0 := hsize.mpr hp
        have hne := interrupted_ne_nil hp
        simp only [orderingIssues, scan, hpos, hp, if_true, if_false, ne_eq, not_false_eq_true,
          decide_true, Bool.and_self]
        split <;> simp [hne]
    | toolResult message =>
      simp only [orderingIssues, scan]
      by_cases hin : message.toolCallId ∈ p.keys
      · have hp : p.keys ≠ [] := List.ne_nil_of_mem hin
        have := ih (p.delete message.toolCallId) hms
        rw [OrderedMap.keys_delete_eq_erase] at this
        rw [if_pos (by simp [hp, OrderedMap.has, hin]), if_pos hin, ← this]
        have hreg : (if (p.delete message.toolCallId).size = 0 then false
            else decide (p.keys ≠ [])) = decide (p.keys.erase message.toolCallId ≠ []) := by
          rw [← OrderedMap.keys_delete_eq_erase]
          by_cases hd : (p.delete message.toolCallId).keys = []
          · rw [if_pos (OrderedMap.size_eq_zero_iff.mpr hd)]; simp [hd]
          · rw [if_neg (fun h => hd (OrderedMap.size_eq_zero_iff.mp h))]; simp [hd, hp]
        simp only [hreg]
      · rw [if_neg (by simp [OrderedMap.has, hin]), if_neg hin]
        by_cases hk : known message.toolCallId
        · simp [hk]
        · simp only [hk, Bool.false_eq_true, if_false]
          exact ih p hms
    | user _ _ | custom _ =>
      by_cases hp : p.keys = []
      · have := ih p hms
        simp only [hp] at this
        simpa [orderingIssues, scan, hp, AgentMessage.toolCalls] using this
      · have hpos : p.size > 0 := hsize.mpr hp
        simp [orderingIssues, scan, hp, hpos, interrupted_ne_nil hp]

/-- The ids balance: what was open or called is answered or still open. -/
theorem scan_perm {known : String → Bool} {open_ open' : List String}
    (h : scan known ms open_ = some open') (hk : ∀ id ∈ resultIds ms, known id = true) :
    (open_ ++ callIds ms).Perm (resultIds ms ++ open') := by
  induction ms generalizing open_ with
  | nil =>
    simp only [scan, Option.some.injEq] at h
    simp [h]
  | cons m ms ih =>
    cases m with
    | toolResult result =>
      rw [resultIds_toolResult] at hk ⊢
      have hk' : ∀ id ∈ resultIds ms, known id = true := fun id hid =>
        hk id (List.mem_cons_of_mem _ hid)
      simp only [scan] at h
      by_cases hin : result.toolCallId ∈ open_
      · rw [if_pos hin] at h
        have hp := ih h hk'
        rw [callIds_cons, List.cons_append]
        exact ((List.perm_cons_erase hin).append_right _).trans (hp.cons _)
      · rw [if_neg hin, if_pos (hk _ (by simp))] at h
        cases h
    | user _ _ | custom _ | assistant _ =>
      rw [resultIds_cons_of_answers rfl] at hk ⊢
      simp only [scan] at h
      by_cases ho : open_ = []
      · rw [if_pos ho] at h
        rw [ho, List.nil_append, callIds_cons]
        exact ih h hk
      · rw [if_neg ho] at h
        cases h

/-- Reading the results of the open calls closes them. -/
theorem scan_results (known : String → Bool) (results : List ToolResultMessage)
    (rest : List AgentMessage) {open_ : List String}
    (h : (results.map ToolResultMessage.toolCallId).Perm open_) :
    scan known (results.map AgentMessage.toolResult ++ rest) open_ = scan known rest [] := by
  induction results generalizing open_ with
  | nil =>
    have ho : open_ = [] := List.nil_perm.mp (by simpa using h)
    subst ho
    rfl
  | cons r results ih =>
    have hin : r.toolCallId ∈ open_ := h.subset (by simp)
    simp only [List.map_cons, List.cons_append, scan, if_pos hin]
    exact ih (List.cons_perm_iff_perm_erase.mp (by simpa using h)).2

theorem scan_of_turns (known : String → Bool) (h : Turns ms) : scan known ms [] = some [] := by
  induction h with
  | nil => rfl
  | @plain message rest hcalls hanswers _ ih =>
    cases message with
    | toolResult result => cases hanswers
    | user _ _ | custom _ | assistant _ => simpa [scan, hcalls] using ih
  | @turn message results rest hcalls hresults _ ih =>
    simp only [scan, if_true]
    exact (scan_results known results rest hresults).trans ih

theorem turns_perm (h : Turns ms) : (callIds ms).Perm (resultIds ms) := by
  have := scan_perm (scan_of_turns (fun _ => true) h) (fun _ _ => rfl)
  simpa using this

/-- A list that closes the open calls starts with their results and goes on with closed turns. -/
theorem turns_of_scan {known : String → Bool} {open_ : List String}
    (h : scan known ms open_ = some []) (hk : ∀ id ∈ resultIds ms, known id = true) :
    ∃ (results : List ToolResultMessage) (rest : List AgentMessage),
      ms = results.map AgentMessage.toolResult ++ rest ∧
        (results.map ToolResultMessage.toolCallId).Perm open_ ∧ Turns rest := by
  induction ms generalizing open_ with
  | nil =>
    simp only [scan, Option.some.injEq] at h
    exact ⟨[], [], rfl, by simp [h], Turns.nil⟩
  | cons m ms ih =>
    cases m with
    | toolResult result =>
      rw [resultIds_toolResult] at hk
      have hk' : ∀ id ∈ resultIds ms, known id = true := fun id hid =>
        hk id (List.mem_cons_of_mem _ hid)
      simp only [scan] at h
      by_cases hin : result.toolCallId ∈ open_
      · rw [if_pos hin] at h
        obtain ⟨results, rest, rfl, hperm, ht⟩ := ih h hk'
        exact ⟨result :: results, rest, rfl, (hperm.cons _).trans (List.perm_cons_erase hin).symm, ht⟩
      · rw [if_neg hin, if_pos (hk _ (by simp))] at h
        cases h
    | assistant message =>
      rw [resultIds_cons_of_answers rfl] at hk
      simp only [scan] at h
      by_cases ho : open_ = []
      · rw [if_pos ho] at h
        obtain ⟨results, rest, rfl, hperm, ht⟩ := ih h hk
        refine ⟨[], _, rfl, by simp [ho], ?_⟩
        -- Without calls the message stands alone; with calls it opens the turn just read.
        by_cases hc : message.toolCalls = []
        · have hr : results = [] := by simpa [AgentMessage.toolCalls, hc] using hperm
          subst hr
          exact Turns.plain hc rfl ht
        · exact Turns.turn hc hperm ht
      · rw [if_neg ho] at h
        cases h
    | user _ _ | custom _ =>
      rw [resultIds_cons_of_answers rfl] at hk
      simp only [scan] at h
      by_cases ho : open_ = []
      · rw [if_pos ho] at h
        obtain ⟨results, rest, rfl, hperm, ht⟩ := ih h hk
        have hr : results = [] := by simpa [AgentMessage.toolCalls] using hperm
        subst hr
        exact ⟨[], _, rfl, by simp [ho], Turns.plain rfl rfl ht⟩
      · rw [if_neg ho] at h
        cases h

/-! ## The inspector -/

theorem known_of_orphanFree (h : ∀ id ∈ resultIds ms, id ∈ callIds ms) :
    ∀ id ∈ resultIds ms, (Accounting.ofMessages ms).callIdCount.has id = true := by
  intro id hid
  rw [has_callIdCount]
  simpa using h id hid

/-- Every issue is a missing result exactly when ids are distinct, no result is an orphan and the
ordering pass is not interrupted. -/
theorem issues_missing_iff (ms : List AgentMessage) :
    (∀ i ∈ (inspectTranscriptIntegrity ms).issues, i.kind = .missingResult) ↔
      (callIds ms).Nodup ∧ (resultIds ms).Nodup ∧ (∀ id ∈ resultIds ms, id ∈ callIds ms) ∧
        (scan (Accounting.ofMessages ms).callIdCount.has ms []).isSome := by
  have hpass : ∀ i ∈ orderingIssues (Accounting.ofMessages ms).callIdCount.has ms .empty false,
      i.kind = .interleavedNonResult := by
    intro i hi
    exact orderingIssues_kind _ _ _ _ i hi
  have hacc := accounting_missing_iff ms
  simp only [inspectTranscriptIntegrity, List.mem_append]
  constructor
  · intro h
    obtain ⟨h1, h2, h3⟩ := hacc.mp fun i hi => h i (Or.inl hi)
    refine ⟨h1, h2, h3, ?_⟩
    have hnil : orderingIssues (Accounting.ofMessages ms).callIdCount.has ms .empty false = [] := by
      rw [List.eq_nil_iff_forall_not_mem]
      intro i hi
      have := (h i (Or.inr hi)).symm.trans (hpass i hi)
      cases this
    exact (orderingIssues_eq_nil_iff _ ms .empty h1).mp hnil
  · rintro ⟨h1, h2, h3, h4⟩ i (hi | hi)
    · exact hacc.mpr ⟨h1, h2, h3⟩ i hi
    · have hnil := (orderingIssues_eq_nil_iff _ ms .empty h1).mpr h4
      have : i ∈ ([] : List TranscriptIntegrityIssue) := hnil ▸ hi
      cases this

theorem ok_iff_issues_eq_nil (ms : List AgentMessage) :
    (inspectTranscriptIntegrity ms).ok = true ↔ (inspectTranscriptIntegrity ms).issues = [] := by
  simp [inspectTranscriptIntegrity]

/-- The missing results reported when nothing else is wrong. -/
theorem missing_ids (h : ∀ i ∈ (inspectTranscriptIntegrity ms).issues, i.kind = .missingResult) :
    (inspectTranscriptIntegrity ms).issues.map TranscriptIntegrityIssue.toolCallId =
      (callIds ms).filter fun id => decide (id ∉ resultIds ms) := by
  obtain ⟨h1, h2, h3, h4⟩ := (issues_missing_iff ms).mp h
  have hnil := (orderingIssues_eq_nil_iff _ ms .empty h1).mpr h4
  simp only [OrderedMap.keys_empty, ne_eq, not_true_eq_false, decide_false] at hnil
  simp only [inspectTranscriptIntegrity, hnil, List.append_nil]
  exact accounting_missing_ids h1 ((accounting_missing_iff ms).mpr ⟨h1, h2, h3⟩)

/-- The inspector reports nothing exactly when ids are distinct, calls and results are the same ids
and the ordering pass is not interrupted. -/
theorem ok_iff (ms : List AgentMessage) :
    (inspectTranscriptIntegrity ms).ok = true ↔
      (∀ i ∈ (inspectTranscriptIntegrity ms).issues, i.kind = .missingResult) ∧
        ∀ id ∈ callIds ms, id ∈ resultIds ms := by
  rw [ok_iff_issues_eq_nil]
  constructor
  · intro h
    have hm : ∀ i ∈ (inspectTranscriptIntegrity ms).issues, i.kind = .missingResult := by simp [h]
    refine ⟨hm, fun id hid => ?_⟩
    have hids := missing_ids hm
    rw [h, List.map_nil, eq_comm, List.filter_eq_nil_iff] at hids
    simpa using hids id hid
  · rintro ⟨hm, hall⟩
    have hids := missing_ids hm
    rw [← List.map_eq_nil_iff (f := TranscriptIntegrityIssue.toolCallId), hids,
      List.filter_eq_nil_iff]
    intro id hid
    simpa using hall id hid

theorem ok_iff_wellFormed (ms : List AgentMessage) :
    (inspectTranscriptIntegrity ms).ok = true ↔ WellFormed ms := by
  rw [ok_iff, issues_missing_iff]
  constructor
  · rintro ⟨⟨h1, h2, h3, h4⟩, h5⟩
    have hk := known_of_orphanFree h3
    obtain ⟨open', hopen⟩ := Option.isSome_iff_exists.mp h4
    have hperm := scan_perm hopen hk
    rw [List.nil_append] at hperm
    have hnil : open' = [] := by
      rw [List.eq_nil_iff_forall_not_mem]
      intro id hid
      have hnd := hperm.nodup_iff.mp h1
      have hcall : id ∈ callIds ms := hperm.symm.subset (List.mem_append_right _ hid)
      exact (List.nodup_append.mp hnd).2.2 id (h5 id hcall) id hid rfl
    subst hnil
    obtain ⟨results, rest, rfl, hr, ht⟩ := turns_of_scan hopen hk
    have hr' : results = [] := by simpa using hr
    subst hr'
    exact ⟨h1, ht⟩
  · rintro ⟨h1, ht⟩
    have hperm : (callIds ms).Perm (resultIds ms) := turns_perm ht
    refine ⟨⟨h1, hperm.nodup_iff.mp h1, fun id hid => hperm.symm.subset hid, ?_⟩,
      fun id hid => hperm.subset hid⟩
    rw [scan_of_turns _ ht]
    rfl

/-! ## The grammar position by position -/

theorem callsAt_append_left (pre : List AgentMessage) {i : Nat} {calls : List ToolCall} :
    CallsAt (pre ++ ms) (pre.length + i) calls ↔ CallsAt ms i calls := by
  simp [CallsAt, List.getElem?_append_right]

theorem closedTurns_of_turns (h : Turns ms) : ClosedTurns ms := by
  induction h with
  | nil => exact ⟨by simp [CallsAt], by simp⟩
  | @plain m rest hcalls hanswers _ ih =>
    refine ⟨fun i calls hi hne => ?_, fun j result hj => ?_⟩
    · cases i with
      | zero =>
        obtain ⟨message, hm, rfl⟩ := hi
        have : m = .assistant message := by simpa using hm
        subst this
        exact absurd hcalls hne
      | succ i => exact ih.answered i calls (by simpa [CallsAt] using hi) hne
    · cases j with
      | zero =>
        have : m = .toolResult result := by simpa using hj
        subst this
        cases hanswers
      | succ j =>
        obtain ⟨i, calls, hi, hlt, hle⟩ := ih.owned j result (by simpa using hj)
        exact ⟨i + 1, calls, by simpa [CallsAt] using hi, by omega, by omega⟩
  | @turn a results rest hcalls hresults _ ih =>
    have hlen : results.length = a.toolCalls.length := by simpa using hresults.length_eq
    have hpre : ∀ (i : Nat) (x : AgentMessage),
        (AgentMessage.assistant a :: (results.map AgentMessage.toolResult ++ rest))[i]? = some x →
        (i = 0 ∧ x = .assistant a) ∨ (0 < i ∧ i ≤ results.length ∧ ∃ r, x = .toolResult r) ∨
          (results.length < i ∧ rest[i - 1 - results.length]? = some x) := by
      intro i x hx
      rcases i with _ | i
      · exact Or.inl ⟨rfl, by simpa using hx.symm⟩
      · right
        rw [List.getElem?_cons_succ, List.getElem?_append] at hx
        split at hx
        · rename_i hlt
          obtain ⟨r, -, hr⟩ := List.mem_map.mp (List.mem_of_getElem? hx)
          exact Or.inl ⟨by omega, by simpa using hlt, r, hr.symm⟩
        · rename_i hge
          refine Or.inr ⟨by simp at hge; omega, ?_⟩
          simpa using hx
    have hshift : ∀ (i : Nat) (calls : List ToolCall), CallsAt rest i calls →
        CallsAt (AgentMessage.assistant a :: (results.map AgentMessage.toolResult ++ rest))
          (i + 1 + results.length) calls := by
      rintro i calls ⟨message, hm, hc⟩
      refine ⟨message, ?_, hc⟩
      rw [show i + 1 + results.length = (i + results.length) + 1 by omega, List.getElem?_cons_succ,
        List.getElem?_append_right (by simp)]
      simpa using hm
    refine ⟨fun i calls hi hne => ?_, fun j result hj => ?_⟩
    · obtain ⟨message, hm, rfl⟩ := hi
      rcases hpre i _ hm with ⟨rfl, hx⟩ | ⟨-, -, r, hx⟩ | ⟨hlt, hx⟩
      · obtain rfl : message = a := by simpa using hx
        refine ⟨results, hlen, ?_, hresults⟩
        rw [← hlen]
        simp
      · cases hx
      · obtain ⟨results', h1, h2, h3⟩ := ih.answered _ _ ⟨message, hx, rfl⟩ hne
        refine ⟨results', h1, ?_, h3⟩
        rw [← h2, show i + 1 = ((i - 1 - results.length) + 1 + results.length) + 1 by omega,
          List.drop_succ_cons, List.drop_append, List.drop_eq_nil_of_le (by simp)]
        simp
    · rcases hpre j _ hj with ⟨-, hx⟩ | ⟨h0, hle, -⟩ | ⟨hlt, hx⟩
      · cases hx
      · exact ⟨0, a.toolCalls, ⟨a, by simp, rfl⟩, h0, by omega⟩
      · obtain ⟨i, calls, hi, h1, h2⟩ := ih.owned _ result hx
        exact ⟨i + 1 + results.length, calls, hshift i calls hi, by omega, by omega⟩

theorem ClosedTurns.drop {p : List AgentMessage} (h : ClosedTurns (p ++ ms))
    (hown : ∀ i calls, i < p.length → CallsAt (p ++ ms) i calls → i + calls.length < p.length) :
    ClosedTurns ms := by
  refine ⟨fun i calls hi hne => ?_, fun j result hj => ?_⟩
  · obtain ⟨results, h1, h2, h3⟩ := h.answered _ calls ((callsAt_append_left p).mpr hi) hne
    refine ⟨results, h1, ?_, h3⟩
    rw [← h2, show p.length + i + 1 = p.length + (i + 1) by omega, List.drop_length_add_append]
  · obtain ⟨i, calls, hi, hlt, hle⟩ := h.owned (p.length + j) result
      (by simpa [List.getElem?_append_right] using hj)
    by_cases hlow : i < p.length
    · have := hown i calls hlow hi
      omega
    · obtain ⟨i, rfl⟩ := Nat.exists_eq_add_of_le (Nat.le_of_not_lt hlow)
      exact ⟨i, calls, (callsAt_append_left p).mp hi, by omega, by omega⟩

theorem turns_of_closedTurns (ms : List AgentMessage) (h : ClosedTurns ms) : Turns ms := by
  -- The first message is removed alone, or together with the results it owns.
  induction hn : ms.length using Nat.strong_induction_on generalizing ms with
  | _ n ih =>
    subst hn
    cases ms with
    | nil => exact Turns.nil
    | cons m rest =>
      have hplain : m.toolCalls = [] → m.answers = none → Turns (m :: rest) := by
        intro hc ha
        refine Turns.plain hc ha (ih rest.length (by simp) rest ?_ rfl)
        refine ClosedTurns.drop (p := [m]) h ?_
        rintro i calls hi ⟨message, hm, rfl⟩
        obtain rfl : i = 0 := by simpa using hi
        obtain rfl : m = .assistant message := by simpa using hm
        have hc' : message.toolCalls = [] := hc
        simp [hc']
      cases m with
      | toolResult result =>
        obtain ⟨i, -, -, hlt, -⟩ := h.owned 0 result rfl
        omega
      | user _ _ => exact hplain rfl rfl
      | custom _ => exact hplain rfl rfl
      | assistant a =>
        by_cases hc : a.toolCalls = []
        · exact hplain hc rfl
        · obtain ⟨results, hlen, hwin, hperm⟩ := h.answered 0 a.toolCalls ⟨a, rfl, rfl⟩ hc
          have hrest : rest = results.map AgentMessage.toolResult ++ rest.drop a.toolCalls.length := by
            conv_lhs => rw [← List.take_append_drop a.toolCalls.length rest]
            rw [← hwin]
            simp
          rw [hrest] at h ⊢
          refine Turns.turn hc hperm (ih _ ?_ _ ?_ rfl)
          · simp only [List.length_drop, List.length_cons]
            omega
          · refine ClosedTurns.drop
              (p := AgentMessage.assistant a :: results.map AgentMessage.toolResult) h ?_
            rintro i calls hi ⟨message, hm, rfl⟩
            cases i with
            | zero =>
              obtain rfl : a = message := by simpa using hm
              simp [hlen]
            | succ i =>
              simp only [List.length_cons, List.length_map] at hi
              have hi' : i < (results.map AgentMessage.toolResult).length := by simp; omega
              rw [List.cons_append, List.getElem?_cons_succ, List.getElem?_append_left hi'] at hm
              obtain ⟨r, -, hr⟩ := List.mem_map.mp (List.mem_of_getElem? hm)
              cases hr

/-- The inspector accepts exactly the transcript grammar: distinct call ids, every assistant message
with calls followed at once by exactly their results, and no result elsewhere. The tool names of
results are not checked. -/
theorem inspectTranscriptIntegrity_ok_iff (messages : List AgentMessage) :
    (inspectTranscriptIntegrity messages).ok = true ↔
      (callIds messages).Nodup ∧ ClosedTurns messages := by
  rw [ok_iff_wellFormed]
  exact ⟨fun h => ⟨h.distinct, closedTurns_of_turns h.turns⟩,
    fun h => ⟨h.1, turns_of_closedTurns messages h.2⟩⟩

end Agent
