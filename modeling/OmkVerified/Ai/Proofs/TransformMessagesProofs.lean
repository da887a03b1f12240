import OmkVerified.Ai.TransformMessages

/-!
# Transcripts that can be replayed

What a provider accepts, and a reader that decides it.
-/

namespace Ai

open Lib

/-- Every assistant message is followed by one result for each of its calls, in any order, and there
are no other results. -/
inductive Turns : List Message → Prop
  | nil : Turns []
  | user (message : UserMessage) {rest : List Message} (hrest : Turns rest) :
      Turns (.user message :: rest)
  | assistant (message : AssistantMessage) (results : List ToolResultMessage) {rest : List Message}
      (hresults : (results.map (·.toolCallId)).Perm (message.toolCalls.map (·.id)))
      (hrest : Turns rest) :
      Turns (.assistant message :: (results.map Message.toolResult ++ rest))

/-- The ids that still wait for a result, unless the transcript is broken already. -/
def readMessage (waiting : Option (List String)) (message : Message) : Option (List String) :=
  waiting.bind fun ids =>
    match message with
    | .user _ => if ids = [] then some [] else none
    | .assistant message => if ids = [] then some (message.toolCalls.map (·.id)) else none
    | .toolResult message =>
      if message.toolCallId ∈ ids then some (ids.erase message.toolCallId) else none

def readMessages (waiting : Option (List String)) (messages : List Message) : Option (List String) :=
  messages.foldl readMessage waiting

theorem readMessages_none (messages : List Message) : readMessages none messages = none := by
  induction messages with
  | nil => rfl
  | cons message messages ih => exact ih

theorem readMessages_append (waiting : Option (List String)) (front back : List Message) :
    readMessages waiting (front ++ back) = readMessages (readMessages waiting front) back :=
  List.foldl_append

/-- The rest of a transcript in which the given calls still wait. -/
def Completes (ids : List String) (messages : List Message) : Prop :=
  ∃ (results : List ToolResultMessage) (rest : List Message),
    messages = results.map Message.toolResult ++ rest ∧
    (results.map (·.toolCallId)).Perm ids ∧ Turns rest

theorem completes_nil_iff {messages : List Message} : Completes [] messages ↔ Turns messages := by
  constructor
  · rintro ⟨results, rest, rfl, hperm, hrest⟩
    rw [List.map_eq_nil_iff.mp hperm.eq_nil]
    exact hrest
  · intro h
    exact ⟨[], messages, rfl, .nil, h⟩

theorem completes_toolResult_iff {ids : List String} {message : ToolResultMessage}
    {messages : List Message} : Completes ids (.toolResult message :: messages) ↔
      message.toolCallId ∈ ids ∧ Completes (ids.erase message.toolCallId) messages := by
  constructor
  · rintro ⟨results, rest, heq, hperm, hrest⟩
    cases results with
    | nil =>
      rw [List.map_nil, List.nil_append] at heq
      rw [← heq] at hrest
      cases hrest
    | cons first results =>
      rw [List.map_cons, List.cons_append, List.cons.injEq, Message.toolResult.injEq] at heq
      obtain ⟨rfl, rfl⟩ := heq
      rw [List.map_cons, List.cons_perm_iff_perm_erase] at hperm
      exact ⟨hperm.1, results, rest, rfl, hperm.2, hrest⟩
  · rintro ⟨hmem, results, rest, rfl, hperm, hrest⟩
    refine ⟨message :: results, rest, rfl, ?_, hrest⟩
    rw [List.map_cons, List.cons_perm_iff_perm_erase]
    exact ⟨hmem, hperm⟩

theorem completes_user_iff {ids : List String} {message : UserMessage} {messages : List Message} :
    Completes ids (.user message :: messages) ↔ ids = [] ∧ Turns messages := by
  constructor
  · rintro ⟨results, rest, heq, hperm, hrest⟩
    cases results with
    | nil =>
      rw [List.map_nil, List.nil_append] at heq
      rw [← heq] at hrest
      cases hrest with
      | user _ hrest => exact ⟨hperm.nil_eq.symm, hrest⟩
    | cons first results => cases heq
  · rintro ⟨rfl, h⟩
    exact (completes_nil_iff).mpr (.user message h)

theorem completes_assistant_iff {ids : List String} {message : AssistantMessage}
    {messages : List Message} : Completes ids (.assistant message :: messages) ↔
      ids = [] ∧ Completes (message.toolCalls.map (·.id)) messages := by
  constructor
  · rintro ⟨results, rest, heq, hperm, hrest⟩
    cases results with
    | nil =>
      rw [List.map_nil, List.nil_append] at heq
      rw [← heq] at hrest
      cases hrest with
      | assistant _ results hresults hrest =>
        exact ⟨hperm.nil_eq.symm, results, _, rfl, hresults, hrest⟩
    | cons first results => cases heq
  · rintro ⟨rfl, results, rest, rfl, hperm, hrest⟩
    exact (completes_nil_iff).mpr (.assistant message results hperm hrest)

theorem readMessages_eq_iff {ids : List String} {messages : List Message} :
    readMessages (some ids) messages = some [] ↔ Completes ids messages := by
  induction messages generalizing ids with
  | nil =>
    constructor
    · intro h
      cases h
      exact (completes_nil_iff).mpr .nil
    · rintro ⟨results, rest, heq, hperm, -⟩
      rw [eq_comm, List.append_eq_nil_iff, List.map_eq_nil_iff] at heq
      rw [heq.1] at hperm
      rw [← hperm.nil_eq]
      rfl
  | cons message messages ih =>
    show readMessages (readMessage (some ids) message) messages = some [] ↔ _
    cases message with
    | user message =>
      rw [completes_user_iff]
      by_cases hids : ids = []
      · rw [show readMessage (some ids) (.user message) = some [] from if_pos hids, ih,
          completes_nil_iff]
        exact (and_iff_right hids).symm
      · rw [show readMessage (some ids) (.user message) = none from if_neg hids, readMessages_none]
        exact iff_of_false (by simp) fun h => hids h.1
    | assistant message =>
      rw [completes_assistant_iff]
      by_cases hids : ids = []
      · rw [show readMessage (some ids) (.assistant message) =
          some (message.toolCalls.map (·.id)) from if_pos hids, ih]
        exact (and_iff_right hids).symm
      · rw [show readMessage (some ids) (.assistant message) = none from if_neg hids,
          readMessages_none]
        exact iff_of_false (by simp) fun h => hids h.1
    | toolResult message =>
      rw [completes_toolResult_iff]
      by_cases hmem : message.toolCallId ∈ ids
      · rw [show readMessage (some ids) (.toolResult message) =
          some (ids.erase message.toolCallId) from if_pos hmem, ih]
        exact (and_iff_right hmem).symm
      · rw [show readMessage (some ids) (.toolResult message) = none from if_neg hmem,
          readMessages_none]
        exact iff_of_false (by simp) fun h => hmem h.1

end Ai

/-!
# When a rewritten conversation can be replayed

The rewritten conversation is a transcript that a provider accepts exactly when each result that is
kept comes in time, before the next message of the user or the assistant and only once.
-/

namespace Ai

open Lib

section Ids

variable (model : Model) (normalizeToolCallId : Option Normalizer)

/-- The calls of a message: the id of each and the id under which it is replayed. -/
def pairsOf : Message → List (String × String)
  | .assistant message =>
    message.toolCalls.map fun call => (call.id, replayId model normalizeToolCallId message call)
  | _ => []

def callPairs (messages : List Message) : List (String × String) :=
  messages.flatMap (pairsOf model normalizeToolCallId)

/-- The ids of all calls. -/
def callIds (messages : List Message) : List String :=
  messages.flatMap fun message =>
    match message with
    | .assistant message => message.toolCalls.map (·.id)
    | _ => []

/-- The ids under which all calls are replayed. -/
def replayIds (messages : List Message) : List String :=
  (callPairs model normalizeToolCallId messages).map Prod.snd

/-- Ids are not empty, differ from each other and have no blanks around them. -/
structure ProperIds (ids : List String) : Prop where
  nodup : ids.Nodup
  nonempty : ∀ id ∈ ids, id ≠ ""
  trimmed : ∀ id ∈ ids, trimId id = id

/-- The ids of the calls that are replayed. -/
def liveIds (messages : List Message) : List String :=
  messages.flatMap fun message =>
    match message with
    | .assistant source =>
      if isFailed source then []
      else source.toolCalls.map (replayId model normalizeToolCallId source)
    | _ => []

/-- The id of a result that comes after the messages `before`. -/
def resultId (before : List Message) (toolCallId : String) : String :=
  trimId (((callPairs model normalizeToolCallId before).lookup toolCallId).getD toolCallId)

/-- One more message: the messages so far and the calls that wait for their result. -/
def waitStep (state : List Message × List String) (message : Message) :
    List Message × List String :=
  (state.1 ++ [message],
    match message with
    | .user _ => []
    | .assistant source =>
      if isFailed source then []
      else source.toolCalls.map (replayId model normalizeToolCallId source)
    | .toolResult result =>
      state.2.filter (· ≠ resultId model normalizeToolCallId state.1 result.toolCallId))

/-- The calls of the last replayed message that wait for their result; messages of the user and of the
assistant end the wait. -/
def waitingIds (before : List Message) : List String :=
  (before.foldl (waitStep model normalizeToolCallId) ([], [])).2

/-- A result, after the messages `before`, does not answer a replayed call, or that call waits for
it. -/
def InTime (before : List Message) (result : ToolResultMessage) : Prop :=
  resultId model normalizeToolCallId before result.toolCallId ∈
      liveIds model normalizeToolCallId before →
    resultId model normalizeToolCallId before result.toolCallId ∈
      waitingIds model normalizeToolCallId before

theorem waitFold_fst (before : List Message) (state : List Message × List String) :
    (before.foldl (waitStep model normalizeToolCallId) state).1 = state.1 ++ before := by
  induction before generalizing state with
  | nil => exact (List.append_nil _).symm
  | cons message before ih =>
    rw [List.foldl_cons, ih]
    exact List.append_assoc _ _ _

theorem waitingIds_concat (before : List Message) (message : Message) :
    waitingIds model normalizeToolCallId (before ++ [message]) =
      match message with
      | .user _ => []
      | .assistant source =>
        if isFailed source then []
        else source.toolCalls.map (replayId model normalizeToolCallId source)
      | .toolResult result =>
        (waitingIds model normalizeToolCallId before).filter
          (· ≠ resultId model normalizeToolCallId before result.toolCallId) := by
  have hseen := waitFold_fst model normalizeToolCallId before ([], [])
  unfold waitingIds
  rw [List.foldl_append, List.foldl_cons, List.foldl_nil]
  rw [List.nil_append] at hseen
  cases message with
  | user _ => rfl
  | assistant _ => rfl
  | toolResult result =>
    unfold waitStep at hseen ⊢
    dsimp only at hseen ⊢
    rw [hseen]

theorem liveIds_concat (before : List Message) (message : Message) :
    liveIds model normalizeToolCallId (before ++ [message]) =
      liveIds model normalizeToolCallId before ++ liveIds model normalizeToolCallId [message] :=
  List.flatMap_append

theorem callPairs_append (front back : List Message) :
    callPairs model normalizeToolCallId (front ++ back) =
      callPairs model normalizeToolCallId front ++ callPairs model normalizeToolCallId back :=
  List.flatMap_append

theorem map_fst_callPairs (messages : List Message) :
    (callPairs model normalizeToolCallId messages).map Prod.fst = callIds messages := by
  unfold callPairs callIds
  rw [List.map_flatMap]
  congr 1
  funext message
  cases message with
  | assistant source => simp [pairsOf]
  | user _ => rfl
  | toolResult _ => rfl

theorem liveIds_subset (messages : List Message) :
    liveIds model normalizeToolCallId messages ⊆ replayIds model normalizeToolCallId messages := by
  intro id hid
  obtain ⟨message, hmessage, hid⟩ := List.mem_flatMap.mp hid
  rw [replayIds, callPairs, List.map_flatMap]
  refine List.mem_flatMap.mpr ⟨message, hmessage, ?_⟩
  cases message with
  | user _ => cases hid
  | toolResult _ => cases hid
  | assistant source =>
    dsimp only at hid
    split at hid
    · cases hid
    · simpa [pairsOf] using hid

theorem waitingIds_subset (before : List Message) :
    waitingIds model normalizeToolCallId before ⊆ liveIds model normalizeToolCallId before := by
  induction before using List.reverseRecOn with
  | nil => exact List.nil_subset _
  | append_singleton before message ih =>
    rw [waitingIds_concat, liveIds_concat]
    cases message with
    | user _ => exact List.nil_subset _
    | assistant source =>
      apply List.subset_append_of_subset_right
      simp [liveIds]
    | toolResult result =>
      apply List.subset_append_of_subset_left
      exact List.Subset.trans (List.filter_subset_self _) ih

/-! ## The first pass -/

/-- A pair is entered in the map unless the id stays the same. -/
def registerPair (toolCallIdMap : OrderedMap String String) (pair : String × String) :
    OrderedMap String String :=
  if pair.2 ≠ pair.1 then toolCallIdMap.set pair.1 pair.2 else toolCallIdMap

/-- The map after some messages. -/
def mapAfter (before : List Message) : OrderedMap String String :=
  before.foldl (registerCalls model normalizeToolCallId) .empty

theorem registerCalls_eq (toolCallIdMap : OrderedMap String String) (message : Message) :
    registerCalls model normalizeToolCallId toolCallIdMap message =
      (pairsOf model normalizeToolCallId message).foldl registerPair toolCallIdMap := by
  cases message with
  | user _ => rfl
  | toolResult _ => rfl
  | assistant source =>
    unfold registerCalls pairsOf
    rw [List.foldl_map]
    rfl

theorem mapAfter_eq (before : List Message) :
    mapAfter model normalizeToolCallId before =
      (callPairs model normalizeToolCallId before).foldl registerPair .empty := by
  unfold mapAfter callPairs
  generalize OrderedMap.empty = toolCallIdMap
  induction before generalizing toolCallIdMap with
  | nil => rfl
  | cons message before ih =>
    rw [List.foldl_cons, ih, registerCalls_eq, List.flatMap_cons, List.foldl_append]

theorem mapAfter_concat (before : List Message) (message : Message) :
    mapAfter model normalizeToolCallId (before ++ [message]) =
      registerCalls model normalizeToolCallId (mapAfter model normalizeToolCallId before) message := by
  unfold mapAfter
  rw [List.foldl_append, List.foldl_cons, List.foldl_nil]

/-- With distinct ids the map says of each id under which one it is replayed. -/
theorem mappedId_foldl_registerPair {pairs : List (String × String)}
    (hnodup : (pairs.map Prod.fst).Nodup) (hne : ∀ pair ∈ pairs, pair.2 ≠ "") (id : String) :
    mappedId (pairs.foldl registerPair .empty) id = (pairs.lookup id).getD id := by
  induction pairs using List.reverseRecOn with
  | nil => rfl
  | append_singleton pairs pair ih =>
    obtain ⟨raw, replayed⟩ := pair
    rw [List.map_append, List.nodup_append] at hnodup
    have hraw : pairs.lookup raw = none := by
      rw [OrderedMap.lookup_eq_none_iff_keys]
      intro hmem
      exact hnodup.2.2 raw hmem raw (by simp) rfl
    have hlast := hne (raw, replayed) (by simp)
    have ih := ih hnodup.1 fun pair hpair => hne pair (List.mem_append_left _ hpair)
    rw [List.foldl_append, List.foldl_cons, List.foldl_nil, List.lookup_append,
      OrderedMap.lookup_cons_ite, List.lookup_nil]
    generalize pairs.foldl registerPair .empty = toolCallIdMap at ih ⊢
    by_cases hid : id = raw
    · subst hid
      rw [hraw, Option.getD_none] at ih
      rw [hraw, if_pos rfl, Option.none_or, Option.getD_some]
      unfold registerPair
      dsimp only
      by_cases hsame : replayed = id
      · rw [if_neg (not_not_intro hsame), ih, hsame]
      · rw [if_pos hsame, mappedId, OrderedMap.get?_set, if_pos rfl]
        exact if_pos hlast
    · rw [if_neg hid, Option.or_none, ← ih]
      unfold registerPair
      dsimp only
      split
      · rw [mappedId, OrderedMap.get?_set, if_neg hid]
        rfl
      · rfl

/-- The id of a result in the first pass. -/
theorem trimId_mappedId_mapAfter {before : List Message} (hraw : (callIds before).Nodup)
    (hreplay : ∀ id ∈ replayIds model normalizeToolCallId before, id ≠ "") (toolCallId : String) :
    trimId (mappedId (mapAfter model normalizeToolCallId before) toolCallId) =
      resultId model normalizeToolCallId before toolCallId := by
  rw [mapAfter_eq, mappedId_foldl_registerPair]
  · rfl
  · rw [map_fst_callPairs]
    exact hraw
  · intro pair hpair
    exact hreplay pair.2 (List.mem_map_of_mem hpair)

theorem map_id_toolCalls_rewriteAssistant (source : AssistantMessage) :
    (rewriteAssistant model normalizeToolCallId source).toolCalls.map (·.id) =
      source.toolCalls.map (replayId model normalizeToolCallId source) := by
  unfold rewriteAssistant AssistantMessage.toolCalls
  dsimp only
  induction source.content with
  | nil => rfl
  | cons block content ih =>
    rw [List.flatMap_cons, List.filterMap_append, List.map_append, ih]
    cases block with
    | text block =>
      have hnone : (rewriteBlock model normalizeToolCallId source (.text block)).filterMap
          AssistantBlock.call? = [] := by
        simp only [rewriteBlock]
        split <;> rfl
      rw [hnone]
      rfl
    | thinking block =>
      have hnone : (rewriteThinking (isSameModel model source) block).filterMap
          AssistantBlock.call? = [] := by
        unfold rewriteThinking
        split_ifs <;> rfl
      simp only [rewriteBlock]
      rw [hnone]
      rfl
    | toolCall call => rfl

/-- The first pass over the messages for the model. -/
def passOne (toolCallIdMap : OrderedMap String String) (messages : List Message) : List Message :=
  firstPass model normalizeToolCallId toolCallIdMap (messages.map (downgradeMessage model))

theorem passOne_cons (before : List Message) (message : Message) (messages : List Message) :
    passOne model normalizeToolCallId (mapAfter model normalizeToolCallId before)
        (message :: messages) =
      rewriteMessage model normalizeToolCallId (mapAfter model normalizeToolCallId before)
          (downgradeMessage model message) ::
        passOne model normalizeToolCallId
          (mapAfter model normalizeToolCallId (before ++ [message])) messages := by
  unfold passOne
  rw [mapAfter_concat, List.map_cons, firstPass]
  congr 2
  cases message with
  | assistant source => rfl
  | toolResult result => rfl
  | user message =>
    obtain ⟨content, timestamp⟩ := message
    cases content <;> rfl

/-! ## The second pass -/

variable {model normalizeToolCallId}

theorem replayIds_append (front back : List Message) :
    replayIds model normalizeToolCallId (front ++ back) =
      replayIds model normalizeToolCallId front ++ replayIds model normalizeToolCallId back := by
  unfold replayIds
  rw [callPairs_append, List.map_append]

theorem replayIds_assistant (source : AssistantMessage) :
    replayIds model normalizeToolCallId [.assistant source] =
      source.toolCalls.map (replayId model normalizeToolCallId source) := by
  simp [replayIds, callPairs, pairsOf]

theorem nodup_waitingIds {before : List Message}
    (h : (replayIds model normalizeToolCallId before).Nodup) :
    (waitingIds model normalizeToolCallId before).Nodup := by
  induction before using List.reverseRecOn with
  | nil => exact List.nodup_nil
  | append_singleton before message ih =>
    rw [replayIds_append, List.nodup_append] at h
    rw [waitingIds_concat]
    cases message with
    | user _ => exact List.nodup_nil
    | toolResult result => exact (ih h.1).filter _
    | assistant source =>
      rw [replayIds_assistant] at h
      dsimp only
      split
      · exact List.nodup_nil
      · exact h.2.1

/-- The state of the second pass after the messages `before`. -/
structure Follows (model : Model) (normalizeToolCallId : Option Normalizer) (before : List Message)
    (state : ReplayState) : Prop where
  live : ∀ id, id ∈ state.liveToolCallIds ↔ id ∈ liveIds model normalizeToolCallId before
  waiting : waitingIds model normalizeToolCallId before =
    (state.pendingToolCalls.map (·.id)).filter fun id => !state.existingToolResultIds.contains id

variable {now : Decimal} {before : List Message} {state : ReplayState}

theorem flush_liveToolCallIds :
    (insertSyntheticToolResults now state).liveToolCallIds = state.liveToolCallIds := by
  unfold insertSyntheticToolResults
  split <;> rfl

theorem flush_pendingToolCalls : (insertSyntheticToolResults now state).pendingToolCalls = [] := by
  unfold insertSyntheticToolResults
  split
  · rfl
  · rename_i h
    exact List.length_eq_zero_iff.mp (by omega)

theorem readMessages_syntheticToolResults (calls : List ToolCall) :
    readMessages (some (calls.map (·.id))) (calls.map (syntheticToolResult now)) = some [] := by
  induction calls with
  | nil => rfl
  | cons call calls ih =>
    have hhead : readMessage (some ((call :: calls).map (·.id))) (syntheticToolResult now call) =
        some (calls.map (·.id)) := by
      rw [List.map_cons]
      exact (if_pos List.mem_cons_self).trans (congrArg some (List.erase_cons_head _ _))
    rw [List.map_cons (f := syntheticToolResult now)]
    exact (congrArg (readMessages · _) hhead).trans ih

theorem Follows.read_flush (h : Follows model normalizeToolCallId before state)
    (hread : readMessages (some []) state.result =
      some (waitingIds model normalizeToolCallId before)) :
    readMessages (some []) (insertSyntheticToolResults now state).result = some [] := by
  have hwaiting := h.waiting
  unfold insertSyntheticToolResults
  split
  · rw [readMessages_append, hread, hwaiting]
    have hfilter : (state.pendingToolCalls.map (·.id)).filter
        (fun id => !state.existingToolResultIds.contains id) =
          (state.pendingToolCalls.filter fun call =>
            !state.existingToolResultIds.contains call.id).map (·.id) := by
      rw [List.filter_map]
      rfl
    rw [hfilter]
    exact readMessages_syntheticToolResults _
  · rename_i hnone
    have hnil : state.pendingToolCalls = [] := List.length_eq_zero_iff.mp (by omega)
    rw [hread, hwaiting, hnil]
    rfl

/-- A message of the conversation as it reaches the second pass. -/
def rewritten (model : Model) (normalizeToolCallId : Option Normalizer) (before : List Message)
    (message : Message) : Message :=
  rewriteMessage model normalizeToolCallId (mapAfter model normalizeToolCallId before)
    (downgradeMessage model message)

/-- A result as it is kept: under the id of its call and with the content for the model. -/
def keptResult (model : Model) (id : String) (result : ToolResultMessage) : Message :=
  .toolResult
    { result with toolCallId := id, content := downgradeToolContent model result.content }

theorem replayMessage_toolResult (hraw : (callIds before).Nodup)
    (hreplay : ∀ id ∈ replayIds model normalizeToolCallId before, id ≠ "")
    (result : ToolResultMessage) :
    replayMessage now state (rewritten model normalizeToolCallId before (.toolResult result)) =
      let id := resultId model normalizeToolCallId before result.toolCallId
      if id = "" ∨ id ∉ state.liveToolCallIds then state
      else
        { state with
          existingToolResultIds := state.existingToolResultIds ++ [id]
          result := state.result ++ [keptResult model id result] } := by
  rw [← trimId_mappedId_mapAfter model normalizeToolCallId hraw hreplay]
  rfl

theorem replayMessage_assistant (source : AssistantMessage) :
    replayMessage now state (rewritten model normalizeToolCallId before (.assistant source)) =
      let flushed := insertSyntheticToolResults now state
      if isFailed source then flushed
      else
        { result := flushed.result ++
            [.assistant (rewriteAssistant model normalizeToolCallId source)]
          pendingToolCalls := (rewriteAssistant model normalizeToolCallId source).toolCalls
          existingToolResultIds :=
            if 0 < (rewriteAssistant model normalizeToolCallId source).toolCalls.length then []
            else flushed.existingToolResultIds
          liveToolCallIds := flushed.liveToolCallIds ++
            (source.toolCalls.map (replayId model normalizeToolCallId source)).filter (· ≠ "") } := by
  have hids := map_id_toolCalls_rewriteAssistant model normalizeToolCallId source
  have hflush : (insertSyntheticToolResults now state).pendingToolCalls = [] :=
    flush_pendingToolCalls
  unfold rewritten downgradeMessage rewriteMessage replayMessage
  have hfailed : isFailed (rewriteAssistant model normalizeToolCallId source) = isFailed source := rfl
  dsimp only
  rw [hfailed]
  split
  · rfl
  · split
    · rw [hids]
    · rename_i hnone
      have hnil : (rewriteAssistant model normalizeToolCallId source).toolCalls = [] :=
        List.length_eq_zero_iff.mp (by omega)
      rw [hnil, List.map_nil] at hids
      rw [← hids, hnil, ← hflush, List.filter_nil, List.append_nil]

theorem liveIds_assistant {source : AssistantMessage} (h : isFailed source = false) :
    liveIds model normalizeToolCallId [.assistant source] =
      source.toolCalls.map (replayId model normalizeToolCallId source) := by
  simp [liveIds, h]

theorem Follows.step_toolResult (h : Follows model normalizeToolCallId before state)
    (hraw : (callIds before).Nodup)
    (hreplay : ∀ id ∈ replayIds model normalizeToolCallId before, id ≠ "")
    (result : ToolResultMessage) :
    Follows model normalizeToolCallId (before ++ [.toolResult result])
      (replayMessage now state (rewritten model normalizeToolCallId before (.toolResult result))) := by
  have hlive : ∀ id, id ∈ liveIds model normalizeToolCallId (before ++ [.toolResult result]) ↔
      id ∈ liveIds model normalizeToolCallId before := by
    intro id
    rw [liveIds_concat, List.mem_append]
    exact or_iff_left List.not_mem_nil
  rw [replayMessage_toolResult hraw hreplay]
  dsimp only
  split
  · rename_i hdropped
    refine ⟨fun id => (h.live id).trans (hlive id).symm, ?_⟩
    rw [waitingIds_concat, ← h.waiting]
    apply List.filter_eq_self.mpr
    intro id hid
    rw [decide_eq_true_eq]
    rintro rfl
    have hmem := waitingIds_subset model normalizeToolCallId before hid
    rcases hdropped with hempty | hnot
    · exact hreplay _ (liveIds_subset model normalizeToolCallId before hmem) hempty
    · exact hnot ((h.live _).mpr hmem)
  · refine ⟨fun id => (h.live id).trans (hlive id).symm, ?_⟩
    rw [waitingIds_concat, h.waiting]
    dsimp only
    rw [List.filter_filter]
    apply List.filter_congr
    intro id _
    rw [Bool.eq_iff_iff]
    simp [and_comm]

theorem Follows.step_assistant (h : Follows model normalizeToolCallId before state)
    {source : AssistantMessage}
    (hne : ∀ id ∈ replayIds model normalizeToolCallId [.assistant source], id ≠ "") :
    Follows model normalizeToolCallId (before ++ [.assistant source])
      (replayMessage now state (rewritten model normalizeToolCallId before (.assistant source))) := by
  have hids := map_id_toolCalls_rewriteAssistant model normalizeToolCallId source
  rw [replayMessage_assistant]
  dsimp only
  split
  · rename_i hfailed
    constructor
    · intro id
      rw [flush_liveToolCallIds, h.live, liveIds_concat, List.mem_append]
      simp [liveIds, hfailed]
    · rw [waitingIds_concat, flush_pendingToolCalls]
      exact if_pos hfailed
  · rename_i hfailed
    rw [Bool.not_eq_true] at hfailed
    constructor
    · intro id
      rw [liveIds_concat, liveIds_assistant hfailed, List.mem_append, List.mem_append,
        flush_liveToolCallIds, h.live, List.mem_filter, decide_eq_true_eq]
      refine or_congr_right (and_iff_left_of_imp fun hid => hne id ?_)
      rw [replayIds_assistant]
      exact hid
    · rw [waitingIds_concat]
      dsimp only
      rw [hfailed, hids, if_neg Bool.false_ne_true]
      split
      · exact (List.filter_eq_self.mpr fun id _ => rfl).symm
      · rename_i hnone
        have hnil : source.toolCalls.map (replayId model normalizeToolCallId source) = [] := by
          rw [← hids, List.length_eq_zero_iff.mp (Nat.eq_zero_of_not_pos hnone)]
          rfl
        rw [hnil]
        rfl

theorem Follows.step_user (h : Follows model normalizeToolCallId before state)
    (message : UserMessage) :
    Follows model normalizeToolCallId (before ++ [.user message])
      (replayMessage now state (rewritten model normalizeToolCallId before (.user message))) := by
  obtain ⟨content, timestamp⟩ := message
  have hstep : ∃ message', rewritten model normalizeToolCallId before
      (.user ⟨content, timestamp⟩) = .user message' := by
    cases content
    · exact ⟨_, rfl⟩
    · exact ⟨_, rfl⟩
  obtain ⟨message', hmessage⟩ := hstep
  rw [hmessage]
  constructor
  · intro id
    rw [liveIds_concat, List.mem_append]
    simp only [replayMessage, flush_liveToolCallIds, h.live]
    exact (or_iff_left List.not_mem_nil).symm
  · rw [waitingIds_concat]
    simp only [replayMessage, flush_pendingToolCalls]
    rfl

variable (now) in
theorem Follows.step (h : Follows model normalizeToolCallId before state) {message : Message}
    (hraw : (callIds before).Nodup)
    (hreplay : ∀ id ∈ replayIds model normalizeToolCallId (before ++ [message]), id ≠ "") :
    Follows model normalizeToolCallId (before ++ [message])
      (replayMessage now state (rewritten model normalizeToolCallId before message)) := by
  rw [replayIds_append] at hreplay
  cases message with
  | user message => exact h.step_user message
  | assistant source =>
    exact h.step_assistant fun id hid => hreplay id (List.mem_append_right _ hid)
  | toolResult result =>
    exact h.step_toolResult hraw (fun id hid => hreplay id (List.mem_append_left _ hid)) result

/-! ## Reading the transcript -/

variable (now state)

theorem insertSyntheticToolResults_result :
    ∃ extra, (insertSyntheticToolResults now state).result = state.result ++ extra := by
  unfold insertSyntheticToolResults
  split
  · exact ⟨_, rfl⟩
  · exact ⟨[], (List.append_nil _).symm⟩

theorem replayMessage_result (message : Message) :
    ∃ extra, (replayMessage now state message).result = state.result ++ extra := by
  obtain ⟨extra, hextra⟩ := insertSyntheticToolResults_result now state
  cases message with
  | user message =>
    refine ⟨extra ++ [.user message], ?_⟩
    simp only [replayMessage, hextra, List.append_assoc]
  | assistant source =>
    by_cases hfailed : isFailed source
    · exact ⟨extra, by simp only [replayMessage, hfailed, if_true, hextra]⟩
    · refine ⟨extra ++ [.assistant source], ?_⟩
      simp only [replayMessage, hfailed, Bool.false_eq_true, if_false]
      rw [← List.append_assoc, ← hextra]
      split <;> rfl
  | toolResult result =>
    simp only [replayMessage]
    split
    · exact ⟨[], (List.append_nil _).symm⟩
    · exact ⟨_, rfl⟩

theorem foldl_replayMessage_result (messages : List Message) :
    ∃ extra, (messages.foldl (replayMessage now) state).result = state.result ++ extra := by
  induction messages generalizing state with
  | nil => exact ⟨[], (List.append_nil _).symm⟩
  | cons message messages ih =>
    obtain ⟨first, hfirst⟩ := replayMessage_result now state message
    obtain ⟨extra, hextra⟩ := ih (replayMessage now state message)
    exact ⟨first ++ extra, by rw [List.foldl_cons, hextra, hfirst, List.append_assoc]⟩

variable {state}

/-- A message that is no late result leaves exactly the waiting calls unanswered. -/
theorem Follows.read_step (h : Follows model normalizeToolCallId before state) {message : Message}
    (hraw : (callIds before).Nodup)
    (hreplay : ∀ id ∈ replayIds model normalizeToolCallId (before ++ [message]), id ≠ "")
    (hnodup : (replayIds model normalizeToolCallId before).Nodup)
    (hread : readMessages (some []) state.result =
      some (waitingIds model normalizeToolCallId before))
    (hintime : ∀ result, message = .toolResult result →
      InTime model normalizeToolCallId before result) :
    readMessages (some [])
        (replayMessage now state (rewritten model normalizeToolCallId before message)).result =
      some (waitingIds model normalizeToolCallId (before ++ [message])) := by
  rw [replayIds_append] at hreplay
  rw [waitingIds_concat]
  cases message with
  | user message =>
    obtain ⟨content, timestamp⟩ := message
    cases content with
    | plain _ => exact (readMessages_append _ _ _).trans (by rw [h.read_flush hread]; rfl)
    | blocks _ => exact (readMessages_append _ _ _).trans (by rw [h.read_flush hread]; rfl)
  | assistant source =>
    rw [replayMessage_assistant]
    dsimp only
    split
    · exact h.read_flush hread
    · rw [readMessages_append, h.read_flush hread,
        ← map_id_toolCalls_rewriteAssistant model normalizeToolCallId source]
      rfl
  | toolResult result =>
    have hintime := hintime result rfl
    rw [replayMessage_toolResult hraw fun id hid => hreplay id (List.mem_append_left _ hid)]
    dsimp only
    by_cases hlive : resultId model normalizeToolCallId before result.toolCallId ∈
        liveIds model normalizeToolCallId before
    · have hmem := hintime hlive
      have hne := hreplay _ (List.mem_append_left _ (liveIds_subset _ _ _ hlive))
      rw [if_neg (not_or.mpr ⟨hne, not_not_intro ((h.live _).mpr hlive)⟩), readMessages_append, hread]
      have herase : (waitingIds model normalizeToolCallId before).filter
          (· ≠ resultId model normalizeToolCallId before result.toolCallId) =
            (waitingIds model normalizeToolCallId before).erase
              (resultId model normalizeToolCallId before result.toolCallId) := by
        rw [(nodup_waitingIds hnodup).erase_eq_filter]
        apply List.filter_congr
        intro id _
        rw [Bool.eq_iff_iff, decide_eq_true_eq, bne_iff_ne]
      rw [herase]
      exact if_pos hmem
    · rw [if_pos (Or.inr fun hmem => hlive ((h.live _).mp hmem)), hread]
      congr 1
      refine (List.filter_eq_self.mpr fun id hid => ?_).symm
      rw [decide_eq_true_eq]
      rintro rfl
      exact hlive (waitingIds_subset _ _ _ hid)

/-- A late result is kept and breaks the transcript. -/
theorem Follows.read_late (h : Follows model normalizeToolCallId before state)
    {result : ToolResultMessage} (hraw : (callIds before).Nodup)
    (hreplay : ∀ id ∈ replayIds model normalizeToolCallId before, id ≠ "")
    (hread : readMessages (some []) state.result =
      some (waitingIds model normalizeToolCallId before))
    (hlate : ¬ InTime model normalizeToolCallId before result) :
    readMessages (some []) (replayMessage now state
      (rewritten model normalizeToolCallId before (.toolResult result))).result = none := by
  rw [InTime, Classical.not_imp] at hlate
  have hne := hreplay _ (liveIds_subset _ _ _ hlate.1)
  rw [replayMessage_toolResult hraw hreplay]
  dsimp only
  rw [if_neg (not_or.mpr ⟨hne, not_not_intro ((h.live _).mpr hlate.1)⟩), readMessages_append, hread]
  exact if_neg hlate.2

/-- The rest of the conversation gives a complete transcript exactly when its results are in time. -/
theorem Follows.read_run (rest : List Message)
    (h : Follows model normalizeToolCallId before state)
    (hraw : (callIds (before ++ rest)).Nodup)
    (hreplay : ProperIds (replayIds model normalizeToolCallId (before ++ rest)))
    (hread : readMessages (some []) state.result =
      some (waitingIds model normalizeToolCallId before)) :
    readMessages (some []) (insertSyntheticToolResults now
        ((passOne model normalizeToolCallId (mapAfter model normalizeToolCallId before) rest).foldl
          (replayMessage now) state)).result = some [] ↔
      ∀ mid result after, rest = mid ++ .toolResult result :: after →
        InTime model normalizeToolCallId (before ++ mid) result := by
  induction rest generalizing before state with
  | nil =>
    refine iff_of_true (h.read_flush hread) ?_
    intro mid result after heq
    simp at heq
  | cons message rest ih =>
    have hsplit : before ++ message :: rest = (before ++ [message]) ++ rest := by simp
    have hrawBefore : (callIds before).Nodup := by
      unfold callIds at hraw ⊢
      rw [List.flatMap_append, List.nodup_append] at hraw
      exact hraw.1
    have hfirst : ∀ id ∈ replayIds model normalizeToolCallId (before ++ [message]), id ≠ "" := by
      intro id hid
      apply hreplay.nonempty
      rw [hsplit, replayIds_append]
      exact List.mem_append_left _ hid
    have hbefore : ∀ id ∈ replayIds model normalizeToolCallId before, id ≠ "" := by
      intro id hid
      apply hreplay.nonempty
      rw [replayIds_append]
      exact List.mem_append_left _ hid
    have hnodup : (replayIds model normalizeToolCallId before).Nodup := by
      have hall := hreplay.nodup
      rw [replayIds_append, List.nodup_append] at hall
      exact hall.1
    rw [passOne_cons, List.foldl_cons]
    by_cases hintime : ∀ result, message = .toolResult result →
        InTime model normalizeToolCallId before result
    · have hstep := h.step now hrawBefore hfirst
      have hreadStep := h.read_step now hrawBefore hfirst hnodup hread hintime
      rw [hsplit] at hraw hreplay
      rw [show rewriteMessage model normalizeToolCallId (mapAfter model normalizeToolCallId before)
        (downgradeMessage model message) = rewritten model normalizeToolCallId before message from rfl,
        ih hstep hraw hreplay hreadStep]
      constructor
      · intro hrest mid result after heq
        cases mid with
        | nil =>
          rw [List.nil_append, List.cons.injEq] at heq
          rw [List.append_nil]
          exact hintime result heq.1
        | cons first mid =>
          rw [List.cons_append, List.cons.injEq] at heq
          rw [List.append_cons, ← heq.1]
          exact hrest mid result after heq.2
      · intro hall mid result after heq
        rw [← List.append_cons]
        exact hall (message :: mid) result after (by rw [heq, List.cons_append])
    · obtain ⟨result, rfl, hlate⟩ : ∃ result, message = .toolResult result ∧
          ¬ InTime model normalizeToolCallId before result := by
        simpa only [not_forall, exists_prop] using hintime
      apply iff_of_false
      · obtain ⟨first, hgrow⟩ := foldl_replayMessage_result now
          (replayMessage now state
            (rewritten model normalizeToolCallId before (.toolResult result)))
          (passOne model normalizeToolCallId
            (mapAfter model normalizeToolCallId (before ++ [.toolResult result])) rest)
        obtain ⟨second, hflush⟩ := insertSyntheticToolResults_result now
          ((passOne model normalizeToolCallId
            (mapAfter model normalizeToolCallId (before ++ [.toolResult result])) rest).foldl
              (replayMessage now) (replayMessage now state
                (rewritten model normalizeToolCallId before (.toolResult result))))
        have hnone := h.read_late now hrawBefore hbefore hread hlate
        rw [show rewriteMessage model normalizeToolCallId
          (mapAfter model normalizeToolCallId before) (downgradeMessage model (.toolResult result)) =
            rewritten model normalizeToolCallId before (.toolResult result) from rfl,
          hflush, hgrow, readMessages_append, readMessages_append, hnone, readMessages_none,
          readMessages_none]
        exact nofun
      · intro hall
        have hfirst := hall [] result rest rfl
        rw [List.append_nil] at hfirst
        exact hlate hfirst

end Ids

end Ai
