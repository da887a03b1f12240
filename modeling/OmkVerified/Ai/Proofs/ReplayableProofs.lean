import OmkVerified.Ai.Proofs.TransformMessagesProofs

/-!
# What a rewritten conversation contains

No part of a failed turn is left, every result that comes directly after its call is kept, and the
conversation is a complete transcript exactly when no result is late.
-/

namespace Ai

open Lib

variable {model : Model} {normalizeToolCallId : Option Normalizer} {now : Decimal}
  {before messages : List Message} {state : ReplayState}

/-! ## Nothing of a failed turn -/

/-- A message that may stand in the transcript, when the calls with the ids `live` were replayed. -/
def Settled (live : List String) : Message → Prop
  | .user _ => True
  | .assistant message => isFailed message = false
  | .toolResult message => message.toolCallId ∈ live

/-- Pending calls are live and the messages are settled. -/
structure Sound (state : ReplayState) : Prop where
  pending : ∀ call ∈ state.pendingToolCalls, call.id ∈ state.liveToolCallIds
  settled : ∀ message ∈ state.result, Settled state.liveToolCallIds message

theorem Settled.mono {live live' : List String} (h : live ⊆ live') {message : Message}
    (hsettled : Settled live message) : Settled live' message := by
  cases message with
  | user _ => trivial
  | assistant _ => exact hsettled
  | toolResult _ => exact h hsettled

variable (now) in
theorem Sound.flush (h : Sound state) : Sound (insertSyntheticToolResults now state) := by
  unfold insertSyntheticToolResults
  split
  · refine ⟨fun call hcall => absurd hcall List.not_mem_nil, ?_⟩
    intro message hmessage
    rcases List.mem_append.mp hmessage with hmessage | hmessage
    · exact h.settled message hmessage
    · obtain ⟨call, hcall, rfl⟩ := List.mem_map.mp hmessage
      exact h.pending call (List.mem_filter.mp hcall).1
  · exact h

theorem Sound.step (h : Sound state) {message : Message}
    (hne : ∀ source, message = .assistant source → ∀ call ∈ source.toolCalls, call.id ≠ "") :
    Sound (replayMessage now state message) := by
  have hflush := h.flush now
  cases message with
  | user message =>
    refine ⟨hflush.pending, ?_⟩
    intro message' hmessage'
    rcases List.mem_append.mp hmessage' with hmessage' | hmessage'
    · exact hflush.settled message' hmessage'
    · rw [List.mem_singleton.mp hmessage']
      trivial
  | assistant source =>
    have hne := hne source rfl
    unfold replayMessage
    dsimp only
    split
    · exact hflush
    · rename_i hfailed
      rw [Bool.not_eq_true] at hfailed
      split
      · constructor
        · intro call hcall
          apply List.mem_append_right
          rw [List.mem_filter, decide_eq_true_eq]
          exact ⟨List.mem_map_of_mem hcall, hne call hcall⟩
        · intro message hmessage
          rcases List.mem_append.mp hmessage with hmessage | hmessage
          · exact (hflush.settled message hmessage).mono (List.subset_append_left _ _)
          · rw [List.mem_singleton.mp hmessage]
            exact hfailed
      · refine ⟨hflush.pending, ?_⟩
        intro message hmessage
        rcases List.mem_append.mp hmessage with hmessage | hmessage
        · exact hflush.settled message hmessage
        · rw [List.mem_singleton.mp hmessage]
          exact hfailed
  | toolResult result =>
    unfold replayMessage
    dsimp only
    split
    · exact h
    · rename_i hkept
      rw [not_or, not_not] at hkept
      refine ⟨h.pending, ?_⟩
      intro message hmessage
      rcases List.mem_append.mp hmessage with hmessage | hmessage
      · exact h.settled message hmessage
      · rw [List.mem_singleton.mp hmessage]
        exact hkept.2

/-! ## The run over the conversation -/

variable (model normalizeToolCallId now) in
/-- The state of the second pass after some messages. -/
def stateAfter (messages : List Message) : ReplayState :=
  (passOne model normalizeToolCallId .empty messages).foldl (replayMessage now) ⟨[], [], [], []⟩

theorem transformMessages_eq :
    transformMessages now messages model normalizeToolCallId =
      (insertSyntheticToolResults now
        (stateAfter model normalizeToolCallId now messages)).result := rfl

theorem passOne_append (front back : List Message) :
    passOne model normalizeToolCallId (mapAfter model normalizeToolCallId before) (front ++ back) =
      passOne model normalizeToolCallId (mapAfter model normalizeToolCallId before) front ++
        passOne model normalizeToolCallId (mapAfter model normalizeToolCallId (before ++ front))
          back := by
  induction front generalizing before with
  | nil => rw [List.nil_append, List.append_nil]; rfl
  | cons message front ih =>
    rw [List.cons_append, passOne_cons, passOne_cons, ih, ← List.append_cons, List.cons_append]

theorem stateAfter_append (front back : List Message) :
    stateAfter model normalizeToolCallId now (front ++ back) =
      (passOne model normalizeToolCallId (mapAfter model normalizeToolCallId front) back).foldl
        (replayMessage now) (stateAfter model normalizeToolCallId now front) := by
  have h : passOne model normalizeToolCallId (mapAfter model normalizeToolCallId [])
    (front ++ back) = _ := passOne_append front back
  unfold stateAfter
  rw [← List.foldl_append]
  exact congrArg (List.foldl _ _) h

theorem stateAfter_concat (messages : List Message) (message : Message) :
    stateAfter model normalizeToolCallId now (messages ++ [message]) =
      replayMessage now (stateAfter model normalizeToolCallId now messages)
        (rewritten model normalizeToolCallId messages message) := by
  rw [stateAfter_append, passOne_cons]
  rfl

theorem nodup_callIds_of_append {front back : List Message}
    (h : (callIds (front ++ back)).Nodup) : (callIds front).Nodup := by
  unfold callIds at h ⊢
  rw [List.flatMap_append, List.nodup_append] at h
  exact h.1

theorem ProperIds.of_append {front back : List Message}
    (h : ProperIds (replayIds model normalizeToolCallId (front ++ back))) :
    ProperIds (replayIds model normalizeToolCallId front) := by
  rw [replayIds_append] at h
  exact ⟨(List.nodup_append.mp h.nodup).1, fun id hid => h.nonempty id (List.mem_append_left _ hid),
    fun id hid => h.trimmed id (List.mem_append_left _ hid)⟩

variable (now) in
theorem follows_stateAfter (hraw : (callIds messages).Nodup)
    (hreplay : ProperIds (replayIds model normalizeToolCallId messages)) :
    Follows model normalizeToolCallId messages
      (stateAfter model normalizeToolCallId now messages) := by
  induction messages using List.reverseRecOn with
  | nil => exact ⟨fun id => Iff.rfl, rfl⟩
  | append_singleton messages message ih =>
    rw [stateAfter_concat]
    exact (ih (nodup_callIds_of_append hraw) hreplay.of_append).step now
      (nodup_callIds_of_append hraw) hreplay.nonempty

variable (now) in
theorem sound_stateAfter (hreplay : ProperIds (replayIds model normalizeToolCallId messages)) :
    Sound (stateAfter model normalizeToolCallId now messages) := by
  induction messages using List.reverseRecOn with
  | nil => exact ⟨nofun, nofun⟩
  | append_singleton messages message ih =>
    rw [stateAfter_concat]
    apply (ih hreplay.of_append).step
    intro source heq call hcall
    cases message with
    | user message =>
      obtain ⟨content, timestamp⟩ := message
      cases content <;> cases heq
    | toolResult result => cases heq
    | assistant original =>
      rw [rewritten, downgradeMessage, rewriteMessage, Message.assistant.injEq] at heq
      apply hreplay.nonempty
      rw [replayIds_append, replayIds_assistant, ← map_id_toolCalls_rewriteAssistant, heq]
      exact List.mem_append_right _ (List.mem_map_of_mem hcall)

/-- The ids of a failed turn are not those of a replayed one. -/
theorem replayId_notMem_liveIds (hreplay : ProperIds (replayIds model normalizeToolCallId messages))
    {source : AssistantMessage} (hsource : .assistant source ∈ messages)
    (hfailed : isFailed source = true) {call : ToolCall} (hcall : call ∈ source.toolCalls) :
    replayId model normalizeToolCallId source call ∉
      liveIds model normalizeToolCallId messages := by
  intro hlive
  have hnodup := hreplay.nodup
  rw [replayIds, callPairs, List.map_flatMap, List.nodup_flatMap] at hnodup
  obtain ⟨message, hmessage, hid⟩ := List.mem_flatMap.mp hlive
  cases message with
  | user _ => cases hid
  | toolResult _ => cases hid
  | assistant other =>
    dsimp only at hid
    split at hid
    · cases hid
    · rename_i hother
      have hne : Message.assistant source ≠ .assistant other := by
        rintro heq
        cases heq
        exact hother hfailed
      have hpair : Std.Symm (Function.onFun List.Disjoint fun message =>
          (pairsOf model normalizeToolCallId message).map Prod.snd) :=
        ⟨fun _ _ h => h.symm⟩
      have hdisjoint := hnodup.2.forall hsource hmessage hne
      refine hdisjoint (a := replayId model normalizeToolCallId source call) ?_ ?_
      · simp only [pairsOf, List.map_map]
        exact List.mem_map.mpr ⟨call, hcall, rfl⟩
      · simpa [pairsOf] using hid

/-- Every message of the transcript is settled. -/
theorem settled_transformMessages (hraw : (callIds messages).Nodup)
    (hreplay : ProperIds (replayIds model normalizeToolCallId messages)) {message : Message}
    (hmessage : message ∈ transformMessages now messages model normalizeToolCallId) :
    Settled (liveIds model normalizeToolCallId messages) message := by
  rw [transformMessages_eq] at hmessage
  have hsound := (sound_stateAfter now hreplay).flush now
  refine (hsound.settled message hmessage).mono ?_
  intro id hid
  rw [flush_liveToolCallIds] at hid
  exact ((follows_stateAfter now hraw hreplay).live id).mp hid

/-! ## Results directly after their call -/

theorem resultId_of_call (hraw : (callIds messages).Nodup)
    (hreplay : ProperIds (replayIds model normalizeToolCallId messages))
    {source : AssistantMessage} (hsource : .assistant source ∈ messages) {call : ToolCall}
    (hcall : call ∈ source.toolCalls) :
    resultId model normalizeToolCallId messages call.id =
      replayId model normalizeToolCallId source call := by
  have hpair : (call.id, replayId model normalizeToolCallId source call) ∈
      callPairs model normalizeToolCallId messages :=
    List.mem_flatMap.mpr ⟨_, hsource, List.mem_map.mpr ⟨call, hcall, rfl⟩⟩
  rw [← map_fst_callPairs model normalizeToolCallId] at hraw
  rw [resultId, (OrderedMap.lookup_eq_some_iff_mem hraw).mpr hpair]
  exact hreplay.trimmed _ (List.mem_map_of_mem hpair)

/-- A result is put at the end, or left out. -/
theorem replayMessage_toolResult_result (now : Decimal) (state : ReplayState)
    (result : ToolResultMessage) :
    ∃ kept : List ToolResultMessage, (replayMessage now state (.toolResult result)).result =
      state.result ++ kept.map .toolResult := by
  unfold replayMessage
  dsimp only
  split
  · exact ⟨[], (List.append_nil _).symm⟩
  · exact ⟨[{ result with toolCallId := trimId result.toolCallId }], rfl⟩

variable (model normalizeToolCallId now) in
/-- Results after an assistant message are put after it. -/
theorem stateAfter_results {source : AssistantMessage} (hfailed : isFailed source = false)
    (before : List Message) (results : List ToolResultMessage) :
    ∃ (front : List Message) (between : List ToolResultMessage),
      (stateAfter model normalizeToolCallId now
          (before ++ .assistant source :: results.map .toolResult)).result =
        front ++ .assistant (rewriteAssistant model normalizeToolCallId source) ::
          between.map .toolResult := by
  induction results using List.reverseRecOn with
  | nil =>
    refine ⟨(insertSyntheticToolResults now
      (stateAfter model normalizeToolCallId now before)).result, [], ?_⟩
    rw [List.map_nil, stateAfter_concat, replayMessage_assistant]
    dsimp only
    rw [hfailed, if_neg Bool.false_ne_true]
  | append_singleton results result ih =>
    obtain ⟨front, between, hbetween⟩ := ih
    rw [List.map_append, ← List.cons_append, ← List.append_assoc, List.map_singleton,
      stateAfter_concat]
    obtain ⟨kept, hkept⟩ := replayMessage_toolResult_result now
      (stateAfter model normalizeToolCallId now
        (before ++ .assistant source :: results.map .toolResult))
      { result with
        toolCallId := mappedId (mapAfter model normalizeToolCallId
          (before ++ .assistant source :: results.map .toolResult)) result.toolCallId
        content := downgradeToolContent model result.content }
    refine ⟨front, between ++ kept, hkept.trans ?_⟩
    rw [hbetween, List.map_append, List.append_assoc, List.cons_append]

/-- A result directly after its call is kept. -/
theorem kept_transformMessages (hraw : (callIds messages).Nodup)
    (hreplay : ProperIds (replayIds model normalizeToolCallId messages))
    {source : AssistantMessage} (hfailed : isFailed source = false)
    {results : List ToolResultMessage} {result : ToolResultMessage} {after : List Message}
    (hmessages : messages =
      before ++ .assistant source :: (results.map .toolResult ++ .toolResult result :: after))
    {call : ToolCall} (hcall : call ∈ source.toolCalls) (hid : call.id = result.toolCallId) :
    ∃ (front : List Message) (between : List ToolResultMessage) (back : List Message),
      transformMessages now messages model normalizeToolCallId =
        front ++ .assistant (rewriteAssistant model normalizeToolCallId source) ::
          (between.map .toolResult ++
            keptResult model (replayId model normalizeToolCallId source call) result :: back) := by
  have hsplit : messages = (before ++ .assistant source :: results.map .toolResult) ++
      (.toolResult result :: after) := by
    rw [hmessages, List.append_assoc, List.cons_append]
  obtain ⟨front, between, hbetween⟩ := stateAfter_results model
    normalizeToolCallId now hfailed before results
  generalize hseen : before ++ .assistant source :: results.map .toolResult = seen
    at hsplit hbetween
  rw [hsplit] at hraw hreplay
  have hrawSeen := nodup_callIds_of_append hraw
  have hreplaySeen := hreplay.of_append
  have hfollows := follows_stateAfter now hrawSeen hreplaySeen
  have hsource : .assistant source ∈ seen := by
    rw [← hseen]
    exact List.mem_append_right _ List.mem_cons_self
  have hresultId := resultId_of_call hrawSeen hreplaySeen hsource hcall
  rw [hid] at hresultId
  have hlive : replayId model normalizeToolCallId source call ∈
      liveIds model normalizeToolCallId seen := by
    refine List.mem_flatMap.mpr ⟨_, hsource, ?_⟩
    dsimp only
    rw [hfailed, if_neg Bool.false_ne_true]
    exact List.mem_map_of_mem hcall
  have hne := hreplaySeen.nonempty _ (liveIds_subset _ _ _ hlive)
  rw [hsplit, transformMessages_eq, stateAfter_append, passOne_cons, List.foldl_cons]
  obtain ⟨extra, hextra⟩ := foldl_replayMessage_result now
    (replayMessage now (stateAfter model normalizeToolCallId now seen)
      (rewritten model normalizeToolCallId seen (.toolResult result)))
    (passOne model normalizeToolCallId
      (mapAfter model normalizeToolCallId (seen ++ [.toolResult result])) after)
  obtain ⟨extra', hextra'⟩ := insertSyntheticToolResults_result now
    ((passOne model normalizeToolCallId
      (mapAfter model normalizeToolCallId (seen ++ [.toolResult result])) after).foldl
        (replayMessage now) (replayMessage now (stateAfter model normalizeToolCallId now seen)
          (rewritten model normalizeToolCallId seen (.toolResult result))))
  refine ⟨front, between, extra ++ extra', ?_⟩
  refine hextra'.trans ?_
  rw [hextra, replayMessage_toolResult hrawSeen hreplaySeen.nonempty, hresultId]
  dsimp only
  rw [if_neg (not_or.mpr ⟨hne, not_not_intro ((hfollows.live _).mpr hlive)⟩), hbetween]
  simp [List.append_assoc]

/-! ## The transcript -/

/-- What the rewritten conversation is to be: a complete transcript, with nothing of a failed turn and
with every result that comes directly after its call. -/
structure Replayable (model : Model) (normalizeToolCallId : Option Normalizer)
    (messages output : List Message) : Prop where
  turns : Turns output
  no_failed : ∀ source, .assistant source ∈ output → isFailed source = false
  no_result_of_failed : ∀ source, .assistant source ∈ messages → isFailed source = true →
    ∀ call ∈ source.toolCalls, ∀ result, .toolResult result ∈ output →
      result.toolCallId ≠ replayId model normalizeToolCallId source call
  kept : ∀ before source (results : List ToolResultMessage) result after call,
    messages =
        before ++ .assistant source :: (results.map .toolResult ++ .toolResult result :: after) →
      isFailed source = false → call ∈ source.toolCalls → call.id = result.toolCallId →
        ∃ (front : List Message) (between : List ToolResultMessage) (back : List Message),
          output = front ++ .assistant (rewriteAssistant model normalizeToolCallId source) ::
            (between.map .toolResult ++
              keptResult model (replayId model normalizeToolCallId source call) result :: back)

theorem turns_transformMessages_iff (hraw : (callIds messages).Nodup)
    (hreplay : ProperIds (replayIds model normalizeToolCallId messages)) :
    Turns (transformMessages now messages model normalizeToolCallId) ↔
      ∀ before result after, messages = before ++ .toolResult result :: after →
        InTime model normalizeToolCallId before result := by
  have hempty : Follows model normalizeToolCallId [] ⟨[], [], [], []⟩ := ⟨fun _ => Iff.rfl, rfl⟩
  rw [← completes_nil_iff, ← readMessages_eq_iff]
  exact hempty.read_run now messages hraw hreplay rfl

/-- The rewritten conversation can be replayed exactly when every result of a replayed call comes
while the call waits for it. -/
theorem transformMessages_replayable_iff (now : Decimal) (messages : List Message) (model : Model)
    (normalizeToolCallId : Option Normalizer) (hraw : ProperIds (callIds messages))
    (hreplay : ProperIds (replayIds model normalizeToolCallId messages)) :
    Replayable model normalizeToolCallId messages
        (transformMessages now messages model normalizeToolCallId) ↔
      ∀ before result after, messages = before ++ .toolResult result :: after →
        InTime model normalizeToolCallId before result := by
  constructor
  · intro h
    exact (turns_transformMessages_iff hraw.nodup hreplay).mp h.turns
  · intro h
    have hsettled : ∀ message ∈ transformMessages now messages model normalizeToolCallId,
        Settled (liveIds model normalizeToolCallId messages) message :=
      fun message hmessage => settled_transformMessages hraw.nodup hreplay hmessage
    refine ⟨(turns_transformMessages_iff hraw.nodup hreplay).mpr h, ?_, ?_, ?_⟩
    · intro source hsource
      exact hsettled _ hsource
    · intro source hsource hfailed call hcall result hresult heq
      have hmem : result.toolCallId ∈ liveIds model normalizeToolCallId messages :=
        hsettled _ hresult
      rw [heq] at hmem
      exact replayId_notMem_liveIds hreplay hsource hfailed hcall hmem
    · intro before source results result after call hmessages hfailed hcall hid
      exact kept_transformMessages hraw.nodup hreplay hfailed hmessages hcall hid

/-! ## Samples -/

def sampleModel : Model := { id := "m", api := "x", provider := "p", acceptsImages := true }

def sampleUser : Message := .user { content := .plain "go", timestamp := .zero }

def sampleCall : Message :=
  .assistant
    { content := [.toolCall { id := "a", name := "read" }]
      api := "x"
      provider := "p"
      model := "m"
      stopReason := .toolUse
      timestamp := .zero }

def sampleResult : ToolResultMessage :=
  { toolCallId := "a", toolName := "read", content := [], isError := false, timestamp := .zero }

theorem transformMessages_replayable_sample :
    Replayable sampleModel none [sampleUser, sampleCall, .toolResult sampleResult]
      (transformMessages .zero [sampleUser, sampleCall, .toolResult sampleResult] sampleModel
        none) := by
  refine (transformMessages_replayable_iff .zero _ sampleModel none ?_ ?_).mpr ?_
  · exact ⟨by decide, by decide, by decide +kernel⟩
  · exact ⟨by decide, by decide, by decide +kernel⟩
  · intro before result after heq
    rcases before with _ | ⟨first, _ | ⟨second, _ | ⟨third, before⟩⟩⟩
    · simp [sampleUser] at heq
    · simp [sampleCall] at heq
    · simp only [List.cons_append, List.nil_append, List.cons.injEq, Message.toolResult.injEq] at heq
      obtain ⟨rfl, rfl, rfl, -⟩ := heq
      intro _
      decide +kernel
    · simp at heq

/-- The result of a call comes after the next message of the user: a synthetic result and the late one
both stand in the transcript. -/
theorem late_result_not_replayable :
    ProperIds (callIds [sampleUser, sampleCall, sampleUser, .toolResult sampleResult]) ∧
    ProperIds (replayIds sampleModel none
      [sampleUser, sampleCall, sampleUser, .toolResult sampleResult]) ∧
    ¬ Replayable sampleModel none [sampleUser, sampleCall, sampleUser, .toolResult sampleResult]
      (transformMessages .zero [sampleUser, sampleCall, sampleUser, .toolResult sampleResult]
        sampleModel none) := by
  refine ⟨⟨by decide, by decide, by decide +kernel⟩, ⟨by decide, by decide, by decide +kernel⟩, ?_⟩
  intro h
  have hread := readMessages_eq_iff.mpr (completes_nil_iff.mpr h.turns)
  revert hread
  decide +kernel

end Ai
