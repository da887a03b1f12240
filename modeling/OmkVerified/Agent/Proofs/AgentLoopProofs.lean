import OmkVerified.Agent.AgentLoop
import OmkVerified.Agent.Proofs.ParallelToolBatchProofs
import OmkVerified.Agent.Proofs.RepairProofs
import OmkVerified.Agent.Proofs.ToolDagSchedulerProofs

/-!
# Proofs: the agent loop

Every executor ends a batch with one result for each call or stops at an abort, after which
`closeAbortedToolBatch` adds the results that are missing. A turn so appends a closed turn to the
context, and the run keeps a context that passes inspection.
-/

namespace Agent

variable {run : BatchRun} (config : AgentLoopConfig) {calls : List ToolCall} {indices : List Nat}
  {reads : Nat} {α β : Type}

/-! ## The executors without claims -/

/-- The loop leaves calls out at the end only, and only after an abort. -/
theorem endUntilAborted_prefix (hsticky : run.Sticky) (indices : List Nat) (reads : Nat) :
    ∃ left, (endUntilAborted run indices reads).1 ++ left = indices ∧
      (left ≠ [] → run.aborted (endUntilAborted run indices reads).2 = true) := by
  induction indices generalizing reads with
  | nil => exact ⟨[], rfl, fun hleft => absurd rfl hleft⟩
  | cons index indices ih =>
    unfold endUntilAborted
    by_cases habort : run.aborted reads = true
    · rw [if_pos habort]
      exact ⟨indices, rfl, fun _ => hsticky reads habort⟩
    · rw [if_neg habort]
      obtain ⟨left, heq, hleft⟩ := ih (reads + 1)
      exact ⟨left, congrArg (index :: ·) heq, hleft⟩

theorem executeToolCallsInWaves_prefix (hsticky : run.Sticky) (waves : List (List Nat))
    (reads : Nat) :
    ∃ left, (executeToolCallsInWaves run waves reads).1.flatten ++ left = waves.flatten ∧
      (left ≠ [] → run.aborted (executeToolCallsInWaves run waves reads).2 = true) := by
  induction waves generalizing reads with
  | nil => exact ⟨[], rfl, fun hleft => absurd rfl hleft⟩
  | cons wave waves ih =>
    unfold executeToolCallsInWaves executeToolCallsSequential executeToolCallsParallel
    rw [ite_self]
    obtain ⟨left, heq, hleft⟩ := endUntilAborted_prefix hsticky wave reads
    generalize endUntilAborted run wave reads = done at heq hleft
    obtain ⟨ended, reads⟩ := done
    dsimp only at heq hleft ⊢
    by_cases habort : run.aborted reads = true
    · rw [if_pos habort]
      refine ⟨left ++ waves.flatten, ?_, fun _ => hsticky reads habort⟩
      rw [← heq]
      simp
    · rw [if_neg habort]
      have hnil : left = [] := by
        by_contra hne
        exact habort (hleft hne)
      obtain ⟨rest, hrest, haborted⟩ := ih (reads + 1)
      refine ⟨rest, ?_, haborted⟩
      rw [hnil, List.append_nil] at heq
      rw [List.flatten_cons, List.append_assoc, hrest, heq]
      rfl

/-- A result of a call: what its execution gave, or that it did not run. -/
def Answers (run : BatchRun) (entry : ToolCall × Nat) (result : ToolResultMessage) : Prop :=
  result = createToolResultMessage entry.1 (run.outcome entry.2) ∨
    ∃ reason disposition, result = unstartedResult run reason disposition entry.1

/-- The results answer the first calls of a batch, and all of them unless the signal is aborted. -/
def Answered (run : BatchRun) (calls : List ToolCall) (results : List ToolResultMessage)
    (reads : Nat) : Prop :=
  ∃ done left, done ++ left = calls.zipIdx ∧ List.Forall₂ (Answers run) done results ∧
    (left ≠ [] → run.aborted reads = true)

theorem endedBatch_answered {groups : List (List Nat)} {left : List Nat}
    (h : groups.flatten ++ left = List.range calls.length)
    (habort : left ≠ [] → run.aborted reads = true) :
    Answered run calls (endedBatch run calls groups).messages reads := by
  set entryAt : Nat → Option (ToolCall × Nat) := fun index => calls[index]?.map fun call =>
    (call, index) with hentryAt
  have hzip : (List.range calls.length).filterMap entryAt = calls.zipIdx := by
    have hentry : ∀ entry ∈ calls.zipIdx, (entryAt ∘ Prod.snd) entry = some entry := by
      intro entry hentry
      rw [List.mem_zipIdx_iff_getElem?] at hentry
      simp [hentryAt, hentry]
    rw [List.range_eq_range', ← List.zipIdx_map_snd 0 calls, List.filterMap_map,
      List.filterMap_congr hentry, List.filterMap_some]
  refine ⟨groups.flatten.filterMap entryAt, left.filterMap entryAt, ?_, ?_, fun hne => habort ?_⟩
  · rw [← List.filterMap_append, h, hzip]
  · have hmessages : (endedBatch run calls groups).messages =
        (groups.flatten.filterMap entryAt).map fun entry =>
          createToolResultMessage entry.1 (run.outcome entry.2) := by
      rw [List.map_filterMap, hentryAt]
      simp only [Option.map_map]
      rfl
    rw [hmessages, List.forall₂_map_right_iff, List.forall₂_same]
    exact fun entry _ => .inl rfl
  · rintro rfl
    exact hne rfl

theorem forall₂_filterMap {R : α → β → Prop} {f : α → Option β} {xs : List α}
    (h : ∀ x ∈ xs, ∃ y, f x = some y ∧ R x y) : List.Forall₂ R xs (xs.filterMap f) := by
  induction xs with
  | nil => exact .nil
  | cons x xs ih =>
    obtain ⟨y, hy, hR⟩ := h x List.mem_cons_self
    rw [List.filterMap_cons_some hy]
    exact .cons hR (ih fun other hother => h other (List.mem_cons_of_mem x hother))

/-! ## The dag executor -/

theorem length_of_mapM {f : α → Option β} {xs : List α} {ys : List β} (h : xs.mapM f = some ys) :
    ys.length = xs.length := by
  induction xs generalizing ys with
  | nil =>
    cases h
    rfl
  | cons x xs ih =>
    rw [List.mapM_cons] at h
    obtain ⟨y, -, h⟩ := Option.bind_eq_some_iff.mp h
    obtain ⟨zs, hzs, h⟩ := Option.bind_eq_some_iff.mp h
    cases h
    rw [List.length_cons, List.length_cons, ih hzs]

/-- A schedule has every call, unless the signal was aborted before it. -/
theorem scheduleCalls_cases (hsticky : run.Sticky) (claims : Nat → Option ToolClaimResolution)
    (indices : List Nat) (reads : Nat) :
    (∃ reads', scheduleCalls config run claims indices reads = (none, reads') ∧
        run.aborted reads' = true) ∨
      ∃ levels reads', scheduleCalls config run claims indices reads = (some levels, reads') ∧
        ∀ index ∈ indices, ∃ level ∈ levels, index ∈ level := by
  unfold scheduleCalls
  cases hclaims : indices.mapM claims with
  | none =>
    exact .inr ⟨_, _, rfl, fun index hindex =>
      ⟨[index], List.mem_map.mpr ⟨index, hindex, rfl⟩, List.mem_singleton.mpr rfl⟩⟩
  | some resolutions =>
    by_cases habort : run.aborted reads = true
    · exact .inl ⟨reads + 1, if_pos habort, hsticky reads habort⟩
    · refine .inr ⟨_, _, if_neg habort, fun index hindex => ?_⟩
      obtain ⟨k, hk⟩ := List.mem_iff_getElem?.mp hindex
      have hlt : k < resolutions.length := by
        rw [length_of_mapM hclaims]
        exact (List.getElem?_eq_some_iff.mp hk).1
      obtain ⟨level, hlevel, hmem⟩ := exists_chunk config.maxToolConcurrency hlt
      exact ⟨_, List.mem_map.mpr ⟨level, hlevel, rfl⟩, List.mem_filterMap.mpr ⟨k, hmem, hk⟩⟩

/-- Authorization ends a call or keeps it to run, unless the signal was aborted. -/
theorem authorizeLevel_cases (hsticky : run.Sticky) (level ended runnable : List Nat)
    (reads : Nat) :
    (∃ ended' reads', authorizeLevel run level ended runnable reads = (ended', none, reads') ∧
        run.aborted reads' = true) ∨
      ∃ ended' runnable' reads',
        authorizeLevel run level ended runnable reads = (ended', some runnable', reads') ∧
        ∀ index ∈ level ++ ended ++ runnable, index ∈ ended' ++ runnable' := by
  induction level generalizing ended runnable reads with
  | nil => exact .inr ⟨ended, runnable, reads, rfl, fun index hindex => hindex⟩
  | cons index level ih =>
    unfold authorizeLevel
    by_cases habort : run.aborted reads = true
    · exact .inl ⟨_, _, if_pos habort, hsticky reads habort⟩
    · dsimp only
      rw [if_neg habort]
      rcases ih (if run.immediate index then ended ++ [index] else ended)
        (if run.immediate index then runnable else runnable ++ [index]) (reads + 1) with h | h
      · exact .inl h
      · obtain ⟨ended', runnable', reads', heq, hmem⟩ := h
        refine .inr ⟨ended', runnable', reads', heq, fun other hother => hmem other ?_⟩
        split_ifs <;> grind

/-- The loop over the authorized levels ends all their calls, unless it stops. -/
theorem runExecutionLevels_ended (hsticky : run.Sticky) (levels : List (List Nat))
    (ended : List Nat) (reads : Nat)
    (hstopped : (runExecutionLevels run levels ended reads).stoppedByUnsettledTimeout = false)
    (habort : run.aborted (runExecutionLevels run levels ended reads).reads ≠ true) :
    ∀ index ∈ ended ++ levels.flatten,
      index ∈ (runExecutionLevels run levels ended reads).ended := by
  induction levels generalizing ended reads with
  | nil => simp [runExecutionLevels]
  | cons level levels ih =>
    unfold runExecutionLevels at hstopped habort ⊢
    split_ifs at hstopped habort ⊢ with hfirst hsecond htimeout
    · exact absurd (hsticky reads hfirst) habort
    · exact absurd (hsticky (reads + 1) hsecond) habort
    · intro index hindex
      refine ih (ended ++ level) (reads + 2) hstopped habort index ?_
      simpa using hindex

theorem runDagLevelCalls_ended (hsticky : run.Sticky) (level : List Nat) (reads : Nat)
    (hstopped : (runDagLevelCalls config run level reads).stoppedByUnsettledTimeout = false)
    (habort : run.aborted (runDagLevelCalls config run level reads).reads ≠ true) :
    ∀ index ∈ level, index ∈ (runDagLevelCalls config run level reads).ended := by
  unfold runDagLevelCalls at hstopped habort ⊢
  rcases authorizeLevel_cases hsticky level [] [] reads with h | h
  · obtain ⟨ended, reads', heq, haborted⟩ := h
    rw [heq] at habort
    exact absurd haborted habort
  · obtain ⟨ended, runnable, reads', heq, hmem⟩ := h
    rw [heq] at hstopped habort ⊢
    dsimp only at hstopped habort ⊢
    rcases scheduleCalls_cases config hsticky run.finalClaims runnable reads' with h | h
    · obtain ⟨reads', heq, haborted⟩ := h
      rw [heq] at habort
      exact absurd haborted habort
    · obtain ⟨levels, reads', heq, hlevels⟩ := h
      rw [heq] at hstopped habort ⊢
      intro index hindex
      refine runExecutionLevels_ended hsticky levels ended reads' hstopped habort index ?_
      rcases List.mem_append.mp (hmem index (by simpa using hindex)) with hin | hin
      · exact List.mem_append_left _ hin
      · obtain ⟨level, hlevel, hin⟩ := hlevels index hin
        exact List.mem_append_right _ (List.mem_flatten.mpr ⟨level, hlevel, hin⟩)

/-- The level loop ends every call, skips the rest for a reason or stops at an abort. -/
theorem runDagLevels_cases (hsticky : run.Sticky) (levels : List (List Nat)) (ended : List Nat)
    (reads : Nat) :
    run.aborted (runDagLevels config run levels ended reads).2.2 = true ∨
      (runDagLevels config run levels ended reads).2.1 ≠ none ∨
      ∀ index ∈ ended ++ levels.flatten,
        index ∈ (runDagLevels config run levels ended reads).1 := by
  induction levels generalizing ended reads with
  | nil => exact .inr (.inr (by simp [runDagLevels]))
  | cons level levels ih =>
    unfold runDagLevels
    dsimp only
    split_ifs with hfirst hsecond htimeout hterminate
    · exact .inl (hsticky reads hfirst)
    · exact .inl (hsticky _ hsecond)
    · exact .inr (.inl (Option.some_ne_none _))
    · exact .inr (.inl (Option.some_ne_none _))
    · have hended :=
        runDagLevelCalls_ended config hsticky level (reads + 1) (by simpa using htimeout) hsecond
      rcases ih (ended ++ (runDagLevelCalls config run level (reads + 1)).ended)
        ((runDagLevelCalls config run level (reads + 1)).reads + 1) with h | h | h
      · exact .inl h
      · exact .inr (.inl h)
      · refine .inr (.inr fun index hindex => h index ?_)
        rw [List.flatten_cons] at hindex
        grind

/-- The dag executor gives one result for each call, in source order. -/
theorem executeToolCallsDagLevels_answers (hsticky : run.Sticky) :
    List.Forall₂ (Answers run) calls.zipIdx
      (executeToolCallsDagLevels config run calls).1.messages := by
  unfold executeToolCallsDagLevels
  dsimp only
  generalize hscheduled : scheduleCalls config run run.plannedClaims (List.range calls.length) 0 =
    scheduled
  obtain ⟨levels, reads⟩ := scheduled
  have hcover : run.aborted (runDagLevels config run (levels.getD []) [] reads).2.2 = true ∨
      (runDagLevels config run (levels.getD []) [] reads).2.1 ≠ none ∨
      ∀ index < calls.length, index ∈ (runDagLevels config run (levels.getD []) [] reads).1 := by
    rcases scheduleCalls_cases config hsticky run.plannedClaims
      (List.range calls.length) 0 with h | h
    · obtain ⟨reads', heq, haborted⟩ := h
      rw [hscheduled, Prod.mk.injEq] at heq
      rw [heq.1, heq.2]
      exact .inl haborted
    · obtain ⟨levels', reads', heq, hlevels⟩ := h
      rw [hscheduled, Prod.mk.injEq] at heq
      rw [heq.1, heq.2, Option.getD_some]
      rcases runDagLevels_cases config hsticky levels' [] reads' with h | h | h
      · exact .inl h
      · exact .inr (.inl h)
      · refine .inr (.inr fun index hlt => h index ?_)
        obtain ⟨level, hlevel, hin⟩ := hlevels index (List.mem_range.mpr hlt)
        exact List.mem_flatten.mpr ⟨level, hlevel, hin⟩
  generalize runDagLevels config run (levels.getD []) [] reads = done at hcover
  obtain ⟨ended, skipped, reads'⟩ := done
  refine forall₂_filterMap fun entry hentry => ?_
  have hlt : entry.2 < calls.length := List.snd_lt_of_mem_zipIdx hentry
  dsimp only at hcover ⊢
  by_cases hended : entry.2 ∈ ended
  · rw [if_pos hended]
    exact ⟨_, rfl, .inl rfl⟩
  · rw [if_neg hended]
    by_cases habort : run.aborted reads' = true
    · rw [if_pos habort]
      exact ⟨_, rfl, .inr ⟨_, _, rfl⟩⟩
    · rw [if_neg habort]
      rcases hcover with h | h | h
      · exact absurd h habort
      · obtain ⟨skip, hskip⟩ := Option.ne_none_iff_exists'.mp h
        rw [hskip]
        exact ⟨_, rfl, .inr ⟨_, _, rfl⟩⟩
      · exact absurd (h entry.2 hlt) hended

/-! ## Batches -/

theorem executeToolCalls_answered (calls : List ToolCall) (hsticky : run.Sticky) :
    Answered run calls (executeToolCalls config run calls).1.messages
      (executeToolCalls config run calls).2 := by
  have hsource := endUntilAborted_prefix hsticky (List.range calls.length) 0
  unfold executeToolCalls executeToolCallsSequential executeToolCallsParallel
  dsimp only
  split_ifs with hdag hsequential hparallel
  · exact ⟨_, [], List.append_nil _, executeToolCallsDagLevels_answers config hsticky,
      fun hleft => absurd rfl hleft⟩
  · obtain ⟨left, heq, hleft⟩ := hsource
    exact endedBatch_answered (by simpa using heq) hleft
  · obtain ⟨left, heq, hleft⟩ := hsource
    exact endedBatch_answered (by simpa using heq) hleft
  · obtain ⟨left, heq, hleft⟩ := executeToolCallsInWaves_prefix hsticky
      (partitionToolBatchWaves config.toLowerCase config.options
        (calls.map fun call => ⟨call.name, call.arguments⟩)) 0
    rw [(partitionToolBatchWaves_wellFormed _).1, List.length_map] at heq
    exact endedBatch_answered heq hleft

/-- The calls that an abort closes are those without a result. -/
theorem closeAbortedToolBatch_eq (resolvedIds : List String)
    (hnodup : (calls.map ToolCall.id).Nodup) :
    closeAbortedToolBatch run calls resolvedIds =
      (calls.filter fun call => decide (call.id ∉ resolvedIds)).map
        (unstartedResult run "Operation aborted" .aborted) := by
  induction calls generalizing resolvedIds with
  | nil => rfl
  | cons call calls ih =>
    rw [List.map_cons, List.nodup_cons] at hnodup
    unfold closeAbortedToolBatch
    by_cases hin : call.id ∈ resolvedIds
    · rw [if_pos hin, ih _ hnodup.2, List.filter_cons_of_neg (by simpa using hin)]
    · rw [if_neg hin, ih _ hnodup.2, List.filter_cons_of_pos (by simpa using hin), List.map_cons]
      refine congrArg (_ :: List.map _ ·) (List.filter_congr fun other hother => ?_)
      have hne : other.id ≠ call.id := fun heq => hnodup.1 (List.mem_map.mpr ⟨other, hother, heq⟩)
      simp [hne]

theorem answers_ids {entries : List (ToolCall × Nat)} {results : List ToolResultMessage}
    (h : List.Forall₂ (Answers run) entries results) :
    results.map (·.toolCallId) = (entries.map Prod.fst).map ToolCall.id := by
  induction h with
  | nil => rfl
  | cons hanswers _ ih =>
    rw [List.map_cons, List.map_cons, List.map_cons, ih]
    rcases hanswers with rfl | ⟨reason, disposition, rfl⟩
    · rfl
    · rfl

/-- The calls without a result are those that the execution left. -/
theorem filter_unresolved {done left : List ToolCall}
    (hnodup : ((done ++ left).map ToolCall.id).Nodup) :
    ((done ++ left).filter fun call => decide (call.id ∉ done.map ToolCall.id)) = left := by
  rw [List.map_append, List.nodup_append] at hnodup
  have hdone : ∀ call ∈ done, ¬ decide (call.id ∉ done.map ToolCall.id) = true := by
    intro call hcall
    simpa using ⟨call, hcall, rfl⟩
  have hleft : ∀ call ∈ left, decide (call.id ∉ done.map ToolCall.id) = true := by
    intro call hcall
    rw [decide_eq_true_eq]
    intro hin
    exact hnodup.2.2 call.id hin call.id (List.mem_map_of_mem hcall) rfl
  rw [List.filter_append, List.filter_eq_nil_iff.mpr hdone, List.filter_eq_self.mpr hleft]
  rfl

/-- Whatever runs a batch and whenever it is aborted, its results answer its calls in order. -/
theorem runBatch_answers (hsticky : run.Sticky) (hnodup : (calls.map ToolCall.id).Nodup) :
    List.Forall₂ (Answers run) calls.zipIdx (runBatch config run calls).messages := by
  obtain ⟨done, left, hsplit, hdone, hleft⟩ :=
    executeToolCalls_answered config calls hsticky
  unfold runBatch
  dsimp only
  by_cases habort : run.aborted (executeToolCalls config run calls).2 = true
  · rw [if_pos habort, closeAbortedToolBatch_eq _ hnodup, answers_ids hdone]
    have hcalls : calls = done.map Prod.fst ++ left.map Prod.fst := by
      rw [← List.map_append, hsplit, List.zipIdx_map_fst]
    have hrest : (calls.filter fun call =>
        decide (call.id ∉ (done.map Prod.fst).map ToolCall.id)) = left.map Prod.fst := by
      rw [hcalls] at hnodup ⊢
      exact filter_unresolved hnodup
    rw [hrest, ← hsplit]
    refine List.rel_append hdone ?_
    rw [List.map_map, List.forall₂_map_right_iff, List.forall₂_same]
    exact fun entry _ => .inr ⟨_, _, rfl⟩
  · rw [if_neg habort, ← hsplit]
    have hnil : left = [] := by
      by_contra hne
      exact habort (hleft hne)
    rwa [hnil, List.append_nil]

theorem runBatch_spec (config : AgentLoopConfig) (run : BatchRun) (calls : List ToolCall)
    (hsticky : run.Sticky) (hnodup : (calls.map ToolCall.id).Nodup) :
    (runBatch config run calls).messages.length = calls.length ∧
      ∀ (index : Nat) (call : ToolCall) (result : ToolResultMessage),
        calls[index]? = some call → (runBatch config run calls).messages[index]? = some result →
          result = createToolResultMessage call (run.outcome index) ∨
            ∃ reason disposition, result = unstartedResult run reason disposition call := by
  have hanswers := runBatch_answers config hsticky hnodup
  refine ⟨by simpa using hanswers.length_eq.symm, fun index call result hcall hresult => ?_⟩
  obtain ⟨hlt, rfl⟩ := List.getElem?_eq_some_iff.mp hcall
  obtain ⟨hlt', rfl⟩ := List.getElem?_eq_some_iff.mp hresult
  simpa [Answers] using hanswers.get (by simpa using hlt) hlt'

/-- A signal that is aborted from its second read on. -/
def lateAbort (n : Nat) : Bool := decide (1 ≤ n)

def sampleBatch : BatchRun where
  outcome _ := ⟨[.text "done"], none, false, false, syntheticEnvelope "done" .skipped, false, 0⟩
  immediate _ := false
  plannedClaims _ := none
  finalClaims _ := none
  aborted := lateAbort
  now := 0

theorem sampleBatch_sticky : sampleBatch.Sticky := by
  intro n h
  simp only [sampleBatch, lateAbort, decide_eq_true_eq] at h ⊢
  omega

/-- A loop with the dag scheduler. -/
def sampleLoopConfig : AgentLoopConfig :=
  ⟨List.map Char.toLower, true, false, inW, .absent⟩

def sampleCalls : List ToolCall := [⟨"call-1", "read", .null⟩, ⟨"call-2", "write", .null⟩]

theorem runBatch_spec_sample :
    (runBatch sampleLoopConfig sampleBatch sampleCalls).messages.length = 2 :=
  (runBatch_spec sampleLoopConfig sampleBatch sampleCalls sampleBatch_sticky (by decide)).1

/-! ## Turns -/

/-- The transcript passes the inspection that comes before every request. -/
abbrev Passes (messages : List AgentMessage) : Prop :=
  (inspectTranscriptIntegrity messages).ok = true

variable {ms ns : List AgentMessage} {response : AssistantMessage}
  {results : List ToolResultMessage} {turn : Turn} {s : LoopState}

theorem passes_iff {messages : List AgentMessage} : Passes messages ↔ WellFormed messages :=
  ok_iff_wellFormed messages

theorem Turns.append (hms : Turns ms) (hns : Turns ns) : Turns (ms ++ ns) := by
  induction hms with
  | nil => exact hns
  | plain hcalls hanswers _ ih => exact .plain hcalls hanswers ih
  | turn hcalls hresults _ ih =>
    rw [List.cons_append, List.append_assoc]
    exact .turn hcalls hresults ih

/-- Closed turns with new calls extend a transcript that passes inspection. -/
theorem ok_append (h : Passes ms) (hturns : Turns ns) (hnodup : (callIds (ms ++ ns)).Nodup) :
    Passes (ms ++ ns) := by
  rw [passes_iff] at h ⊢
  exact ⟨hnodup, h.turns.append hturns⟩

/-- Messages that neither call nor answer. -/
def PlainMessages (messages : List AgentMessage) : Prop :=
  ∀ message ∈ messages, message.toolCalls = [] ∧ message.answers = none

theorem PlainMessages.closed (h : PlainMessages ms) : Turns ms ∧ callIds ms = [] := by
  induction ms with
  | nil => exact ⟨.nil, rfl⟩
  | cons m ms ih =>
    obtain ⟨hcalls, hanswers⟩ := h m List.mem_cons_self
    obtain ⟨hturns, hids⟩ := ih fun other hother => h other (List.mem_cons_of_mem m hother)
    exact ⟨.plain hcalls hanswers hturns, by rw [callIds_cons, hcalls, hids]; rfl⟩

theorem PlainMessages.passes (hplain : PlainMessages ns) (h : Passes ms) : Passes (ms ++ ns) := by
  refine ok_append h hplain.closed.1 ?_
  rw [callIds_append, hplain.closed.2, List.append_nil]
  exact (passes_iff.mp h).distinct

/-- A response and one result for each of its calls are closed turns. -/
theorem turns_answered
    (hids : results.map (·.toolCallId) = response.toolCalls.map ToolCall.id) :
    Turns (.assistant response :: results.map .toolResult) := by
  by_cases hcalls : response.toolCalls = []
  · rw [hcalls, List.map_nil, List.map_eq_nil_iff] at hids
    rw [hids]
    exact .plain hcalls rfl .nil
  · rw [← List.append_nil (results.map AgentMessage.toolResult)]
    exact .turn hcalls (hids ▸ List.Perm.refl _) .nil

/-- A response with new call ids and its results extend a transcript that passes inspection. -/
theorem answered_ok (h : Passes ms) (hnodup : (callIds (ms ++ [.assistant response])).Nodup)
    (hids : results.map (·.toolCallId) = response.toolCalls.map ToolCall.id) :
    Passes (ms ++ [.assistant response] ++ results.map .toolResult) := by
  rw [List.append_assoc]
  refine ok_append h (turns_answered hids) ?_
  rw [callIds_append, callIds_cons, callIds_nil] at hnodup
  rwa [List.singleton_append, callIds_append, callIds_cons, callIds_map_toolResult]

/-- A response over such a transcript can be run exactly when its call ids are new. -/
theorem response_missing_iff (h : Passes ms) (response : AssistantMessage) :
    (∀ issue ∈ (inspectTranscriptIntegrity (ms ++ [.assistant response])).issues,
      issue.kind = .missingResult) ↔ (callIds (ms ++ [.assistant response])).Nodup := by
  constructor
  · intro hissues
    exact ((issues_missing_iff _).mp hissues).1
  · intro hnodup
    have hids := syntheticResults_ids "" (fun _ => 0) response.toolCalls
    exact missing_of_closable (answered_ok h hnodup hids)

/-! ## Runs -/

/-- What the loop relies on: the queued messages are plain, an abort lasts, and a context that
`prepareNextTurn` puts in place passes inspection. -/
structure Turn.Sound (turn : Turn) : Prop where
  pending : PlainMessages turn.pendingMessages
  sticky : turn.batch.Sticky
  nextContext : ∀ context ∈ turn.nextContext, Passes context

theorem Turn.Sound.next (hturn : turn.Sound) (h : Passes ms) :
    Passes (turn.nextContext.getD ms) := by
  cases hnext : turn.nextContext with
  | none => exact h
  | some next => exact hturn.nextContext next hnext

/-- What holds of the context at the end of a turn or of a run. -/
structure LoopState.Closed (s : LoopState) (finish : LoopEnd) : Prop where
  request : finish ≠ .refusedRequest
  ok : finish ≠ .refusedTools → Passes s.context
  repeated : finish = .refusedTools → ¬ (callIds s.context).Nodup

theorem LoopState.Closed.of_ok {finish : LoopEnd} (h : Passes s.context)
    (hrequest : finish ≠ .refusedRequest) (htools : finish ≠ .refusedTools) : s.Closed finish :=
  ⟨hrequest, fun _ => h, fun heq => absurd heq htools⟩

theorem unfinishedResults_ids (turn : Turn) :
    (unfinishedResults turn).map (·.toolCallId) = turn.response.toolCalls.map ToolCall.id := by
  unfold unfinishedResults
  rw [List.map_map]
  split_ifs <;> rfl

theorem turnBatch_ids (hturn : turn.Sound)
    (hnodup : (turn.response.toolCalls.map ToolCall.id).Nodup) :
    (turnBatch config turn).messages.map (·.toolCallId) =
      turn.response.toolCalls.map ToolCall.id := by
  unfold turnBatch
  split_ifs with hcalls
  · rw [hcalls]
    rfl
  · rw [answers_ids (runBatch_answers config hturn.sticky hnodup), List.zipIdx_map_fst]

theorem runTurn_closed (hturn : turn.Sound) (h : Passes s.context) :
    (runTurn config turn s).1.Closed (runTurn config turn s).2 := by
  have hpending := hturn.pending.passes h
  have hmissing := response_missing_iff hpending turn.response
  unfold runTurn LoopState.push
  dsimp only
  rw [if_neg (by simp [hpending])]
  by_cases htransform : turn.transformContext.any (fun transform =>
      !(inspectTranscriptIntegrity (transform (s.context ++ turn.pendingMessages))).ok) = true
  · rw [if_pos htransform]
    exact .of_ok hpending nofun nofun
  rw [if_neg htransform]
  by_cases hnodup :
      (callIds (s.context ++ turn.pendingMessages ++ [.assistant turn.response])).Nodup
  · rw [if_neg (by simpa using hmissing.mpr hnodup)]
    have hids := turnBatch_ids config hturn (by
      rw [callIds_append, callIds_cons, callIds_nil, List.append_nil] at hnodup
      exact (List.nodup_append.mp hnodup).2.1)
    have hbatch := answered_ok hpending hnodup hids
    split_ifs
    · exact .of_ok (answered_ok hpending hnodup (unfinishedResults_ids turn)) nofun nofun
    · exact .of_ok hbatch nofun nofun
    · exact .of_ok (hturn.next hbatch) nofun nofun
    · exact .of_ok (hturn.next hbatch) nofun nofun
  · have hissues := fun h => hnodup (hmissing.mp h)
    rw [if_pos (by simpa using hissues)]
    exact ⟨nofun, fun hne => absurd rfl hne, fun _ => hnodup⟩

theorem runLoop_closed {turns : List Turn} (more : Bool)
    (hturns : ∀ turn ∈ turns, turn.Sound) (h : Passes s.context) :
    (runLoop config turns more s).1.Closed (runLoop config turns more s).2 := by
  induction turns generalizing s more with
  | nil => exact .of_ok h nofun nofun
  | cons turn turns ih =>
    have hturn := runTurn_closed config (hturns turn List.mem_cons_self) h
    unfold runLoop
    split_ifs with hend
    · exact .of_ok h nofun nofun
    · generalize runTurn config turn s = done at hturn
      obtain ⟨s', finish⟩ := done
      cases finish with
      | continues more =>
        exact ih more (fun other hother => hturns other (List.mem_cons_of_mem turn hother))
          (hturn.ok nofun)
      | finished | refusedRequest | refusedTransform | refusedTools => exact hturn

theorem runLoop_keepsTranscript (config : AgentLoopConfig) (turns : List Turn) (more : Bool)
    (s : LoopState) (hturns : ∀ turn ∈ turns, turn.Sound) (h : Passes s.context) :
    (runLoop config turns more s).2 ≠ .refusedRequest ∧
      (Passes (runLoop config turns more s).1.context ↔
        (runLoop config turns more s).2 ≠ .refusedTools) := by
  have hclosed := runLoop_closed config more hturns h
  refine ⟨hclosed.request, fun hpasses htools => ?_, hclosed.ok⟩
  exact hclosed.repeated htools (passes_iff.mp hpasses).distinct

/-- A turn with two calls, whose batch is aborted. -/
def sampleTurn : Turn where
  pendingMessages := [.user [.text "go on"] 0]
  transformContext := none
  response := ⟨sampleCalls.map .toolCall, "", "", "", emptyUsage, .toolUse, none, 0⟩
  batch := sampleBatch
  nextContext := none
  shouldStopAfterTurn := false

theorem sampleTurn_sound : sampleTurn.Sound :=
  ⟨by simp [PlainMessages, sampleTurn, AgentMessage.toolCalls, AgentMessage.answers],
    sampleBatch_sticky, nofun⟩

theorem runLoop_keepsTranscript_sample :
    (runLoop sampleLoopConfig [sampleTurn, sampleTurn] true ⟨[], []⟩).2 ≠ .refusedRequest :=
  (runLoop_keepsTranscript sampleLoopConfig [sampleTurn, sampleTurn] true ⟨[], []⟩
    (by simp [sampleTurn_sound]) rfl).1

theorem LoopState.push_push (s : LoopState) (first second : List AgentMessage) :
    (s.push first).push second = s.push (first ++ second) := by
  unfold LoopState.push
  rw [List.append_assoc, List.append_assoc]

/-- A turn whose context no hook replaces appends the same messages to both lists. -/
theorem runTurn_push (hnext : turn.nextContext = none) (s : LoopState) :
    ∃ added, (runTurn config turn s).1 = s.push added := by
  unfold runTurn
  rw [hnext]
  dsimp only [Option.getD_none]
  simp only [LoopState.push_push]
  split_ifs <;> exact ⟨_, rfl⟩

theorem runLoop_push {turns : List Turn} (hnext : ∀ turn ∈ turns, turn.nextContext = none)
    (more : Bool) (s : LoopState) : ∃ added, (runLoop config turns more s).1 = s.push added := by
  have hnil (s : LoopState) : s = s.push [] := by
    unfold LoopState.push
    rw [List.append_nil, List.append_nil]
  induction turns generalizing s more with
  | nil => exact ⟨[], hnil s⟩
  | cons turn turns ih =>
    obtain ⟨added, hadded⟩ := runTurn_push config (hnext turn List.mem_cons_self) s
    unfold runLoop
    split_ifs with hend
    · exact ⟨[], hnil s⟩
    · generalize runTurn config turn s = done at hadded
      obtain ⟨s', finish⟩ := done
      cases finish with
      | continues more =>
        obtain ⟨rest, hrest⟩ :=
          ih (fun other hother => hnext other (List.mem_cons_of_mem turn hother)) more s'
        exact ⟨added ++ rest, by rw [← LoopState.push_push, ← hadded, ← hrest]⟩
      | finished | refusedRequest | refusedTransform | refusedTools => exact ⟨added, hadded⟩

/-! ## Runs that fail -/

theorem Turns.of_append (hms : Turns ms) (h : Turns (ms ++ ns)) : Turns ns := by
  have hscan := scan_of_turns (fun _ => true) h
  rw [scan_append, scan_of_turns _ hms, Option.bind_some] at hscan
  obtain ⟨results, rest, rfl, hperm, hrest⟩ := turns_of_scan hscan fun _ _ => rfl
  rwa [List.map_eq_nil_iff.mp hperm.eq_nil]

/-- What extends a transcript that passes inspection to another passes it by itself. -/
theorem passes_of_append (hms : Passes ms) (h : Passes (ms ++ ns)) : Passes ns := by
  rw [passes_iff] at hms h ⊢
  have hdistinct := h.distinct
  rw [callIds_append] at hdistinct
  exact ⟨(List.nodup_append.mp hdistinct).2.1, hms.turns.of_append h.turns⟩

/-- The failure plan makes no call. -/
theorem planFailureTermination_callIds (messages : List AgentMessage) (failure : RunFailure) :
    callIds (planFailureTermination messages failure).messages = callIds messages := by
  have hfailure (ms : List AgentMessage) : callIds (ms ++ [failure.message]) = callIds ms := by
    rw [callIds_append]
    exact List.append_nil _
  unfold planFailureTermination
  split_ifs
  · exact hfailure messages
  · by_cases hmissing : ∀ issue ∈ (inspectTranscriptIntegrity messages).issues,
        issue.kind = .missingResult
    · rw [repair_of_missing _ _ hmissing]
      dsimp only
      rw [hfailure, repaired, callIds_append, callIds_map_toolResult, List.append_nil]
    · push Not at hmissing
      obtain ⟨issue, hissue, hkind⟩ := hmissing
      obtain ⟨found, -, -, herror⟩ := repair_of_detected _ failure.now hissue hkind
      rw [herror]

end Agent
