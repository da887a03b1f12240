import Mathlib

/-!
# Compaction hysteresis

When the context is full enough to compact, and when a finished compaction has to see a low
watermark before the next one starts. The object and key checks that the types already exclude are
left out; a ratio can still be any number of the language, so its check stays.
-/

namespace CodingAgent

/-- A number of the language, as far as the checks of a ratio tell numbers apart. -/
inductive JsNumber where
  | nan
  | infinite (negative : Bool)
  | finite (value : ℚ)

/-- The config as it is passed in. -/
structure CompactionHysteresisInputConfig where
  rearmRatio : JsNumber
  triggerRatio : JsNumber
  emergencyRatio : JsNumber

/-- A config that `createCompactionHysteresisConfig` has accepted. -/
structure CompactionHysteresisConfig where
  rearmRatio : ℚ
  triggerRatio : ℚ
  emergencyRatio : ℚ
  rearm_nonneg : 0 ≤ rearmRatio
  rearm_lt_trigger : rearmRatio < triggerRatio
  trigger_le_emergency : triggerRatio ≤ emergencyRatio
  emergency_le_one : emergencyRatio ≤ 1

structure CompactionHysteresisState where
  armed : Bool

inductive CompactionAttemptOutcome where
  | none
  | commit
  | abort
  | stale
  | defer
deriving DecidableEq

inductive CompactionHysteresisAction where
  | compact
  | wait
deriving DecidableEq

inductive CompactionHysteresisReason where
  | emergencyThresholdReached
  | triggerThresholdReached
  | belowTriggerThreshold
  | commitDisarmed
  | disarmedUntilRearm
  | rearmedAtLowWatermark
deriving DecidableEq

structure CompactionHysteresisResult where
  action : CompactionHysteresisAction
  reason : CompactionHysteresisReason
  nextState : CompactionHysteresisState

/-- The ratio when it is finite and in `[0, 1]`. -/
def assertRatio (value : JsNumber) (field : String) : Except String {q : ℚ // 0 ≤ q ∧ q ≤ 1} :=
  match value with
  | .finite q =>
    if h : 0 ≤ q ∧ q ≤ 1 then .ok ⟨q, h⟩
    else .error (field ++ " must be a finite ratio in [0, 1]")
  | _ => .error (field ++ " must be a finite ratio in [0, 1]")

def createCompactionHysteresisConfig (config : CompactionHysteresisInputConfig) :
    Except String CompactionHysteresisConfig := do
  let rearm ← assertRatio config.rearmRatio "rearmRatio"
  let trigger ← assertRatio config.triggerRatio "triggerRatio"
  let emergency ← assertRatio config.emergencyRatio "emergencyRatio"
  if h : rearm.1 < trigger.1 ∧ trigger.1 ≤ emergency.1 then
    .ok ⟨rearm.1, trigger.1, emergency.1, rearm.2.1, h.1, h.2, emergency.2.2⟩
  else
    .error "config must satisfy 0 <= rearmRatio < triggerRatio <= emergencyRatio <= 1"

/-- Without an argument, or without `armed` in it, the state is armed. -/
def createCompactionHysteresisState (armed : Option Bool) : CompactionHysteresisState :=
  ⟨armed.getD true⟩

/-- The step on checked values. -/
def decideCompactionHysteresis (config : CompactionHysteresisConfig)
    (state : CompactionHysteresisState) (ratio : ℚ) (outcome : CompactionAttemptOutcome) :
    CompactionHysteresisResult :=
  let committed := outcome = .commit
  let disarmed := if committed then false else state.armed
  let rearmed := ¬ committed ∧ disarmed = false ∧ ratio ≤ config.rearmRatio
  let armed := if rearmed then true else disarmed
  if config.emergencyRatio ≤ ratio then ⟨.compact, .emergencyThresholdReached, ⟨armed⟩⟩
  else if armed = true ∧ config.triggerRatio ≤ ratio then
    ⟨.compact, .triggerThresholdReached, ⟨armed⟩⟩
  else if committed then ⟨.wait, .commitDisarmed, ⟨false⟩⟩
  else if rearmed then ⟨.wait, .rearmedAtLowWatermark, ⟨true⟩⟩
  else if armed = false then ⟨.wait, .disarmedUntilRearm, ⟨false⟩⟩
  else ⟨.wait, .belowTriggerThreshold, ⟨true⟩⟩

/-- What one call passes besides the state. -/
structure CompactionHysteresisObservation where
  config : CompactionHysteresisInputConfig
  ratio : JsNumber
  outcome : Option CompactionAttemptOutcome

def stepCompactionHysteresis (state : CompactionHysteresisState)
    (input : CompactionHysteresisObservation) : Except String CompactionHysteresisResult := do
  let config ← createCompactionHysteresisConfig input.config
  let ratio ← assertRatio input.ratio "ratio"
  return decideCompactionHysteresis config state ratio (input.outcome.getD .none)

/-- The state that a caller keeps: a call that throws assigns nothing. -/
def CompactionHysteresisState.next (state : CompactionHysteresisState)
    (input : CompactionHysteresisObservation) : CompactionHysteresisState :=
  match stepCompactionHysteresis state input with
  | .ok result => result.nextState
  | .error _ => state

/-- The state after a run of calls from the initial state. -/
def stateAfterObservations (inputs : List CompactionHysteresisObservation) :
    CompactionHysteresisState :=
  inputs.foldl CompactionHysteresisState.next (createCompactionHysteresisState none)

/-- What call number `n` of a run returns, when it returns. -/
def resultAt (inputs : List CompactionHysteresisObservation) (n : Nat) :
    Option CompactionHysteresisResult := do
  let input ← inputs[n]?
  (stepCompactionHysteresis (stateAfterObservations (inputs.take n)) input).toOption

namespace CompactionHysteresisObservation

/-- The call gets past its checks, with this config and ratio. -/
def Accepted (input : CompactionHysteresisObservation) (config : CompactionHysteresisConfig)
    (ratio : {q : ℚ // 0 ≤ q ∧ q ≤ 1}) : Prop :=
  createCompactionHysteresisConfig input.config = .ok config ∧
    assertRatio input.ratio "ratio" = .ok ratio

/-- An observation at or below the rearm ratio of its own config. -/
def AtLowWatermark (input : CompactionHysteresisObservation) : Prop :=
  ∃ config ratio, input.Accepted config ratio ∧ ratio.1 ≤ config.rearmRatio

/-- An observation at or above the emergency ratio of its own config. -/
def AtEmergency (input : CompactionHysteresisObservation) : Prop :=
  ∃ config ratio, input.Accepted config ratio ∧ config.emergencyRatio ≤ ratio.1

end CompactionHysteresisObservation

end CodingAgent

/-!
# Runs of the compaction hysteresis

The invariant of a run: since the last commit, the state is armed only if a low watermark was seen.
-/

namespace CodingAgent

variable {inputs : List CompactionHysteresisObservation}
  {input : CompactionHysteresisObservation} {state : CompactionHysteresisState}
  {result : CompactionHysteresisResult} {config : CompactionHysteresisConfig}

/-! ## One decision -/

/-- A decision leaves the state disarmed after a commit, and otherwise armed when it was armed or
the ratio is at the low watermark. -/
theorem decide_nextState_armed (ratio : ℚ) (outcome : CompactionAttemptOutcome) :
    (decideCompactionHysteresis config state ratio outcome).nextState.armed = true ↔
      outcome ≠ .commit ∧ (state.armed = true ∨ ratio ≤ config.rearmRatio) := by
  by_cases hcommit : outcome = .commit
  · simp only [decideCompactionHysteresis, hcommit]
    split_ifs <;> simp_all
  · cases harmed : state.armed
    · by_cases hlow : ratio ≤ config.rearmRatio
      · simp only [decideCompactionHysteresis, hcommit, harmed, hlow]
        split_ifs <;> simp_all
      · simp only [decideCompactionHysteresis, hcommit, harmed, hlow]
        split_ifs <;> simp_all
    · simp only [decideCompactionHysteresis, hcommit, harmed]
      split_ifs <;> simp_all

theorem armed_of_trigger {ratio : ℚ} {outcome : CompactionAttemptOutcome}
    (h : (decideCompactionHysteresis config state ratio outcome).reason =
      .triggerThresholdReached) : state.armed = true := by
  have hlt := config.rearm_lt_trigger
  simp only [decideCompactionHysteresis] at h
  by_cases hcommit : outcome = .commit
  · simp only [hcommit] at h
    split_ifs at h <;> simp_all
  · cases harmed : state.armed
    · simp only [hcommit, harmed] at h
      split_ifs at h <;> simp_all
      linarith
    · rfl

theorem decide_emergency {ratio : ℚ} (outcome : CompactionAttemptOutcome)
    (h : config.emergencyRatio ≤ ratio) :
    (decideCompactionHysteresis config state ratio outcome).action = .compact ∧
    (decideCompactionHysteresis config state ratio outcome).reason =
      .emergencyThresholdReached := by
  simp only [decideCompactionHysteresis, h, if_true, and_self]

/-! ## One call -/

/-- A call that returns has passed its checks and decides on the checked values. -/
theorem stepCompactionHysteresis_ok_iff :
    stepCompactionHysteresis state input = .ok result ↔
      ∃ config ratio, input.Accepted config ratio ∧
        result = decideCompactionHysteresis config state ratio.1 (input.outcome.getD .none) := by
  unfold stepCompactionHysteresis CompactionHysteresisObservation.Accepted
  cases hc : createCompactionHysteresisConfig input.config with
  | error message => simp [bind, Except.bind]
  | ok config =>
    cases hr : assertRatio input.ratio "ratio" with
    | error message => simp [bind, Except.bind]
    | ok ratio =>
      simp only [bind, Except.bind, pure, Except.pure, Except.ok.injEq]
      constructor
      · intro h
        exact ⟨config, ratio, ⟨rfl, rfl⟩, h.symm⟩
      · rintro ⟨config', ratio', ⟨rfl, rfl⟩, rfl⟩
        rfl

theorem next_of_accepted {ratio : {q : ℚ // 0 ≤ q ∧ q ≤ 1}} (h : input.Accepted config ratio) :
    state.next input =
      (decideCompactionHysteresis config state ratio.1 (input.outcome.getD .none)).nextState := by
  unfold CompactionHysteresisState.next
  rw [(stepCompactionHysteresis_ok_iff).mpr ⟨config, ratio, h, rfl⟩]

theorem next_armed (h : (state.next input).armed = true) :
    state.armed = true ∨ input.AtLowWatermark := by
  unfold CompactionHysteresisState.next at h
  cases hstep : stepCompactionHysteresis state input with
  | error message =>
    rw [hstep] at h
    exact Or.inl h
  | ok result =>
    rw [hstep] at h
    obtain ⟨config, ratio, hacc, rfl⟩ := (stepCompactionHysteresis_ok_iff).mp hstep
    rcases ((decide_nextState_armed ratio.1 _).mp h).2 with harmed | hlow
    · exact Or.inl harmed
    · exact Or.inr ⟨config, ratio, hacc, hlow⟩

theorem next_armed_of_not_commit (harmed : state.armed = true)
    (hcommit : input.outcome ≠ some .commit) : (state.next input).armed = true := by
  unfold CompactionHysteresisState.next
  cases hstep : stepCompactionHysteresis state input with
  | error message => exact harmed
  | ok result =>
    obtain ⟨config, ratio, -, rfl⟩ := (stepCompactionHysteresis_ok_iff).mp hstep
    refine (decide_nextState_armed ratio.1 _).mpr ⟨?_, Or.inl harmed⟩
    cases hout : input.outcome with
    | none => simp
    | some outcome =>
      intro h
      apply hcommit
      rw [hout]
      exact congrArg some h

/-! ## Runs -/

theorem stateAfterObservations_take_succ {n : Nat} (h : inputs[n]? = some input) :
    stateAfterObservations (inputs.take (n + 1)) =
      (stateAfterObservations (inputs.take n)).next input := by
  unfold stateAfterObservations
  rw [List.take_add_one, h, List.foldl_append]
  rfl

theorem resultAt_eq_some {n : Nat} (h : resultAt inputs n = some result) :
    ∃ input, inputs[n]? = some input ∧
      stepCompactionHysteresis (stateAfterObservations (inputs.take n)) input = .ok result := by
  unfold resultAt at h
  cases hin : inputs[n]? with
  | none => simp [hin] at h
  | some input =>
    simp only [hin, bind, Option.bind] at h
    cases hstep : stepCompactionHysteresis (stateAfterObservations (inputs.take n)) input with
    | error message => simp [hstep, Except.toOption] at h
    | ok result' =>
      simp only [hstep, Except.toOption, Option.some.injEq] at h
      exact ⟨input, rfl, h ▸ hstep⟩

/-- Between a commit and the first low watermark after it the state stays disarmed. -/
theorem rearmed_of_armed_after_commit {i n : Nat} (hi : inputs[i]? = some input)
    (hcommit : input.outcome = some .commit) (hreturned : (resultAt inputs i).isSome)
    (hin : i < n) (hn : n ≤ inputs.length)
    (harmed : (stateAfterObservations (inputs.take n)).armed = true) :
    ∃ k low, i < k ∧ k < n ∧ inputs[k]? = some low ∧ low.AtLowWatermark := by
  induction n with
  | zero => omega
  | succ n ih =>
    obtain ⟨last, hlast⟩ : ∃ last, inputs[n]? = some last :=
      ⟨inputs[n], List.getElem?_eq_getElem (by omega)⟩
    rw [stateAfterObservations_take_succ hlast] at harmed
    by_cases heq : n = i
    · -- the call of the commit itself leaves the state disarmed
      subst heq
      obtain ⟨result, hresult⟩ := Option.isSome_iff_exists.mp hreturned
      obtain ⟨input', hin', hstep⟩ := resultAt_eq_some hresult
      have h1 : input' = input := Option.some.inj (hin'.symm.trans hi)
      have h2 : last = input := Option.some.inj (hlast.symm.trans hi)
      subst h1 h2
      obtain ⟨config, ratio, hacc, -⟩ := (stepCompactionHysteresis_ok_iff).mp hstep
      rw [next_of_accepted hacc, decide_nextState_armed] at harmed
      exact absurd (by rw [hcommit]; rfl) harmed.1
    · rcases next_armed harmed with hbefore | hlow
      · obtain ⟨k, low, hik, hkn, hk, hkl⟩ := ih (by omega) (by omega) hbefore
        exact ⟨k, low, hik, by omega, hk, hkl⟩
      · exact ⟨n, last, by omega, by omega, hlast, hlow⟩

/-- A threshold trigger after a commit comes after a low watermark that follows the commit; an
observation at the emergency ratio is decided as compact in every state; and a call whose outcome
is not a commit leaves an armed state armed. -/
theorem stepCompactionHysteresis_runs (inputs : List CompactionHysteresisObservation) :
    (∀ i j commit trigger, i < j → inputs[i]? = some commit →
      commit.outcome = some .commit → (resultAt inputs i).isSome →
      resultAt inputs j = some trigger → trigger.reason = .triggerThresholdReached →
      ∃ k low, i < k ∧ k < j ∧ inputs[k]? = some low ∧ low.AtLowWatermark) ∧
    (∀ j input, inputs[j]? = some input → input.AtEmergency →
      ∃ result, resultAt inputs j = some result ∧ result.action = .compact ∧
        result.reason = .emergencyThresholdReached) ∧
    (∀ j input, inputs[j]? = some input → input.outcome ≠ some .commit →
      (stateAfterObservations (inputs.take j)).armed = true →
      (stateAfterObservations (inputs.take (j + 1))).armed = true) := by
  refine ⟨?_, ?_, ?_⟩
  · intro i j commit trigger hij hi hcommit hreturned hj htrigger
    obtain ⟨input, hin, hstep⟩ := resultAt_eq_some hj
    obtain ⟨config, ratio, -, rfl⟩ := (stepCompactionHysteresis_ok_iff).mp hstep
    have hlen : j < inputs.length := (List.getElem?_eq_some_iff.mp hin).1
    have harmed := armed_of_trigger htrigger
    exact rearmed_of_armed_after_commit hi hcommit hreturned hij (by omega) harmed
  · rintro j input hj ⟨config, ratio, hacc, hemergency⟩
    have hstep : stepCompactionHysteresis (stateAfterObservations (inputs.take j)) input = .ok _ :=
      (stepCompactionHysteresis_ok_iff).mpr ⟨config, ratio, hacc, rfl⟩
    have hresult : resultAt inputs j = some (decideCompactionHysteresis config
        (stateAfterObservations (inputs.take j)) ratio.1 (input.outcome.getD .none)) := by
      unfold resultAt
      rw [hj]
      simp only [bind, Option.bind, hstep, Except.toOption]
    exact ⟨_, hresult, decide_emergency _ hemergency⟩
  · intro j input hj hcommit harmed
    rw [stateAfterObservations_take_succ hj]
    exact next_armed_of_not_commit harmed hcommit

/-- A commit, a full context that has to wait, a low watermark, and the next trigger. -/
example :
    let config : CompactionHysteresisInputConfig := ⟨.finite (1/2), .finite (3/4), .finite (9/10)⟩
    let inputs : List CompactionHysteresisObservation :=
      [⟨config, .finite 0, some .commit⟩, ⟨config, .finite (4/5), none⟩,
        ⟨config, .finite (1/2), none⟩, ⟨config, .finite (4/5), none⟩]
    (List.range 4).map (fun n => (resultAt inputs n).map (·.reason)) =
      [some .commitDisarmed, some .disarmedUntilRearm, some .rearmedAtLowWatermark,
        some .triggerThresholdReached] := by
  decide +kernel

end CodingAgent
