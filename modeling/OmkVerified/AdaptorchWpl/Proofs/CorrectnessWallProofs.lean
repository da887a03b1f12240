import OmkVerified.AdaptorchWpl.EvaluateCorrectnessWall
import OmkVerified.AdaptorchWpl.Proofs.AdjudicationProofs

/-!
# The flags of the fast wall

What each flag says about the diff.
-/

namespace AdaptorchWpl

open Lib

/-- A changed path of the diff is not in the scope. -/
def LeavesScope (input : FastWallInput) : Prop :=
  ∃ scope, input.approvedWriteScope = some scope ∧ scope ≠ [] ∧
    ∃ path ∈ parseDiffPaths input.diffText, pathMatchesApprovedScope path scope = false

theorem leavesScope_iff (input : FastWallInput) :
    LeavesScope input ↔
      0 < (input.approvedWriteScope.getD []).length ∧ 0 < (parseDiffPaths input.diffText).length ∧
        0 < ((parseDiffPaths input.diffText).filter fun p =>
          !pathMatchesApprovedScope p (input.approvedWriteScope.getD [])).length := by
  simp only [List.length_pos_iff_exists_mem, List.mem_filter, Bool.not_eq_true']
  constructor
  · rintro ⟨scope, hscope, hnonempty, path, hpath, hout⟩
    rw [hscope]
    exact ⟨List.exists_mem_of_ne_nil _ hnonempty, ⟨path, hpath⟩, path, hpath, hout⟩
  · rintro ⟨⟨pattern, hpattern⟩, -, path, hpath, hout⟩
    cases hscope : input.approvedWriteScope with
    | none =>
      rw [hscope] at hpattern
      cases hpattern
    | some scope =>
      rw [hscope] at hpattern hout
      exact ⟨scope, hscope, List.ne_nil_of_mem hpattern, path, hpath, hout⟩

/-- Which flags the wall raises. -/
theorem mem_flags_runFastWall (input : FastWallInput) (flag : PolicyFlag) :
    flag ∈ (runFastWall input).flags ↔
      (LeavesScope input ∧ flag ∈ [.candidateLeakSuspect, .nonNegotiableBlocking]) ∨
        (0 < (input.runIds.getD []).length ∧ input.previewOnly ≠ some true ∧
          flag = .evidenceDagIncomplete) ∨
        (input.previewOnly = some true ∧ flag ∈ [.reproOverfitSuspect, .lowDiscrimination]) ∨
        (scanDiffLinesForSecrets input.diffText = true ∧
          flag ∈ [.secretSuspect, .nonNegotiableBlocking]) := by
  have hmem : ∀ (condition : Prop) [Decidable condition] (raised : List PolicyFlag),
      (flag ∈ if condition then raised else []) ↔ condition ∧ flag ∈ raised := by
    intro condition _ raised
    split_ifs with h
    · exact ⟨fun hflag => ⟨h, hflag⟩, fun hflag => hflag.2⟩
    · exact ⟨nofun, fun hflag => absurd hflag.1 h⟩
  unfold runFastWall
  simp only [List.mem_append, hmem, ← leavesScope_iff, List.mem_singleton, or_assoc, and_assoc]

theorem candidateLeakSuspect_mem_iff (input : FastWallInput) :
    .candidateLeakSuspect ∈ (runFastWall input).flags ↔ LeavesScope input := by
  rw [mem_flags_runFastWall]
  simp

theorem secretSuspect_mem_iff (input : FastWallInput) :
    .secretSuspect ∈ (runFastWall input).flags ↔ scanDiffLinesForSecrets input.diffText = true := by
  rw [mem_flags_runFastWall]
  simp

theorem nonNegotiableBlocking_mem_iff (input : FastWallInput) :
    .nonNegotiableBlocking ∈ (runFastWall input).flags ↔
      LeavesScope input ∨ scanDiffLinesForSecrets input.diffText = true := by
  rw [mem_flags_runFastWall]
  simp

theorem evidenceDagIncomplete_mem_iff (input : FastWallInput) :
    .evidenceDagIncomplete ∈ (runFastWall input).flags ↔
      0 < (input.runIds.getD []).length ∧ input.previewOnly ≠ some true := by
  rw [mem_flags_runFastWall]
  simp

end AdaptorchWpl

/-!
# When a card asks for human review

The mapper asks for review on every card that is blocked or inconclusive. The deep wall writes over
that.
-/

namespace AdaptorchWpl

open Lib

/-! ## Verdicts that ask for review -/

def asksForReview (verdict : UserVerdict) : Bool := verdict = .blocked || verdict = .inconclusive

theorem asksForReview_worst (current next : UserVerdict) :
    asksForReview (worstUserVerdict current next) = (asksForReview current || asksForReview next) := by
  cases current <;> cases next <;> rfl

theorem asksForReview_policyFlagVerdict (flags : List PolicyFlag) (previewOnly : Bool) :
    asksForReview (policyFlagVerdict flags previewOnly) =
      (blockingFlag flags || flags.contains .evidenceDagIncomplete) := by
  unfold asksForReview
  rw [Bool.eq_iff_iff, Bool.or_eq_true, Bool.or_eq_true, decide_eq_true_eq, decide_eq_true_eq,
    (policyFlagVerdict_eq _ _).1, (policyFlagVerdict_eq _ _).2]
  cases blockingFlag flags <;> simp

/-- Before the adjudication: nothing to look at, or a flag. -/
theorem asksForReview_beforeAdjudication (input : MapToB2CInput) :
    asksForReview (verdictBeforeAdjudication input) =
      (input.diffPaths.isEmpty && input.adjudication.isNone || blockingFlag input.policyFlags ||
        input.policyFlags.contains .evidenceDagIncomplete) := by
  have hflags := asksForReview_policyFlagVerdict input.policyFlags input.previewOnly
  have hstart : asksForReview
      (if (input.diffPaths.isEmpty && input.adjudication.isNone) = true then .inconclusive
        else .pass) = (input.diffPaths.isEmpty && input.adjudication.isNone) := by
    cases input.diffPaths.isEmpty && input.adjudication.isNone <;> rfl
  unfold verdictBeforeAdjudication userVerdictFromPolicyFlags
  simp only
  by_cases hnone : (policyFlagVerdict input.policyFlags input.previewOnly = .pass &&
      input.policyFlags.isEmpty) = true
  · rw [Bool.and_eq_true, decide_eq_true_eq] at hnone
    rw [if_pos (by simp [hnone]), Bool.or_assoc, ← hflags, hnone.1, hstart]
    exact (Bool.or_false _).symm
  · rw [if_neg hnone, asksForReview_worst, hstart, hflags, Bool.or_assoc]

theorem asksForReview_verdictFromOa (verdict : VerdictState) :
    asksForReview (verdictFromOa verdict) = true ↔
      verdict ≠ .confirmed ∧ verdict ≠ .corroboratedFailure := by
  cases verdict <;> decide

theorem asksForReview_userVerdictOf (input : MapToB2CInput) :
    asksForReview (userVerdictOf input) = true ↔
      (input.diffPaths = [] ∧ input.adjudication = none) ∨ blockingFlag input.policyFlags = true ∨
        .evidenceDagIncomplete ∈ input.policyFlags ∨
        ∃ adjudication, input.adjudication = some adjudication ∧
          adjudication.verdict ≠ .confirmed ∧ adjudication.verdict ≠ .corroboratedFailure := by
  have hbefore := asksForReview_beforeAdjudication input
  unfold userVerdictOf
  cases hadjudication : input.adjudication with
  | none =>
    rw [hadjudication] at hbefore
    simp only [hbefore, Bool.or_eq_true, Bool.and_eq_true, List.isEmpty_iff,
      List.contains_iff_mem, Option.isNone_none, or_assoc]
    simp
  | some adjudication =>
    rw [hadjudication] at hbefore
    simp only [asksForReview_worst, hbefore, Bool.or_eq_true, Bool.and_eq_true,
      List.contains_iff_mem, Option.isNone_some, asksForReview_verdictFromOa]
    simp [or_assoc]

/-! ## The inputs that settle a card -/

/-- What the fast wall is given. -/
def fastWallInput (params : EvaluateCorrectnessWallParams) : FastWallInput :=
  { diffText := params.diffText
    approvedWriteScope := params.approvedWriteScope
    runIds := some params.requestedRunIds
    previewOnly := some params.isPreviewOnly }

/-- The flags that the mapper is given. -/
def effectiveFlags (params : EvaluateCorrectnessWallParams)
    (adjudication : Option AdjudicationResult) : List PolicyFlag :=
  if adjudication.isSome then
    (runFastWall (fastWallInput params)).flags.filter fun flag => flag ≠ .evidenceDagIncomplete
  else (runFastWall (fastWallInput params)).flags

variable {params : EvaluateCorrectnessWallParams}

theorem mem_effectiveFlags {adjudication : Option AdjudicationResult} {flag : PolicyFlag} :
    flag ∈ effectiveFlags params adjudication ↔
      flag ∈ (runFastWall (fastWallInput params)).flags ∧
        (flag = .evidenceDagIncomplete → adjudication = none) := by
  unfold effectiveFlags
  cases adjudication with
  | none => simp
  | some adjudication => simp

theorem blockingFlag_effectiveFlags (params : EvaluateCorrectnessWallParams)
    (adjudication : Option AdjudicationResult) :
    blockingFlag (effectiveFlags params adjudication) = true ↔
      LeavesScope (fastWallInput params) ∨ scanDiffLinesForSecrets params.diffText = true := by
  unfold blockingFlag
  simp only [Bool.or_eq_true, List.contains_iff_mem, mem_effectiveFlags,
    candidateLeakSuspect_mem_iff, secretSuspect_mem_iff, nonNegotiableBlocking_mem_iff]
  simp only [reduceCtorEq, false_implies, and_true]
  exact ⟨fun h => by tauto, fun h => .inl (.inl h)⟩

/-- Nothing about the inputs calls for a review: there is something to look at, the changed paths lie
in the scope, no line looks like a credential, and runs that have to be looked at were adjudicated
and confirmed, or have failed as they reported. -/
structure Settled (params : EvaluateCorrectnessWallParams) : Prop where
  known : parseDiffPaths params.diffText ≠ [] ∨
    ∃ adjudication, params.adjudication = .ok (some adjudication)
  inScope : ∀ scope, params.approvedWriteScope = some scope → scope ≠ [] →
    ∀ path ∈ parseDiffPaths params.diffText, pathMatchesApprovedScope path scope = true
  noSecret : scanDiffLinesForSecrets params.diffText = false
  evidence : params.requestedRunIds = [] ∨ params.isPreviewOnly = true ∨
    ∃ adjudication, params.adjudication = .ok (some adjudication)
  outcome : ∀ adjudication, params.adjudication = .ok (some adjudication) →
    adjudication.verdict = .confirmed ∨ adjudication.verdict = .corroboratedFailure

theorem settled_iff {adjudication : Option AdjudicationResult}
    (h : params.adjudication = .ok adjudication) {input : MapToB2CInput}
    (hpaths : input.diffPaths = parseDiffPaths params.diffText)
    (hflags : input.policyFlags = effectiveFlags params adjudication)
    (hadjudication : input.adjudication = adjudication) :
    Settled params ↔ asksForReview (userVerdictOf input) = false := by
  rw [← Bool.not_eq_true, asksForReview_userVerdictOf, hpaths, hflags, hadjudication,
    blockingFlag_effectiveFlags, mem_effectiveFlags, evidenceDagIncomplete_mem_iff]
  have hanswers : ∀ answer, params.adjudication = .ok (some answer) ↔ adjudication = some answer := by
    intro answer
    rw [h, Except.ok.injEq]
  have hpreview : some params.isPreviewOnly = some true ↔ params.isPreviewOnly = true :=
    Option.some_inj
  constructor
  · intro hsettled
    rintro (⟨hnone, hmissing⟩ | (⟨scope, hscope, hnonempty, path, hpath, hout⟩ | hsecret) |
      ⟨⟨hruns, hfull⟩, hmissing⟩ | ⟨answer, hanswer, hconfirmed, hfailure⟩)
    · rcases hsettled.known with hknown | ⟨answer, hanswer⟩
      · exact hknown hnone
      · rw [hanswers, hmissing] at hanswer
        cases hanswer
    · rw [hsettled.inScope scope hscope hnonempty path hpath] at hout
      cases hout
    · rw [hsettled.noSecret] at hsecret
      cases hsecret
    · rcases hsettled.evidence with hnoRuns | hpreviewOnly | ⟨answer, hanswer⟩
      · rw [show (fastWallInput params).runIds = some params.requestedRunIds from rfl, hnoRuns] at hruns
        exact absurd hruns (by simp)
      · exact hfull (hpreview.mpr hpreviewOnly)
      · rw [hanswers, hmissing rfl] at hanswer
        cases hanswer
    · rcases hsettled.outcome answer ((hanswers answer).mpr hanswer) with hverdict | hverdict
      · exact hconfirmed hverdict
      · exact hfailure hverdict
  · intro hquiet
    simp only [not_or] at hquiet
    obtain ⟨hknown, ⟨hscope, hsecret⟩, hevidence, houtcome⟩ := hquiet
    refine ⟨?_, ?_, ?_, ?_, ?_⟩
    · cases adjudication with
      | none => exact .inl fun hnone => hknown ⟨hnone, rfl⟩
      | some answer => exact .inr ⟨answer, h⟩
    · intro scope happroved hnonempty path hpath
      by_contra hout
      exact hscope ⟨scope, happroved, hnonempty, path, hpath, Bool.eq_false_of_not_eq_true hout⟩
    · exact Bool.eq_false_of_not_eq_true hsecret
    · by_contra hopen
      simp only [not_or] at hopen
      obtain ⟨hruns, hfull, hnone⟩ := hopen
      refine hevidence
        ⟨⟨List.length_pos_iff.mpr hruns, fun hpreviewOnly => hfull (hpreview.mp hpreviewOnly)⟩,
          fun _ => ?_⟩
      cases adjudication with
      | none => rfl
      | some answer => exact absurd ⟨answer, h⟩ hnone
    · intro answer hanswer
      by_contra hverdict
      rw [not_or] at hverdict
      exact houtcome ⟨answer, (hanswers answer).mp hanswer, hverdict.1, hverdict.2⟩

/-! ## The deep wall -/

/-- The injected runner is asked and completes the check with evidence. -/
def RunnerCompletes (platform : WallPlatform) (params : EvaluateCorrectnessWallParams) : Prop :=
  params.deepWall = some true ∧ params.deepWallAllowCompletion = some true ∧
    ∃ runner result evidence, params.deepWallRunner = some runner ∧
      runner (params.deepWallRequest platform) = .ok result ∧ result.completed = true ∧
      result.evidence = some evidence ∧ hasValidEvidence evidence = true

theorem runDeepWall_completed_iff (request : DeepWallRequest) (runner : Option DeepWallRunnerFn)
    (allowCompletion : Bool) :
    (runDeepWall request runner allowCompletion).status = .completed ↔
      allowCompletion = true ∧
        ∃ run result evidence, runner = some run ∧ run request = .ok result ∧
          result.completed = true ∧ result.evidence = some evidence ∧
          hasValidEvidence evidence = true := by
  cases runner with
  | none => exact iff_of_false nofun nofun
  | some run =>
    cases allowCompletion with
    | false => exact iff_of_false nofun nofun
    | true =>
      unfold runDeepWall
      simp only [true_and, Option.some.injEq]
      cases hresult : run request with
      | error error =>
        refine iff_of_false nofun ?_
        rintro ⟨_, result, _, rfl, hok, -⟩
        rw [hresult] at hok
        cases hok
      | ok result =>
        simp only
        by_cases hcompleted : result.completed = true
        · rw [if_pos hcompleted]
          cases hevidence : result.evidence.filter hasValidEvidence with
          | some evidence =>
            rw [Option.filter_eq_some_iff] at hevidence
            exact iff_of_true rfl
              ⟨run, result, evidence, rfl, hresult, hcompleted, hevidence.1, hevidence.2⟩
          | none =>
            refine iff_of_false nofun ?_
            rintro ⟨_, result', evidence, rfl, hok, -, hsome, hvalid⟩
            rw [hresult] at hok
            cases hok
            rw [hsome, Option.filter_some, if_pos hvalid] at hevidence
            cases hevidence
        · rw [if_neg hcompleted]
          refine iff_of_false nofun ?_
          rintro ⟨_, result', evidence, rfl, hok, hcompleted', -⟩
          rw [hresult] at hok
          cases hok
          exact hcompleted hcompleted'

/-- A completed deep wall hands on the evidence of the runner. -/
theorem runDeepWall_evidence {request : DeepWallRequest} {runner : Option DeepWallRunnerFn}
    {allowCompletion : Bool}
    (h : (runDeepWall request runner allowCompletion).status = .completed) :
    ∃ evidence, (runDeepWall request runner allowCompletion).evidence = some evidence ∧
      hasValidEvidence evidence = true := by
  obtain ⟨rfl, run, result, evidence, rfl, hresult, hcompleted, hevidence, hvalid⟩ :=
    (runDeepWall_completed_iff request runner allowCompletion).mp h
  refine ⟨evidence, ?_, hvalid⟩
  unfold runDeepWall
  simp only [hresult, hcompleted, if_true, hevidence, Option.filter_some, hvalid]

/-! ## The card -/

/-- A card that is blocked or inconclusive asks for review, and a completed deep wall has its
evidence attached. -/
structure KeepsReview (result : EvaluateCorrectnessWallResult) : Prop where
  review : result.verdictCard.verdict = .blocked ∨ result.verdictCard.verdict = .inconclusive →
    result.verdictCard.limits.requiresHumanReview = true
  evidence : result.receipt.deepWallStatus = some .completed →
    ∃ evidence, result.receipt.deepWallEvidence = some evidence ∧ hasValidEvidence evidence = true

/-- What is asked of the deep wall, where it is asked. -/
def deepWallOf (platform : WallPlatform) (params : EvaluateCorrectnessWallParams) : DeepWallResult :=
  runDeepWall (params.deepWallRequest platform) params.deepWallRunner
    (params.deepWallAllowCompletion = some true)

/-- The verdict of the card is the mapper's; the request for review is the mapper's or the deep
wall's. -/
theorem evaluateCorrectnessWall_card {platform : WallPlatform}
    {result : EvaluateCorrectnessWallResult}
    (hresult : evaluateCorrectnessWall platform params = .ok result) :
    (asksForReview result.verdictCard.verdict = false ↔ Settled params) ∧
      if params.deepWall = some true then
        result.verdictCard.limits.requiresHumanReview =
            decide ((deepWallOf platform params).status ≠ .completed) ∧
          result.receipt.deepWallStatus = some (deepWallOf platform params).status ∧
          result.receipt.deepWallEvidence = (deepWallOf platform params).evidence
      else
        result.verdictCard.limits.requiresHumanReview = asksForReview result.verdictCard.verdict ∧
          result.receipt.deepWallStatus = none := by
  unfold evaluateCorrectnessWall at hresult
  cases hadjudication : params.adjudication with
  | error error =>
    rw [hadjudication] at hresult
    cases hresult
  | ok adjudication =>
    rw [hadjudication] at hresult
    cases hresult
    by_cases hdeep : params.deepWall = some true
    · simp only [if_pos hdeep]
      exact ⟨(settled_iff hadjudication rfl rfl rfl).symm, rfl, rfl, rfl⟩
    · simp only [if_neg hdeep]
      exact ⟨(settled_iff hadjudication rfl rfl rfl).symm, rfl, trivial⟩

theorem asksForReview_iff (verdict : UserVerdict) :
    asksForReview verdict = true ↔ verdict = .blocked ∨ verdict = .inconclusive := by
  unfold asksForReview
  rw [Bool.or_eq_true, decide_eq_true_eq, decide_eq_true_eq]

/-- Every card keeps the review that its verdict asks for, unless an injected runner completes the
deep wall on inputs that are not settled. -/
theorem evaluateCorrectnessWall_keepsReview_iff (platform : WallPlatform)
    (params : EvaluateCorrectnessWallParams) (result : EvaluateCorrectnessWallResult)
    (hresult : evaluateCorrectnessWall platform params = .ok result) :
    KeepsReview result ↔ (RunnerCompletes platform params → Settled params) := by
  obtain ⟨hsettled, hcard⟩ := evaluateCorrectnessWall_card hresult
  by_cases hdeep : params.deepWall = some true
  · rw [if_pos hdeep] at hcard
    obtain ⟨hreview, hstatus, hevidence⟩ := hcard
    have hcompletes : RunnerCompletes platform params ↔
        (deepWallOf platform params).status = .completed := by
      unfold RunnerCompletes deepWallOf
      rw [runDeepWall_completed_iff, decide_eq_true_eq]
      exact and_iff_right hdeep
    rw [hcompletes]
    constructor
    · intro hkeeps hcompleted
      rw [← hsettled]
      by_contra hasks
      have hrequired := hkeeps.review ((asksForReview_iff _).mp (Bool.eq_true_of_not_eq_false hasks))
      rw [hreview, decide_eq_true_eq] at hrequired
      exact hrequired hcompleted
    · intro hcovered
      refine ⟨fun hverdict => ?_, fun hcompleted => ?_⟩
      · rw [hreview, decide_eq_true_eq]
        intro hcompleted
        have hquiet := hsettled.mpr (hcovered hcompleted)
        rw [(asksForReview_iff _).mpr hverdict] at hquiet
        cases hquiet
      · rw [hstatus, Option.some.injEq] at hcompleted
        rw [hevidence]
        exact runDeepWall_evidence hcompleted
  · rw [if_neg hdeep] at hcard
    obtain ⟨hreview, hstatus⟩ := hcard
    refine iff_of_true ⟨fun hverdict => ?_, fun hcompleted => ?_⟩ fun hcompletes =>
      absurd hcompletes.1 hdeep
    · rw [hreview, asksForReview_iff]
      exact hverdict
    · rw [hstatus] at hcompleted
      cases hcompleted

/-- A runner that completes every check. -/
def completingRunner : DeepWallRunnerFn := fun _ =>
  .ok ⟨true, some ⟨"sha256:abc", "docker run check", 0⟩, "hermetic ok"⟩

def samplePlatform : WallPlatform :=
  { now := "", signedAt := "", deepPhase := none, sha256Hex := id, hmacSha256Hex := fun _ _ => "" }

/-- A change outside of the scope with a deep wall that completes. -/
def leakParams : EvaluateCorrectnessWallParams :=
  { kind := "code-edit"
    approvedWriteScope := some ["docs/**"]
    previewOnly := some true
    diffText := some "+++ b/src/a.ts"
    deepWall := some true
    deepWallRunner := some completingRunner
    deepWallAllowCompletion := some true }

/-- The card is blocked, and asks for no review. -/
theorem leakParams_losesReview :
    ∃ result, evaluateCorrectnessWall samplePlatform leakParams = .ok result ∧
      ¬ KeepsReview result := by
  refine ⟨_, rfl, fun hkeeps => ?_⟩
  have hreview := hkeeps.review (.inl (by decide +kernel))
  revert hreview
  decide +kernel

/-- The same change within the scope needs no review. -/
theorem keepsReview_iff_inScope :
    ∃ result, evaluateCorrectnessWall samplePlatform
        { leakParams with approvedWriteScope := some ["src/**"] } = .ok result ∧
      (KeepsReview result ↔
        (RunnerCompletes samplePlatform { leakParams with approvedWriteScope := some ["src/**"] } →
          Settled { leakParams with approvedWriteScope := some ["src/**"] })) :=
  ⟨_, rfl, evaluateCorrectnessWall_keepsReview_iff samplePlatform
    { leakParams with approvedWriteScope := some ["src/**"] } _ rfl⟩

end AdaptorchWpl
