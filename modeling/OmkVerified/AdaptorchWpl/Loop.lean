import OmkVerified.AdaptorchWpl.Proofs.AdjudicationProofs

/-!
# What happens to a packet after a verdict

`loop.ts`: the verdict on a record becomes a disposition of its work packet, and the disposition
the next state of the packet.
-/

namespace AdaptorchWpl

inductive WorkPacketState
  | drafted
  | routed
  | awaitingApproval
  | dispatched
  | active
  | halting
  | rawTerminal
  | underReview
  | adjudicationFailed
  | confirmed
  | declined
  | retryQueued
  | escalated
  | closed
deriving DecidableEq

/-- What the loop reads of a work packet. -/
structure WorkPacket where
  retryCount : Int
  /-- `attempt_budget.max_dispatch_attempts` -/
  maxDispatchAttempts : Int

inductive ContradictedDispositionClass
  | escalate
  | rerouteOnRecurrence
  | retrySameTopology
deriving DecidableEq

/-- `CONTRADICTED_DISPOSITION_CLASS`. -/
def contradictedDispositionClass : AdjudicationReasonCode → ContradictedDispositionClass
  | .scopeViolation => .escalate
  | .schemaDrift => .rerouteOnRecurrence
  | .contentCheckFailed => .rerouteOnRecurrence
  | .noEvidenceOnSuccess => .retrySameTopology
  | .emptyArtifactContent => .retrySameTopology
  | .traceCheckFailed => .retrySameTopology
  | .traceErrorSpan => .retrySameTopology
  | .minActionsUnmet => .retrySameTopology
  | .runStatusUnparseable => .retrySameTopology
  | .runFetchFailed => .retrySameTopology
  | .malformedRequest => .retrySameTopology
  | .runNotTerminal => .retrySameTopology
  | .evidenceEmpty => .retrySameTopology
  | .failureReported => .retrySameTopology
  | .allChecksPassed => .retrySameTopology

inductive NextActionKind
  | retrySameTopology
  | reroute
  | escalate
  | none
deriving DecidableEq

structure VerdictDisposition where
  targetState : WorkPacketState
  nextActionKind : NextActionKind

def projectVerdictToDisposition (result : AdjudicationResult) (packet : WorkPacket) :
    VerdictDisposition :=
  match result.verdict with
  | .confirmed => ⟨.confirmed, .none⟩
  | .corroboratedFailure => ⟨.declined, .retrySameTopology⟩
  | .contradicted =>
    match contradictedDispositionClass result.reasonCode with
    | .escalate => ⟨.declined, .escalate⟩
    | .rerouteOnRecurrence =>
      -- a first occurrence is still tried again on the same topology
      if 1 ≤ packet.retryCount then ⟨.declined, .reroute⟩ else ⟨.declined, .retrySameTopology⟩
    | .retrySameTopology => ⟨.declined, .retrySameTopology⟩
  | .indeterminate => ⟨.declined, .escalate⟩
  | .verifierError => ⟨.declined, .escalate⟩

def decideNextTransition (packet : WorkPacket) (disposition : VerdictDisposition) :
    WorkPacketState :=
  if disposition.nextActionKind = .escalate then .escalated
  else if disposition.targetState = .confirmed then .confirmed
  else if packet.retryCount < packet.maxDispatchAttempts then .retryQueued
  else .closed

end AdaptorchWpl

/-!
# A scope violation is never tried again

The code of the worst problem survives each of the reductions, unless the verifier itself failed.
-/

namespace AdaptorchWpl

open Lib

/-! ## The reductions of the codes -/

theorem reduceReasonCodes_of_scopeViolation {codes : List AdjudicationReasonCode}
    (h : .scopeViolation ∈ codes) : reduceReasonCodes codes = .scopeViolation := by
  have hfound : adjudicationReasonCodes.find? (fun code => codes.contains code) =
      some .scopeViolation :=
    List.find?_cons_of_pos (List.contains_iff_mem.mpr h)
  unfold reduceReasonCodes
  rw [hfound]
  rfl

theorem reduceReasonCodes_perm {codes codes' : List AdjudicationReasonCode}
    (h : codes.Perm codes') : reduceReasonCodes codes = reduceReasonCodes codes' := by
  have hsame : (fun code => codes.contains code) = fun code => codes'.contains code := by
    funext code
    rw [Bool.eq_iff_iff, List.contains_iff_mem, List.contains_iff_mem]
    exact h.mem_iff
  unfold reduceReasonCodes
  rw [hsame]

variable {perRun perRun' : List RunOutcome} {entry : VerifierRegistryEntry} {traces : Payload}

theorem reduceVerdicts_perm (h : perRun.Perm perRun') :
    reduceVerdicts perRun = reduceVerdicts perRun' := by
  have hsame : (fun state => perRun.any fun outcome => decide (outcome.verdict = state)) =
      fun state => perRun'.any fun outcome => decide (outcome.verdict = state) := by
    funext state
    exact h.any_eq
  unfold reduceVerdicts
  rw [hsame]

theorem buildRecordReasonCode_perm (verdict : VerdictState) (h : perRun.Perm perRun') :
    buildRecordReasonCode verdict perRun = buildRecordReasonCode verdict perRun' :=
  reduceReasonCodes_perm ((h.filter _).map _)

/-! ## A run that violates its scope -/

/-- A check that reports a scope violation. -/
def IsScopeViolation (check : Except String CheckResult) : Prop :=
  ∃ result, check = .ok result ∧ result.ok = false ∧ result.code = some .scopeViolation

/-- A successful run with these artifacts and traces, of which a check of the verifier says that it
violates the scope of the packet. -/
structure ReportsScopeViolation (entry : VerifierRegistryEntry) (run : Run)
    (artifacts traces : Payload) : Prop where
  success : ∃ payload, run.getRun = .ok payload ∧ interpretRunStatus payload = .success
  getArtifacts_eq : run.getArtifacts = .ok artifacts
  getTraces_eq : run.getTraces = .ok traces
  artifacts_present : asList artifacts ≠ [] ∨ entry.allowZeroArtifacts = true
  traces_present : asList traces ≠ []
  violation :
    (∃ contentCheck, entry.contentCheck = some contentCheck ∧
      ∃ artifact ∈ asList artifacts, IsScopeViolation (contentCheck artifact)) ∨
    ∃ traceCheck, entry.traceCheck = some traceCheck ∧ IsScopeViolation (traceCheck traces)

theorem mem_of_mapM {α β ε : Type} {f : α → Except ε β} {a : α} {b : β} {as : List α} {bs : List β}
    (h : as.mapM f = .ok bs) (ha : a ∈ as) (hb : f a = .ok b) : b ∈ bs := by
  induction as generalizing bs with
  | nil => cases ha
  | cons c as ih =>
    rw [List.mapM_cons] at h
    cases hc : f c with
    | error error =>
      rw [hc] at h
      cases h
    | ok first =>
      cases hrest : as.mapM f with
      | error error =>
        rw [hc, hrest] at h
        cases h
      | ok rest =>
        rw [hc, hrest] at h
        cases h
        rcases List.mem_cons.mp ha with rfl | hmem
        · rw [hc] at hb
          cases hb
          exact List.mem_cons_self
        · exact List.mem_cons_of_mem _ (ih hrest hmem)

theorem scopeViolation_mem_checkProblem {name : String} {default : AdjudicationReasonCode}
    {result : CheckResult} (hok : result.ok = false) (hcode : result.code = some .scopeViolation) :
    .scopeViolation ∈ (checkProblem name default result).map (·.code) := by
  unfold checkProblem
  rw [hok, hcode]
  exact List.mem_singleton.mpr rfl

/-- The problems that the two checks of the verifier report are among those of the run. -/
theorem collectProblems_checks {artifactsList tracesList : List Json} {problems : List Problem}
    (h : collectProblems entry traces artifactsList tracesList = .ok problems) :
    (∀ contentCheck, entry.contentCheck = some contentCheck →
      ∃ content, artifactsList.mapM contentCheck = .ok content ∧
        ∀ result ∈ content,
          checkProblem "content-check-failed" .contentCheckFailed result ⊆ problems) ∧
    ∀ traceCheck, entry.traceCheck = some traceCheck →
      ∃ result, traceCheck traces = .ok result ∧
        checkProblem "trace-check-failed" .traceCheckFailed result ⊆ problems := by
  unfold collectProblems at h
  cases hcontent : entry.contentCheck with
  | none =>
    refine ⟨nofun, fun traceCheck htrace => ?_⟩
    cases hresult : traceCheck traces with
    | error error =>
      simp only [hcontent, htrace, hresult] at h
      cases h
    | ok result =>
      simp only [hcontent, htrace, hresult] at h
      cases h
      refine ⟨result, rfl, fun problem hproblem => ?_⟩
      simp [hproblem]
  | some contentCheck =>
    cases hchecked : artifactsList.mapM contentCheck with
    | error error =>
      simp only [hcontent, hchecked] at h
      cases h
    | ok content =>
      cases htrace : entry.traceCheck with
      | none =>
        simp only [hcontent, hchecked, htrace] at h
        cases h
        refine ⟨?_, nofun⟩
        rintro _ ⟨⟩
        refine ⟨content, hchecked, fun result hresult problem hproblem => ?_⟩
        have hmem := List.mem_flatMap.mpr ⟨result, hresult, hproblem⟩
        simp [hmem]
      | some traceCheck =>
        cases hresult : traceCheck traces with
        | error error =>
          simp only [hcontent, hchecked, htrace, hresult] at h
          cases h
        | ok traceResult =>
          simp only [hcontent, hchecked, htrace, hresult] at h
          cases h
          constructor
          · rintro _ ⟨⟩
            refine ⟨content, hchecked, fun result hresult problem hproblem => ?_⟩
            have hmem := List.mem_flatMap.mpr ⟨result, hresult, hproblem⟩
            simp [hmem]
          · rintro _ ⟨⟩
            refine ⟨traceResult, hresult, fun problem hproblem => ?_⟩
            simp [hproblem]

/-- Whatever else is wrong with the run, its problems keep the violation. -/
theorem scopeViolation_mem_collectProblems {artifactsList tracesList : List Json}
    {problems : List Problem}
    (h : collectProblems entry traces artifactsList tracesList = .ok problems)
    (hviolation :
      (∃ contentCheck, entry.contentCheck = some contentCheck ∧
        ∃ artifact ∈ artifactsList, IsScopeViolation (contentCheck artifact)) ∨
      ∃ traceCheck, entry.traceCheck = some traceCheck ∧ IsScopeViolation (traceCheck traces)) :
    .scopeViolation ∈ problems.map (·.code) := by
  obtain ⟨hcontents, htraces⟩ := collectProblems_checks h
  rcases hviolation with ⟨contentCheck, hentry, artifact, hartifact, result, hresult, hok, hcode⟩ |
    ⟨traceCheck, hentry, result, hresult, hok, hcode⟩
  · obtain ⟨content, hcontent, hsubset⟩ := hcontents contentCheck hentry
    exact List.map_subset _ (hsubset result (mem_of_mapM hcontent hartifact hresult))
      (scopeViolation_mem_checkProblem hok hcode)
  · obtain ⟨result', hresult', hsubset⟩ := htraces traceCheck hentry
    rw [hresult] at hresult'
    cases hresult'
    exact List.map_subset _ hsubset (scopeViolation_mem_checkProblem hok hcode)

/-- The verdict on the run is a contradiction with that code, unless one of the hooks failed. -/
theorem adjudicateRun_of_reportsScopeViolation {run : Run} {artifacts : Payload}
    (h : ReportsScopeViolation entry run artifacts traces) :
    (adjudicateRun entry run).verdict = .verifierError ∨
      ((adjudicateRun entry run).verdict = .contradicted ∧
        (adjudicateRun entry run).reasonCode = .scopeViolation) := by
  obtain ⟨payload, hpayload, hsuccess⟩ := h.success
  have hpresent : ((asList artifacts).isEmpty && !entry.allowZeroArtifacts ||
      (asList traces).isEmpty) = false := by
    rw [Bool.or_eq_false_iff, Bool.and_eq_false_iff, List.isEmpty_eq_false_iff,
      List.isEmpty_eq_false_iff, Bool.not_eq_false']
    exact ⟨h.artifacts_present, h.traces_present⟩
  unfold adjudicateRun
  simp only [hpayload, hsuccess, h.getArtifacts_eq, h.getTraces_eq, judgeEvidence, hpresent]
  cases hproblems : collectProblems entry traces (asList artifacts) (asList traces) with
  | error error => exact .inl rfl
  | ok problems =>
    have hmem := scopeViolation_mem_collectProblems hproblems h.violation
    have hnonempty : problems.isEmpty = false := by
      cases problems with
      | nil => cases hmem
      | cons problem problems => rfl
    refine .inr ?_
    simp only [decide_true, Bool.not_true, Bool.false_eq_true, if_false, Except.map, hnonempty]
    exact ⟨trivial, reduceReasonCodes_of_scopeViolation hmem⟩

/-! ## The record -/

/-- A record with such a run is contradicted for that reason, unless the verifier failed on a run. -/
theorem record_of_scopeViolation {outcome : RunOutcome} (hmem : outcome ∈ perRun)
    (houtcome : outcome.verdict = .verifierError ∨
      (outcome.verdict = .contradicted ∧ outcome.reasonCode = .scopeViolation)) :
    reduceVerdicts perRun = .verifierError ∨
      (reduceVerdicts perRun = .contradicted ∧
        buildRecordReasonCode .contradicted perRun = .scopeViolation) := by
  have hruns : perRun ≠ [] := List.ne_nil_of_mem hmem
  by_cases herror : ∃ other ∈ perRun, other.verdict = .verifierError
  · left
    rw [reduceVerdicts_eq_iff hruns]
    exact ⟨herror, fun other _ => Nat.zero_le _⟩
  · right
    have hnone : ∀ other ∈ perRun, other.verdict ≠ .verifierError :=
      fun other hother hverdict => herror ⟨other, hother, hverdict⟩
    obtain ⟨hverdict, hcode⟩ := houtcome.resolve_left (hnone outcome hmem)
    refine ⟨(reduceVerdicts_eq_contradicted hruns).mpr ⟨⟨outcome, hmem, hverdict⟩, hnone⟩, ?_⟩
    refine reduceReasonCodes_of_scopeViolation (List.mem_map.mpr ⟨outcome, ?_, hcode⟩)
    exact List.mem_filter.mpr ⟨hmem, decide_eq_true hverdict⟩

/-- The two dispositions that a scope violation can lead to are both escalated. -/
theorem decideNextTransition_escalated {result : AdjudicationResult} (packet : WorkPacket)
    (h : result.verdict = .verifierError ∨
      (result.verdict = .contradicted ∧ result.reasonCode = .scopeViolation)) :
    decideNextTransition packet (projectVerdictToDisposition result packet) = .escalated := by
  unfold projectVerdictToDisposition
  rcases h with herror | ⟨hverdict, hcode⟩
  · rw [herror]
    rfl
  · rw [hverdict, hcode]
    rfl

/-- A record with a run that violates its scope is escalated whatever else is known of it, and the
order of the runs changes neither the verdict nor the code. -/
theorem scopeViolation_escalated (kind : String) (get : String → VerifierRegistryEntry)
    (runs : List Run) (result : AdjudicationResult) (hresult : adjudicate kind runs get = .ok result) :
    ((∃ run ∈ runs, ∃ artifacts traces, ReportsScopeViolation (get kind) run artifacts traces) →
      ∀ packet : WorkPacket,
        decideNextTransition packet (projectVerdictToDisposition result packet) = .escalated) ∧
    ∀ (runs' : List Run) (result' : AdjudicationResult), runs'.Perm runs →
      adjudicate kind runs' get = .ok result' →
      result'.verdict = result.verdict ∧ result'.reasonCode = result.reasonCode := by
  have hrecord := record_of_adjudicate hresult
  constructor
  · rintro ⟨run, hrun, artifacts, traces, hreports⟩ packet
    refine decideNextTransition_escalated packet ?_
    by_cases hmalformed : kind = "" ∨ runs = []
    · rw [if_pos hmalformed] at hrecord
      exact .inl (congrArg Prod.fst hrecord)
    · rw [if_neg hmalformed, Prod.mk.injEq] at hrecord
      rw [hrecord.1, hrecord.2]
      rcases record_of_scopeViolation (List.mem_map_of_mem hrun)
        (adjudicateRun_of_reportsScopeViolation hreports) with herror | ⟨hverdict, hcode⟩
      · exact .inl herror
      · rw [hverdict]
        exact .inr ⟨rfl, hcode⟩
  · intro runs' result' hperm hresult'
    have hrecord' := record_of_adjudicate hresult'
    have hmap : (runs'.map (adjudicateRun (get kind))).Perm (runs.map (adjudicateRun (get kind))) :=
      hperm.map _
    have hempty : runs' = [] ↔ runs = [] := by
      constructor
      · rintro rfl
        exact hperm.nil_eq.symm
      · rintro rfl
        exact hperm.eq_nil
    simp only [hempty, reduceVerdicts_perm hmap, buildRecordReasonCode_perm _ hmap] at hrecord'
    rw [← hrecord, Prod.mk.injEq] at hrecord'
    exact hrecord'

/-- A verifier that rejects every artifact as out of scope. -/
def scopeVerifier : VerifierRegistryEntry :=
  { kind := "edit"
    contentCheck := some fun _ => .ok ⟨false, none, some .scopeViolation⟩ }

/-- A run that reports failure. -/
def failedRun : Run :=
  ⟨"c", .ok (some (.obj [("status", .str "failed")])), .ok (some (.arr [.str "log"])),
    .ok (some (.arr [.str "span"]))⟩

/-- Its violation is neither hidden by its empty artifact nor by another run that reports failure. -/
theorem scopeViolation_escalated_empty :
    ∃ result, adjudicate "edit" [failedRun, emptyRun] (registryGet [scopeVerifier]) = .ok result ∧
      decideNextTransition ⟨0, 3⟩ (projectVerdictToDisposition result ⟨0, 3⟩) = .escalated ∧
      ∀ result', adjudicate "edit" [emptyRun, failedRun] (registryGet [scopeVerifier]) = .ok result' →
        result'.verdict = result.verdict ∧ result'.reasonCode = result.reasonCode := by
  refine ⟨_, rfl, ?_, ?_⟩
  · refine (scopeViolation_escalated "edit" (registryGet [scopeVerifier]) [failedRun, emptyRun] _
      rfl).1 ⟨emptyRun, by simp, some (.arr [.str ""]), some (.arr [.str "span"]), ?_⟩ ⟨0, 3⟩
    exact ⟨⟨_, rfl, by decide +kernel⟩, rfl, rfl, .inl (by simp [asList]), by simp [asList],
      .inl ⟨_, rfl, .str "", by simp [asList], _, rfl, rfl, rfl⟩⟩
  · intro result' hresult'
    exact (scopeViolation_escalated "edit" (registryGet [scopeVerifier]) [failedRun, emptyRun] _
      rfl).2 _ _ (List.Perm.swap _ _ _) hresult'

end AdaptorchWpl
