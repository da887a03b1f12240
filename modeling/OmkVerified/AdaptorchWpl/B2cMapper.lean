import OmkVerified.AdaptorchWpl.Adjudicator

/-!
# The verdict for the user

`b2c-mapper.ts`: adjudication and policy flags become a verdict card, and gates for applying and
submitting.
-/

namespace AdaptorchWpl

inductive UserVerdict
  | blocked
  | inconclusive
  | advisory
  | pass
deriving DecidableEq

/-- `USER_VERDICT_SEVERITY`. -/
def userVerdictSeverity : List UserVerdict := [.blocked, .inconclusive, .advisory, .pass]

def worstUserVerdict (current next : UserVerdict) : UserVerdict :=
  if userVerdictSeverity.idxOf current ≤ userVerdictSeverity.idxOf next then current else next

def verdictFromOa : VerdictState → UserVerdict
  | .confirmed => .pass
  | .corroboratedFailure => .advisory
  | .contradicted => .blocked
  | .indeterminate => .inconclusive
  | .verifierError => .inconclusive

/-- `POLICY_FLAG`. -/
inductive PolicyFlag
  | nonNegotiableBlocking
  | secretSuspect
  | candidateLeakSuspect
  | evidenceDagIncomplete
  | reproOverfitSuspect
  | lowDiscrimination
deriving DecidableEq

inductive UserRiskLevel
  | low
  | medium
  | high
  | critical
deriving DecidableEq

inductive VerdictNextAction
  | apply
  | deepCheck
  | regenerate
deriving DecidableEq

def riskFromUserVerdict (verdict : UserVerdict) (flags : List PolicyFlag) : UserRiskLevel :=
  if verdict = .blocked || flags.contains .nonNegotiableBlocking then .critical
  else
    match verdict with
    | .inconclusive => .high
    | .advisory => .medium
    | _ => .low

/-- `REASON_CODE_USER`: what a code says has passed, and what it says is blocked. -/
def reasonCodeUser : AdjudicationReasonCode → Option String × Option String
  | .scopeViolation => (none, some "Write scope violation detected by outcome adjudication.")
  | .schemaDrift => (none, some "Output schema does not match the expected contract.")
  | .contentCheckFailed => (none, some "Content verification failed for one or more artifacts.")
  | .noEvidenceOnSuccess => (none, some "Run reported success but left no usable evidence.")
  | .emptyArtifactContent =>
    (none, some "An artifact was present but contained no substantive content.")
  | .traceCheckFailed => (none, some "Trace verification failed for this run.")
  | .traceErrorSpan => (none, some "Error-level spans were found under a reported success.")
  | .minActionsUnmet => (none, some "Fewer actions were recorded than required for this kind.")
  | .runStatusUnparseable => (none, some "Run status could not be interpreted.")
  | .runFetchFailed => (none, some "Evidence could not be fetched for this run.")
  | .malformedRequest => (none, some "Adjudication request was malformed.")
  | .runNotTerminal => (none, some "Run has not reached a terminal status yet.")
  | .evidenceEmpty => (none, some "Evidence was too thin to reach a confident verdict.")
  | .failureReported => (none, some "The run reported failure and evidence agrees.")
  | .allChecksPassed => (some "All outcome adjudication checks passed.", none)

/-- The verdict of the flags alone, worst first. -/
def policyFlagVerdict (flags : List PolicyFlag) (previewOnly : Bool) : UserVerdict :=
  let blocking :=
    if flags.contains .nonNegotiableBlocking || flags.contains .candidateLeakSuspect ||
        flags.contains .secretSuspect then
      worstUserVerdict .pass .blocked
    else .pass
  let incomplete :=
    if flags.contains .evidenceDagIncomplete then worstUserVerdict blocking .inconclusive else blocking
  if previewOnly && (flags.contains .reproOverfitSuspect || flags.contains .lowDiscrimination) then
    worstUserVerdict incomplete .advisory
  else incomplete

def userVerdictFromPolicyFlags (flags : List PolicyFlag) (previewOnly : Bool) : Option UserVerdict :=
  let v := policyFlagVerdict flags previewOnly
  if v = .pass && flags.isEmpty then none else some v

structure MapToB2CInput where
  kind : String
  packetId : Option String := none
  dispatchRecordId : Option String := none
  runIds : List String
  previewOnly : Bool
  policyFlags : List PolicyFlag
  diffPaths : List String
  adjudication : Option AdjudicationResult := none
  evaluatedAt : Option String := none
  repairHints : Option (List String) := none

structure VerdictLimits where
  requiresHumanReview : Bool
  previewOnly : Bool
  code : Option String

structure VerdictCard where
  schemaVersion : Nat
  verdict : UserVerdict
  risk : UserRiskLevel
  limits : VerdictLimits
  passedChecks : List String
  blockedReasons : List String
  nextActions : List VerdictNextAction
  repairHints : Option (List String)
  packetId : Option String
  kind : String

structure VerificationReceipt where
  schemaVersion : Nat
  evaluatedAt : String
  kind : String
  packetId : Option String
  dispatchRecordId : Option String
  runIds : List String
  previewOnly : Bool
  canApply : Bool
  shouldSubmit : Bool
  policyFlags : List PolicyFlag
  adjudicationVerdict : Option VerdictState
  adjudicationReasonCode : Option AdjudicationReasonCode
  diffPaths : List String
  disclaimer : Option String

structure MapToB2COutput where
  verdictCard : VerdictCard
  receipt : VerificationReceipt

/-- `B2C_VERDICT_SCHEMA_VERSION`. -/
def b2cVerdictSchemaVersion : Nat := 1

/-- `BATCH1_NO_DOCKER_RUNNER`. -/
def batch1NoDockerRunner : String := "BATCH1_NO_DOCKER_RUNNER"

def buildNextActions (verdict : UserVerdict) (previewOnly canApply : Bool) :
    List VerdictNextAction :=
  match verdict with
  | .blocked => [.regenerate]
  | .inconclusive => if previewOnly then [.deepCheck, .regenerate] else [.deepCheck]
  | .advisory => if previewOnly then [.deepCheck, .apply] else [.apply]
  | .pass => if canApply then [.apply] else [.deepCheck]

def buildLimitsCode (previewOnly : Bool) : Option String :=
  if previewOnly then some batch1NoDockerRunner else none

def buildDisclaimer (previewOnly : Bool) (limitsCode : Option String) : Option String :=
  if previewOnly then
    some ("Preview-only evaluation (" ++ limitsCode.getD batch1NoDockerRunner ++
      "): no docker runner; apply and submit gates are conservative.")
  else none

/-- The verdict before the adjudication is looked at. -/
def verdictBeforeAdjudication (input : MapToB2CInput) : UserVerdict :=
  let start : UserVerdict :=
    if input.diffPaths.isEmpty && input.adjudication.isNone then .inconclusive else .pass
  match userVerdictFromPolicyFlags input.policyFlags input.previewOnly with
  | none => start
  | some policyVerdict => worstUserVerdict start policyVerdict

def userVerdictOf (input : MapToB2CInput) : UserVerdict :=
  match input.adjudication with
  | none => verdictBeforeAdjudication input
  | some adjudication =>
    worstUserVerdict (verdictBeforeAdjudication input) (verdictFromOa adjudication.verdict)

def passedChecksOf (input : MapToB2CInput) : List String :=
  match input.adjudication with
  | some adjudication => (reasonCodeUser adjudication.reasonCode).1.toList
  | none =>
    if userVerdictOf input = .pass && !input.diffPaths.isEmpty then
      ["Changed paths are within approved write scope (fast wall)."]
    else []

def blockedReasonsOf (input : MapToB2CInput) : List String :=
  let flags := input.policyFlags
  ((if input.diffPaths.isEmpty && input.adjudication.isNone then
      ["No changed paths were found in the diff; cannot assess write scope."] else []) ++
    (if flags.contains .secretSuspect then
      ["Diff lines may contain secrets or credentials; remove before proceeding."] else []) ++
    (if flags.contains .candidateLeakSuspect then
      ["One or more changed paths fall outside the approved write scope."] else []) ++
    (if flags.contains .evidenceDagIncomplete then
      ["Run evidence is required but was not evaluated in this receipt."] else []) ++
    (if input.previewOnly && flags.contains .lowDiscrimination then
      ["Preview-only mode: discrimination against production evidence is limited."] else []) ++
    (match input.adjudication with
      | some adjudication => (reasonCodeUser adjudication.reasonCode).2.toList
      | none => [])).eraseDups

/-- `now` is the time that stands in for a missing `evaluatedAt`. -/
def mapToB2C (now : String) (input : MapToB2CInput) : MapToB2COutput :=
  let userVerdict := userVerdictOf input
  let flags := input.policyFlags
  let limitsCode := buildLimitsCode input.previewOnly
  let canApply :=
    userVerdict = .pass && !flags.contains .nonNegotiableBlocking &&
      !flags.contains .candidateLeakSuspect && !flags.contains .secretSuspect &&
      input.adjudication.all fun adjudication => adjudication.verdict = .confirmed
  let shouldSubmit := userVerdict ≠ .blocked && !flags.contains .nonNegotiableBlocking
  { verdictCard :=
      { schemaVersion := b2cVerdictSchemaVersion
        verdict := userVerdict
        risk := riskFromUserVerdict userVerdict flags
        limits :=
          ⟨userVerdict = .blocked || userVerdict = .inconclusive, input.previewOnly, limitsCode⟩
        passedChecks := passedChecksOf input
        blockedReasons := blockedReasonsOf input
        nextActions := buildNextActions userVerdict input.previewOnly canApply
        repairHints := input.repairHints.filter fun hints => !hints.isEmpty
        packetId := input.packetId
        kind := input.kind }
    receipt :=
      { schemaVersion := b2cVerdictSchemaVersion
        evaluatedAt := input.evaluatedAt.getD now
        kind := input.kind
        packetId := input.packetId
        dispatchRecordId := input.dispatchRecordId
        runIds := input.runIds
        previewOnly := input.previewOnly
        canApply := canApply
        shouldSubmit := shouldSubmit
        policyFlags := flags
        adjudicationVerdict := input.adjudication.map (·.verdict)
        adjudicationReasonCode := input.adjudication.map (·.reasonCode)
        diffPaths := input.diffPaths
        disclaimer := buildDisclaimer input.previewOnly limitsCode } }

end AdaptorchWpl
