import OmkVerified.Lib.JsonRange
import OmkVerified.Lib.Text

/-!
# Adjudication of runs

`adjudicator.ts` and `adjudicator-registry.ts`: the verdict on each run from what the service says
about it, and the verdict on a record from those of its runs.
-/

namespace AdaptorchWpl

open Lib

inductive VerdictState
  | confirmed
  | contradicted
  | corroboratedFailure
  | indeterminate
  | verifierError
deriving DecidableEq

/-- `ADJUDICATION_REASON_CODES`. -/
inductive AdjudicationReasonCode
  | scopeViolation
  | schemaDrift
  | contentCheckFailed
  | noEvidenceOnSuccess
  | emptyArtifactContent
  | traceCheckFailed
  | traceErrorSpan
  | minActionsUnmet
  | runStatusUnparseable
  | runFetchFailed
  | malformedRequest
  | runNotTerminal
  | evidenceEmpty
  | failureReported
  | allChecksPassed
deriving DecidableEq

/-- The codes, worst first. -/
def adjudicationReasonCodes : List AdjudicationReasonCode :=
  [.scopeViolation, .schemaDrift, .contentCheckFailed, .noEvidenceOnSuccess, .emptyArtifactContent,
    .traceCheckFailed, .traceErrorSpan, .minActionsUnmet, .runStatusUnparseable, .runFetchFailed,
    .malformedRequest, .runNotTerminal, .evidenceEmpty, .failureReported, .allChecksPassed]

def reduceReasonCodes (codes : List AdjudicationReasonCode) : AdjudicationReasonCode :=
  (adjudicationReasonCodes.find? fun code => codes.contains code).getD .allChecksPassed

structure CheckResult where
  ok : Bool
  reason : Option String := none
  code : Option AdjudicationReasonCode := none

/-- A payload of the service; `none` is `undefined`. -/
abbrev Payload := Option Json

/-- What the service says about one run. Each answer may also be an error. -/
structure Run where
  runId : String
  getRun : Except String Payload
  getArtifacts : Except String Payload
  getTraces : Except String Payload

/-- The artifacts or traces that were fetched for a run. -/
structure PayloadOfRun where
  runId : String
  payload : Payload

/-- A verifier of the registry. The hooks may throw. -/
structure VerifierRegistryEntry where
  kind : String
  allowZeroArtifacts : Bool := false
  expectedMinActions : Option Decimal := none
  noEvidenceOnSuccessIsContradiction : Bool := false
  contentCheck : Option (Json → Except String CheckResult) := none
  traceCheck : Option (Payload → Except String CheckResult) := none
  buildAugmentedPayload :
    Option (VerdictState → List PayloadOfRun → List PayloadOfRun → Except String Payload) := none

/-- `DEFAULT_VERIFIER`. -/
def defaultVerifier : VerifierRegistryEntry := { kind := "DEFAULT" }

/-- `createVerifierRegistry(entries).get(kind)`: of the entries of a kind the last one counts. -/
def registryGet (entries : List VerifierRegistryEntry) (kind : String) : VerifierRegistryEntry :=
  (entries.reverse.find? fun entry => entry.kind = kind).getD defaultVerifier

structure RunEvidence where
  run : Payload := none
  artifacts : Payload := none
  traces : Payload := none

structure RunOutcome where
  runId : String
  verdict : VerdictState
  reasonCode : AdjudicationReasonCode
  reason : String
  evidence : RunEvidence

structure AdjudicationResult where
  verdict : VerdictState
  reasonCode : AdjudicationReasonCode
  reason : String
  perRun : List RunOutcome
  augmentedPayload : Payload := none

/-! ## Reading payloads -/

/-- `NON_TERMINAL_STATUSES`. -/
def nonTerminalStatuses : List String :=
  ["pending", "queued", "running", "in_progress", "in-progress", "scheduled", "dispatched",
    "starting", "initializing"]

/-- `SUCCESS_STATUSES`. -/
def successStatuses : List String := ["completed", "success", "succeeded", "done", "ok", "finished"]

/-- `FAILURE_STATUSES`. -/
def failureStatuses : List String :=
  ["failed", "failure", "error", "errored", "cancelled", "canceled", "timeout", "timed_out",
    "aborted"]

inductive RunStatusBranch
  | nonTerminal
  | success
  | failure
  | unparseable
deriving DecidableEq

/-- The first of the fields that holds a text. An array has none of them. -/
def readStringField (value : Json) (keys : List String) : Option String :=
  keys.findSome? fun key =>
    match value.get? key with
    | some (.str field) => some field
    | _ => none

def isOneOf (statuses : List String) (text : List Char) : Bool :=
  statuses.any fun status => status.toList = text

def interpretRunStatus (run : Payload) : RunStatusBranch :=
  match run.bind fun value => readStringField value ["status", "state"] with
  | none => .unparseable
  | some status =>
    let normalized := lowerCase status.toList
    if isOneOf nonTerminalStatuses normalized then .nonTerminal
    else if isOneOf successStatuses normalized then .success
    else if isOneOf failureStatuses normalized then .failure
    else .unparseable

/-- The arrays that a payload may be wrapped around. -/
def listKeys : List String := ["items", "artifacts", "traces", "spans", "entries", "data", "results"]

def asList : Payload → List Json
  | none | some .null => []
  | some (.arr items) => items
  | some value =>
    (listKeys.findSome? fun key =>
      match value.get? key with
      | some (.arr items) => some items
      | _ => none).getD [value]

/-- `a ?? b` on the fields of a value. -/
def firstPresent (value : Json) (keys : List String) : Option Json :=
  keys.findSome? fun key =>
    match value.get? key with
    | some .null => none
    | field => field

def hasSubstance : Json → Bool
  | .str text => trim text.toList ≠ []
  | .arr items => 0 < items.length
  | .obj fields =>
    match firstPresent (.obj fields) ["size", "byteLength", "length"] with
    | some (.num size) => 0 < size.mantissa
    | _ =>
      match readStringField (.obj fields) ["content", "text", "body"] with
      | some text => trim text.toList ≠ []
      | none => true
  | _ => true

def isErrorSpan (span : Json) : Bool :=
  (match readStringField span ["level", "severity", "status"] with
    | some level => lowerCase level.toList = "error".toList
    | none => false) ||
    span.get? "error" = some (.bool true) || span.get? "isError" = some (.bool true)

def countErrorSpans (traces : List Json) : Nat := traces.countP isErrorSpan

def actionMarker (span : Json) : Option String :=
  readStringField span ["action", "tool_call", "toolCall", "kind", "type"]

def isActionMarker (marker : String) : Bool :=
  ["action", "tool", "write", "edit", "call"].any fun part => matchesPart part.toList marker.toList

/-- Without a marker on any span every span counts. -/
def countActionSpans (traces : List Json) : Nat :=
  let markers := traces.filterMap actionMarker
  if 0 < markers.length then markers.countP isActionMarker else traces.length

/-! ## One run -/

structure Problem where
  code : AdjudicationReasonCode
  message : String

/-- A failed check as a problem: its own code or the default one. -/
def checkProblem (name : String) (default : AdjudicationReasonCode) (result : CheckResult) :
    List Problem :=
  if result.ok then []
  else
    [⟨result.code.getD default,
      name ++
        match result.reason with
        | some reason => if reason = "" then "" else ": " ++ reason
        | none => ""⟩]

/-- What is wrong with the evidence of a run that reports success. -/
def collectProblems (entry : VerifierRegistryEntry) (traces : Payload)
    (artifactsList tracesList : List Json) : Except String (List Problem) := do
  let empty : List Problem :=
    if artifactsList.any fun artifact => !hasSubstance artifact then
      [⟨.emptyArtifactContent, "artifact-empty-or-whitespace"⟩]
    else []
  let content ← match entry.contentCheck with
    | none => pure []
    | some contentCheck => artifactsList.mapM contentCheck
  let trace ← match entry.traceCheck with
    | none => pure []
    | some traceCheck => (traceCheck traces).map ([·])
  let errorSpanCount := countErrorSpans tracesList
  let errorSpans : List Problem :=
    if 0 < errorSpanCount then
      [⟨.traceErrorSpan, s!"error-span-scan: {errorSpanCount} error span(s) found"⟩]
    else []
  let minActions : List Problem :=
    match entry.expectedMinActions with
    | none => []
    | some expected =>
      let actionCount := countActionSpans tracesList
      if 0 < expected.mantissa ∧ expected.le (Decimal.ofNat actionCount) = false then
        [⟨.minActionsUnmet, s!"expected-min-actions-not-met: found {actionCount}, needed " ++
          String.ofList (Json.formatNumber expected)⟩]
      else []
  pure
    (empty ++ content.flatMap (checkProblem "content-check-failed" .contentCheckFailed) ++
      trace.flatMap (checkProblem "trace-check-failed" .traceCheckFailed) ++ errorSpans ++ minActions)

/-- The verdict on a terminal run from its evidence. -/
def judgeEvidence (entry : VerifierRegistryEntry) (runId : String) (isSuccess : Bool)
    (evidence : RunEvidence) : Except String RunOutcome :=
  let artifactsList := asList evidence.artifacts
  let tracesList := asList evidence.traces
  let artifactsEmpty := artifactsList.isEmpty
  let tracesEmpty := tracesList.isEmpty
  if (artifactsEmpty && !entry.allowZeroArtifacts) || tracesEmpty then
    if isSuccess && artifactsEmpty && tracesEmpty && entry.noEvidenceOnSuccessIsContradiction then
      .ok ⟨runId, .contradicted, .noEvidenceOnSuccess, "no-evidence-on-success-is-contradiction",
        evidence⟩
    else
      let reasons :=
        (if artifactsEmpty && !entry.allowZeroArtifacts then ["artifacts-empty-unexpected"] else []) ++
          (if tracesEmpty then ["traces-empty-unexpected"] else [])
      .ok ⟨runId, .indeterminate, .evidenceEmpty, ",".intercalate reasons, evidence⟩
  else if !isSuccess then
    .ok ⟨runId, .corroboratedFailure, .failureReported, "failure-reported", evidence⟩
  else
    (collectProblems entry evidence.traces artifactsList tracesList).map fun problems =>
      if problems.isEmpty then
        ⟨runId, .confirmed, .allChecksPassed, "all-checks-passed", evidence⟩
      else
        ⟨runId, .contradicted, reduceReasonCodes (problems.map (·.code)),
          "; ".intercalate (problems.map (·.message)), evidence⟩

/-- An error of a fetch or a hook is a verdict on the run as well. -/
def adjudicateRun (entry : VerifierRegistryEntry) (run : Run) : RunOutcome :=
  let failed (evidence : RunEvidence) (error : String) : RunOutcome :=
    ⟨run.runId, .verifierError, .runFetchFailed, "run-adjudication-failed: " ++ error, evidence⟩
  match run.getRun with
  | .error error => failed {} error
  | .ok payload =>
    let evidence : RunEvidence := { run := payload }
    match interpretRunStatus payload with
    | .unparseable =>
      ⟨run.runId, .verifierError, .runStatusUnparseable, "run-status-unparseable", evidence⟩
    | .nonTerminal => ⟨run.runId, .indeterminate, .runNotTerminal, "run-not-terminal", evidence⟩
    | branch =>
      match run.getArtifacts with
      | .error error => failed evidence error
      | .ok artifacts =>
        match run.getTraces with
        | .error error => failed { evidence with artifacts := artifacts } error
        | .ok traces =>
          let complete : RunEvidence :=
            { evidence with artifacts := artifacts, traces := traces }
          match judgeEvidence entry run.runId (branch = .success) complete with
          | .error error => failed complete error
          | .ok outcome => outcome

/-! ## The record -/

/-- The verdicts, worst first. -/
def verdictPriority : List VerdictState :=
  [.verifierError, .contradicted, .corroboratedFailure, .indeterminate, .confirmed]

def reduceVerdicts (perRun : List RunOutcome) : VerdictState :=
  (verdictPriority.find? fun state => perRun.any fun outcome => outcome.verdict = state).getD
    .confirmed

def verdictText : VerdictState → String
  | .confirmed => "CONFIRMED"
  | .contradicted => "CONTRADICTED"
  | .corroboratedFailure => "CORROBORATED-FAILURE"
  | .indeterminate => "INDETERMINATE"
  | .verifierError => "VERIFIER-ERROR"

def contributing (verdict : VerdictState) (perRun : List RunOutcome) : List RunOutcome :=
  perRun.filter fun outcome => outcome.verdict = verdict

def buildRecordReason (verdict : VerdictState) (perRun : List RunOutcome) : String :=
  match perRun with
  | [outcome] => outcome.reason
  | _ =>
    verdictText verdict ++ " via " ++
      "; ".intercalate
        ((contributing verdict perRun).map fun outcome => outcome.runId ++ ": " ++ outcome.reason)

def buildRecordReasonCode (verdict : VerdictState) (perRun : List RunOutcome) :
    AdjudicationReasonCode :=
  reduceReasonCodes ((contributing verdict perRun).map (·.reasonCode))

/-- The verdict on the runs of a record. Only the builder of the corrective payload can make it
fail. -/
def adjudicate (kind : String) (runs : List Run) (get : String → VerifierRegistryEntry) :
    Except String AdjudicationResult :=
  if kind = "" then
    .ok ⟨.verifierError, .malformedRequest, "malformed-request-missing-kind", [], none⟩
  else if runs = [] then
    .ok ⟨.verifierError, .malformedRequest, "malformed-request-empty-run-ids", [], none⟩
  else
    let entry := get kind
    let perRun := runs.map (adjudicateRun entry)
    let verdict := reduceVerdicts perRun
    let result : AdjudicationResult :=
      ⟨verdict, buildRecordReasonCode verdict perRun, buildRecordReason verdict perRun, perRun, none⟩
    match entry.buildAugmentedPayload with
    | none => .ok result
    | some build =>
      if verdict = .confirmed then .ok result
      else
        (build verdict
          (perRun.map fun outcome => ⟨outcome.runId, outcome.evidence.artifacts⟩)
          (perRun.map fun outcome => ⟨outcome.runId, outcome.evidence.traces⟩)).map fun payload =>
          { result with augmentedPayload := payload }

end AdaptorchWpl
