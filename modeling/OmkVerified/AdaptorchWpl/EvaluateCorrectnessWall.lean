import OmkVerified.Lib.Pattern
import OmkVerified.Lib.Search
import OmkVerified.AdaptorchWpl.B2cMapper

/-!
# The fast wall

`policy-wall.ts`: which paths a unified diff changes, whether they lie in the approved scope, and
whether its lines look like credentials. The diff is read line by line.
-/

namespace AdaptorchWpl

open Lib

/-! ## Shapes of credentials -/

/-- A literal text under the flag `i`: ASCII letters match both cases. -/
def ignoringCase (text : String) : Pattern :=
  .literal (fun p c => c.toLower == p.toLower) text.toList

/-- A literal text. -/
def exactly (text : String) : Pattern := .literal (fun p c => p == c) text.toList

/-- One of the characters of `text`. -/
def anyOf (text : String) : Char → Bool := fun c => text.toList.contains c

/-- A letter or digit, or one of the characters of `text`. -/
def alnumOr (text : String) : Char → Bool := fun c => c.isAlphanum || anyOf text c

/-- `\s*=`. -/
def assigned : Pattern := .seq (.many isWhitespace 0) (exactly "=")

/-- `SECRET_LINE_PATTERNS`. After the `v` of the first one the end of the line is a boundary too. -/
def secretLinePatterns : List Pattern :=
  [.seq (ignoringCase ".env") (.alt (exactly ".") .boundary),
    .seq (ignoringCase "BEGIN ")
      (.seq (.choice (ignoringCase "RSA ") [ignoringCase "EC ", ignoringCase "OPENSSH ", .empty])
        (ignoringCase "PRIVATE KEY")),
    .seq (ignoringCase "api") (.seq (.opt (anyOf "_-")) (.seq (ignoringCase "key") assigned)),
    .seq (ignoringCase "secret") (.seq (.opt (anyOf "_-")) (.seq (ignoringCase "key") assigned)),
    .seq (ignoringCase "password") assigned,
    .seq .boundary
      (.seq (ignoringCase "sk-")
        (.seq
          (.choice (ignoringCase "ant")
            [ignoringCase "proj", ignoringCase "live", ignoringCase "test"])
          (.many (alnumOr "-_") 8))),
    .seq .boundary (.seq (ignoringCase "sk-") (.many (alnumOr "") 20)),
    .seq .boundary (.seq (exactly "ghp_") (.many (alnumOr "") 20)),
    .seq .boundary
      (.seq (exactly "xox")
        (.seq (.cls (anyOf "baprs")) (.seq (exactly "-") (.many (alnumOr "-") 10))))]

/-- One of the patterns finds something in the text. -/
def matchesSecret (body : List Char) : Bool := secretLinePatterns.any fun pattern => pattern.test body

/-! ## Reading the diff -/

/-- `text.split(/\r?\n/)`. -/
def splitLines : List Char → List (List Char)
  | [] => [[]]
  | '\r' :: '\n' :: rest => [] :: splitLines rest
  | '\n' :: rest => [] :: splitLines rest
  | c :: rest =>
    match splitLines rest with
    | line :: lines => (c :: line) :: lines
    | [] => [[c]]

/-- The lines of a diff that is there. -/
def diffLines (diffText : Option String) : List (List Char) :=
  match diffText with
  | none => []
  | some text => if trim text.toList = [] then [] else splitLines text.toList

/-- What is scanned of a line: the added text, where the line is not a header. -/
def scannedBody (line : List Char) : Option (List Char) :=
  if !"+".toList.isPrefixOf line || "+++".toList.isPrefixOf line then none
  else some (line.drop 1)

def scanDiffLinesForSecrets (diffText : Option String) : Bool :=
  (diffLines diffText).any fun line => (scannedBody line).any matchesSecret

/-- The path of a `+++` line. -/
def headerPath (line : List Char) : Option (List Char) :=
  if "+++ ".toList.isPrefixOf line then
    let raw := trim (line.drop 4)
    if raw = "/dev/null".toList then none
    else
      let path := if "b/".toList.isPrefixOf raw then raw.drop 2 else raw
      if 0 < path.length then some path else none
  else none

/-- The changed paths, each once and in the order of their texts. -/
def parseDiffPaths (diffText : Option String) : List String :=
  (((diffLines diffText).filterMap headerPath).map String.ofList).eraseDups.mergeSort
    fun a b => !jsLt b a

/-! ## The approved scope -/

def normalizePathForMatch (path : List Char) : List Char :=
  path.map fun c => if c = '\\' then '/' else c

/-- `path` is `prefix` or lies under it. -/
def isAtOrUnder (directory path : List Char) : Bool :=
  path = directory || (directory ++ ['/']).isPrefixOf path

/-- One entry of the scope. -/
def matchesScopeEntry (normalized pattern : List Char) : Bool :=
  let p := normalizePathForMatch (trim pattern)
  if p.length = 0 then false
  else if "/**".toList.isSuffixOf p then
    let directory := p.take (p.length - 3)
    directory = [] || isAtOrUnder directory normalized
  else
    match cutFirst "**".toList p with
    | some (head, _) =>
      let directory := if "/".toList.isSuffixOf head then head.dropLast else head
      directory = [] || isAtOrUnder directory normalized
    | none => isAtOrUnder p normalized

def pathMatchesApprovedScope (filePath : String) (approvedWriteScope : List String) : Bool :=
  approvedWriteScope.any fun pattern =>
    matchesScopeEntry (normalizePathForMatch filePath.toList) pattern.toList

/-! ## The wall -/

structure FastWallInput where
  diffText : Option String := none
  approvedWriteScope : Option (List String) := none
  runIds : Option (List String) := none
  previewOnly : Option Bool := none

structure FastWallResult where
  flags : List PolicyFlag
  diffPaths : List String

def runFastWall (input : FastWallInput) : FastWallResult :=
  let diffPaths := parseDiffPaths input.diffText
  let scope := input.approvedWriteScope.getD []
  let previewOnly := input.previewOnly = some true
  let runIds := input.runIds.getD []
  let outOfScope := diffPaths.filter fun p => !pathMatchesApprovedScope p scope
  let scopeFlags : List PolicyFlag :=
    if 0 < scope.length ∧ 0 < diffPaths.length ∧ 0 < outOfScope.length then
      [.candidateLeakSuspect, .nonNegotiableBlocking]
    else []
  let evidenceFlags : List PolicyFlag :=
    if 0 < runIds.length ∧ ¬ previewOnly then [.evidenceDagIncomplete] else []
  let previewFlags : List PolicyFlag :=
    if previewOnly then [.reproOverfitSuspect, .lowDiscrimination] else []
  let secretFlags : List PolicyFlag :=
    if scanDiffLinesForSecrets input.diffText then [.secretSuspect, .nonNegotiableBlocking] else []
  ⟨scopeFlags ++ evidenceFlags ++ previewFlags ++ secretFlags, diffPaths⟩

end AdaptorchWpl

/-!
# The deep wall

`deep-wall.ts`: a check by a runner that the caller supplies. It counts as completed only with
evidence.
-/

namespace AdaptorchWpl

open Lib

inductive DeepWallStatus
  | notRequested
  | unavailable
  | completed
deriving DecidableEq

inductive DeepWallPhase
  | stub
  | docker
deriving DecidableEq

/-- The flags that the deep wall adds to a receipt. -/
inductive DeepWallFlag
  | deepWallUnavailable
  | deepRunnerNotWired
  | deepRunnerEvidenceMissing
  | deepRunnerError
deriving DecidableEq

structure DeepWallRunnerEvidence where
  digest : String
  command : String
  exitCode : JsNumber

structure DeepWallRunnerResult where
  /-- `status === "completed"`; the other status is `unavailable`. -/
  completed : Bool
  evidence : Option DeepWallRunnerEvidence
  message : String

/-- What a runner is told. -/
structure DeepWallRequest where
  kind : String
  runIds : List String
  packetId : Option String
  phase : DeepWallPhase

/-- A runner may throw. -/
abbrev DeepWallRunnerFn := DeepWallRequest → Except String DeepWallRunnerResult

structure DeepWallResult where
  status : DeepWallStatus
  message : String
  evidence : Option DeepWallRunnerEvidence := none
  limits : List String := []
  runnerFlags : List DeepWallFlag := []

/-- `DEFAULT_DEEP_WALL_MESSAGE`. -/
def defaultDeepWallMessage : String :=
  "Deep correctness check is not available in this environment (no docker runner). " ++
    "Use preview fast wall or run checks locally."

/-- `DOCKER_PHASE_MESSAGE`. -/
def dockerPhaseMessage : String :=
  "Deep wall docker phase requested but hermetic runner is not wired yet; " ++
    "fast wall and local CI remain authoritative."

def hasValidEvidence (evidence : DeepWallRunnerEvidence) : Bool :=
  evidence.digest ≠ "" && evidence.command ≠ "" && evidence.exitCode.isFinite

/-- The phase that the environment asks for. -/
def resolveDeepWallPhaseFromEnv (raw : Option String) : DeepWallPhase :=
  if raw.map (fun text => lowerCase (trim text.toList)) = some "docker".toList then .docker else .stub

def isDeepRunnerCompletionAllowed : Bool := false

def runDeepWallStub (request : DeepWallRequest) : DeepWallResult :=
  { status := .unavailable
    message := if request.phase = .docker then dockerPhaseMessage else defaultDeepWallMessage
    limits := [batch1NoDockerRunner] }

def runDeepWall (request : DeepWallRequest) (runner : Option DeepWallRunnerFn)
    (allowCompletion : Bool) : DeepWallResult :=
  match runner, allowCompletion with
  | some runner, true =>
    match runner request with
    | .error error =>
      { status := .unavailable
        message := "Deep runner threw: " ++ error
        runnerFlags := [.deepRunnerError] }
    | .ok result =>
      if result.completed then
        match result.evidence.filter hasValidEvidence with
        | some evidence =>
          { status := .completed, message := result.message, evidence := some evidence }
        | none =>
          { status := .unavailable
            message :=
              "Deep runner reported completed without valid evidence; downgraded to unavailable."
            runnerFlags := [.deepRunnerEvidenceMissing] }
      else { status := .unavailable, message := result.message }
  | _, _ => runDeepWallStub request

end AdaptorchWpl

/-!
# The correctness wall

`evaluate-correctness-wall.ts`: the fast wall, the adjudication of the runs and the deep wall put
together, with `repair-loop.ts`, `signed-receipt.ts` and `receipt-signature.ts`.
-/

namespace AdaptorchWpl

open Lib

/-! ## Repair hints -/

/-- `REASON_REPAIR`. -/
def reasonRepair : AdjudicationReasonCode → Option String
  | .scopeViolation =>
    some "Narrow the change to approved write paths only, then re-run the wall."
  | .schemaDrift => some "Align outputs with the expected schema contract before resubmitting."
  | .contentCheckFailed => some "Fix failing content checks on artifacts, then re-adjudicate."
  | .noEvidenceOnSuccess => some "Attach terminal run evidence before claiming success."
  | .emptyArtifactContent =>
    some "Ensure artifacts contain substantive content, not placeholders."
  | .traceCheckFailed => some "Resolve trace verification failures on the reported run."
  | .traceErrorSpan => some "Clear error spans under a success status or mark the run failed."
  | .minActionsUnmet => some "Record the minimum required actions for this kind."
  | .runFetchFailed => some "Retry fetching run evidence when the runner is available."
  | .evidenceEmpty => some "Widen verification scope or wait for terminal run artifacts."
  | .runStatusUnparseable | .malformedRequest | .runNotTerminal | .failureReported
  | .allChecksPassed => none

structure RepairHintInput where
  userVerdict : UserVerdict
  policyFlags : List PolicyFlag
  adjudicationReasonCode : Option AdjudicationReasonCode
  previewOnly : Bool
  diffPaths : List String

def deriveRepairHints (input : RepairHintInput) : List String :=
  let flags := input.policyFlags
  let hints :=
    (if flags.contains .candidateLeakSuspect then
      ["Remove or relocate paths outside the approved write scope."] else []) ++
    (if flags.contains .secretSuspect then
      ["Remove secret-like material from the diff; never commit credentials or private keys."]
      else []) ++
    (if flags.contains .nonNegotiableBlocking then
      ["Resolve non-negotiable policy blocks before apply or submit."] else []) ++
    (if flags.contains .evidenceDagIncomplete then
      ["Complete the evidence DAG with terminal run ids (non-preview evaluation)."] else []) ++
    (if input.previewOnly && flags.contains .lowDiscrimination then
      ["Run a non-preview Deep Check with runner evidence for higher discrimination."] else []) ++
    (input.adjudicationReasonCode.bind reasonRepair).toList ++
    (if input.userVerdict = .inconclusive && input.diffPaths.isEmpty then
      ["Provide a non-empty diff or explicit changed paths."] else [])
  let blocked :=
    if input.userVerdict = .blocked && hints.isEmpty then
      ["Regenerate the change set after addressing blocked reasons."] else []
  let advisory :=
    if input.userVerdict = .advisory then
      ["Review advisory signals before applying in production."] else []
  (hints ++ blocked ++ advisory).eraseDups

/-! ## The receipt -/

/-- `CORRECTNESS_WALL_VERSION`. -/
def correctnessWallVersion : String := "2026-07-08.batch2"

/-- What comes from outside: the times, the environment and the hashes, as hexadecimal texts. -/
structure WallPlatform where
  now : String
  signedAt : String
  /-- `OMK_WALL_DEEP_PHASE` -/
  deepPhase : Option String
  sha256Hex : String → String
  hmacSha256Hex : (secret : String) → (material : String) → String

structure VerificationDigest where
  patchHash : Option String
  evidenceHashes : List String
  compositeHash : String
  wallVersion : Option String

def buildVerificationDigest (platform : WallPlatform) (patchText : Option String)
    (evidenceChunks : List String) (wallVersion : String) : VerificationDigest :=
  let patchHash := (patchText.filter fun text => text ≠ "").map platform.sha256Hex
  let evidenceHashes := (evidenceChunks.filter fun chunk => chunk ≠ "").map platform.sha256Hex
  let compositeMaterial := "|".intercalate (wallVersion :: patchHash.getD "" :: evidenceHashes)
  { patchHash
    evidenceHashes
    compositeHash := platform.sha256Hex (if compositeMaterial = "" then "empty" else compositeMaterial)
    wallVersion := if wallVersion = "" then none else some wallVersion }

structure SignedWallReceipt where
  digestCompositeHash : String
  wallVersion : String
  signature : String
  signedAt : String

def signWallReceipt (platform : WallPlatform) (digest : VerificationDigest)
    (wallVersion secret : String) : SignedWallReceipt :=
  let material := "|".intercalate [wallVersion, digest.compositeHash, platform.signedAt]
  ⟨digest.compositeHash, wallVersion, platform.hmacSha256Hex secret material, platform.signedAt⟩

/-- The receipt of the mapper with what the wall adds to it. -/
structure WallReceipt where
  mapped : VerificationReceipt
  /-- What is appended to `policyFlags`. -/
  deepWallFlags : List DeepWallFlag := []
  verificationDigest : VerificationDigest
  wallVersion : String
  signedReceipt : Option SignedWallReceipt
  deepWallStatus : Option DeepWallStatus := none
  deepWallEvidence : Option DeepWallRunnerEvidence := none

/-! ## The wall -/

structure EvaluateCorrectnessWallParams where
  kind : String
  runIds : Option (List String) := none
  dispatchRecordId : Option String := none
  approvedWriteScope : Option (List String) := none
  previewOnly : Option Bool := none
  diffText : Option String := none
  packetId : Option String := none
  /-- What the service says about the run that is asked for at some position. -/
  client : Option (Nat → String → Run) := none
  /-- `registry.get` -/
  registry : Option (String → VerifierRegistryEntry) := none
  deepWall : Option Bool := none
  deepWallRunner : Option DeepWallRunnerFn := none
  deepWallAllowCompletion : Option Bool := none
  receiptSigningSecret : Option String := none

namespace EvaluateCorrectnessWallParams

variable (params : EvaluateCorrectnessWallParams)

def isPreviewOnly : Bool := params.previewOnly = some true

def requestedRunIds : List String := params.runIds.getD []

/-- The outcome of the adjudication, where there is one. It may fail. -/
def adjudication : Except String (Option AdjudicationResult) :=
  match params.client with
  | none => .ok none
  | some client =>
    if 0 < params.requestedRunIds.length ∧ ¬ params.isPreviewOnly then
      (adjudicate params.kind
        (params.requestedRunIds.mapIdx fun i runId => { client i runId with runId := runId })
        (params.registry.getD (registryGet []))).map some
    else .ok none

/-- What the deep wall is asked. -/
def deepWallRequest (platform : WallPlatform) : DeepWallRequest :=
  ⟨params.kind, params.requestedRunIds, params.packetId,
    resolveDeepWallPhaseFromEnv platform.deepPhase⟩

end EvaluateCorrectnessWallParams

structure EvaluateCorrectnessWallResult where
  verdictCard : VerdictCard
  receipt : WallReceipt

/-- The flags of a result of the deep wall, each once. -/
def deepWallFlagsOf (deep : DeepWallResult) : List DeepWallFlag :=
  let unavailable : List DeepWallFlag :=
    if deep.status ≠ .completed then
      .deepWallUnavailable :: if !isDeepRunnerCompletionAllowed then [.deepRunnerNotWired] else []
    else []
  (unavailable ++ deep.runnerFlags).eraseDups

/-- The card and the receipt with the result of the deep wall. -/
def mergeDeepWall (deep : DeepWallResult) (result : EvaluateCorrectnessWallResult) :
    EvaluateCorrectnessWallResult :=
  { verdictCard :=
      { result.verdictCard with
        limits :=
          { result.verdictCard.limits with
            requiresHumanReview := deep.status ≠ .completed
            code := deep.limits.head?.or result.verdictCard.limits.code }
        blockedReasons := (result.verdictCard.blockedReasons ++ [deep.message]).eraseDups }
    receipt :=
      { result.receipt with
        deepWallFlags := deepWallFlagsOf deep
        deepWallStatus := some deep.status
        deepWallEvidence := deep.evidence } }

def evaluateCorrectnessWall (platform : WallPlatform) (params : EvaluateCorrectnessWallParams) :
    Except String EvaluateCorrectnessWallResult :=
  let wall :=
    runFastWall
      { diffText := params.diffText
        approvedWriteScope := params.approvedWriteScope
        runIds := some params.requestedRunIds
        previewOnly := some params.isPreviewOnly }
  params.adjudication.map fun adjudication =>
    let policyFlags :=
      if adjudication.isSome then wall.flags.filter fun flag => flag ≠ .evidenceDagIncomplete
      else wall.flags
    let input : MapToB2CInput :=
      { kind := params.kind
        packetId := params.packetId
        dispatchRecordId := params.dispatchRecordId
        runIds := params.requestedRunIds
        previewOnly := params.isPreviewOnly
        policyFlags
        diffPaths := wall.diffPaths
        adjudication }
    let provisional := mapToB2C platform.now input
    let repairHints :=
      deriveRepairHints
        { userVerdict := provisional.verdictCard.verdict
          policyFlags
          adjudicationReasonCode := adjudication.map (·.reasonCode)
          previewOnly := params.isPreviewOnly
          diffPaths := wall.diffPaths }
    let mapped := mapToB2C platform.now { input with repairHints := some repairHints }
    let verificationDigest :=
      buildVerificationDigest platform params.diffText params.requestedRunIds correctnessWallVersion
    let signingSecret :=
      (params.receiptSigningSecret.map fun secret => String.ofList (trim secret.toList)).filter
        fun secret => secret ≠ ""
    let result : EvaluateCorrectnessWallResult :=
      { verdictCard := mapped.verdictCard
        receipt :=
          { mapped := mapped.receipt
            verificationDigest
            wallVersion := correctnessWallVersion
            signedReceipt :=
              signingSecret.map
                (signWallReceipt platform verificationDigest correctnessWallVersion) } }
    if params.deepWall = some true then
      mergeDeepWall
        (runDeepWall (params.deepWallRequest platform) params.deepWallRunner
          (params.deepWallAllowCompletion = some true))
        result
    else result

end AdaptorchWpl
