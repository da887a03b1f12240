import OmkVerified.Lib.Regex
import OmkVerified.Lib.JsNumber
import OmkVerified.Lib.JsonRange

/-!
# Write scopes

The scopes of `packages/coding-agent/src/core/loop-gates.ts`: paths are normalized, and a scope is a
directory or a glob.
-/

namespace LoopGates

open Lib

/-! ## Normalized paths -/

/-- `replace(/\/+/g, "/")`. -/
def collapseSlashes : List Char → List Char
  | [] => []
  | c :: path =>
    if c = '/' ∧ path.head? = some '/' then collapseSlashes path else c :: collapseSlashes path

/-- `replace(/^\.\//, "")`. -/
def stripDotSlash : List Char → List Char
  | '.' :: '/' :: path => path
  | path => path

/-- `replace(/\/$/, "")`. -/
def stripSlash (path : List Char) : List Char :=
  if path.getLast? = some '/' then path.dropLast else path

def cleanPath (path : List Char) : List Char :=
  stripSlash (stripDotSlash (collapseSlashes ((trim path).map fun c => if c = '\\' then '/' else c)))

/-- `/(^|\/)\.\.?(\/|$)/`: some segment is `.` or `..`. -/
def hasDotSegment (path : List Char) : Bool :=
  (path.splitOn '/').any fun segment => segment = ['.'] || segment = ['.', '.']

/-- One segment is put at the end or taken away; `escapes` counts the steps above the start of a
relative path. -/
def collapseSegment (isAbsolute : Bool) (state : List (List Char) × Nat) (segment : List Char) :
    List (List Char) × Nat :=
  if segment.length = 0 ∨ segment = ['.'] then state
  else if segment = ['.', '.'] then
    if 0 < state.1.length then (state.1.dropLast, state.2)
    else if isAbsolute then state
    else (state.1, state.2 + 1)
  else (state.1 ++ [segment], state.2)

def normalizePath (path : List Char) : List Char :=
  let cleaned := cleanPath path
  if !hasDotSegment cleaned then cleaned
  else
    let isAbsolute : Bool := cleaned.head? = some '/'
    let (collapsed, escapes) := (cleaned.splitOn '/').foldl (collapseSegment isAbsolute) ([], 0)
    let joined :=
      (if isAbsolute then ['/'] else (List.replicate escapes ['.', '.', '/']).flatten) ++
        ['/'].intercalate collapsed
    if joined = ['/'] then joined else stripSlash joined

/-! ## Scopes -/

/-- The pieces of the expression for a glob. -/
def globPieces : List Char → List Regex
  | '*' :: '*' :: glob => .many (fun c => !isLineTerminator c) 0 :: globPieces glob
  | '*' :: glob => .many (fun c => c ≠ '/') 0 :: globPieces glob
  | c :: glob => .cls (fun d => d = c) :: globPieces glob
  | [] => []

/-- What stands between `^` and `$`. -/
def globToRegExp (glob : List Char) : Regex := Regex.sequence (globPieces glob)

def pathHasScopePrefix (path scope : List Char) : Bool :=
  path = scope || (scope ++ ['/']).isPrefixOf path

def scopeMatchesPath (path scope : List Char) : Bool :=
  let normalizedPath := normalizePath path
  let normalizedScope := normalizePath scope
  if normalizedPath = [] ∨ normalizedScope = [] then false
  else if '*' ∈ normalizedScope then (globToRegExp normalizedScope).testAll normalizedPath
  else pathHasScopePrefix normalizedPath normalizedScope

def matchesAnyScope (path : List Char) (scopes : List (List Char)) : Bool :=
  scopes.any (scopeMatchesPath path)

def scopesOverlap (first second : List Char) : Bool :=
  scopeMatchesPath first second || scopeMatchesPath second first

end LoopGates

/-!
# Loop safety gates

`evaluateLoopSafetyGates` of `packages/coding-agent/src/core/loop-gates.ts`. Scopes, files and branches
are lists of characters. Of a definition, a state and an item only what the gates read is here.
-/

namespace LoopGates

open Lib

inductive LoopLevel
  | L1
  | L2
  | L3
deriving DecidableEq

inductive LoopStatus
  | ready
  | active
  | paused
  | retired
deriving DecidableEq

inductive LoopWorkItemRisk
  | low
  | medium
  | high
deriving DecidableEq

inductive LoopWorktreeIsolationMode
  | none
  | perRun
  | perItem
deriving DecidableEq

structure LoopSafetyPolicy where
  requireIndependentVerifier : Bool
  requireHumanGateForHighRisk : Bool
  allowedWriteScopes : List (List Char)
  deniedWriteScopes : Option (List (List Char)) := none
  maxWriteScopeCount : Option Decimal := none

structure LoopWorktreeIsolationPolicy where
  mode : LoopWorktreeIsolationMode
  branchPrefix : Option (List Char) := none
  requireCleanCheckout : Bool

structure LoopHumanGatePolicy where
  requiredForRisks : List LoopWorkItemRisk
  approvalRefsRequired : Bool

structure LoopDefinition where
  level : LoopLevel
  /-- `budget.maxAttemptsPerItem`. -/
  maxAttemptsPerItem : Decimal
  safety : LoopSafetyPolicy
  worktree : Option LoopWorktreeIsolationPolicy := none
  /-- `durableState?.requireReplayableEvidence`. -/
  requireReplayableEvidence : Option Bool := none
  humanGates : Option LoopHumanGatePolicy := none

structure LoopState where
  status : LoopStatus
  killSwitch : Option Bool := none

structure LoopWorkItem where
  id : String
  risk : LoopWorkItemRisk
  attemptCount : Decimal

inductive LoopVerifierStatus
  | pass
  | fail
  | blocked
deriving DecidableEq

structure LoopVerifierEvidence where
  independent : Bool
  status : Option LoopVerifierStatus := none
  evidenceRefs : Option (List String) := none
  verifierId : Option String := none
  implementerId : Option String := none

structure LoopHumanGateEvidence where
  approved : Bool
  approvalRef : Option String := none

structure LoopWorktreeEvidence where
  isolated : Bool
  worktreeId : Option String := none
  branch : Option (List Char) := none
  cleanCheckout : Option Bool := none

structure LoopDurableStateEvidence where
  stateRevision : Option String := none
  runLogRef : Option String := none
  budgetReservationId : Option String := none

structure LoopGateEvidence where
  writeScope : Option (List (List Char)) := none
  changedFiles : Option (List (List Char)) := none
  evidenceRefs : Option (List String) := none
  verifier : Option LoopVerifierEvidence := none
  humanGate : Option LoopHumanGateEvidence := none
  worktree : Option LoopWorktreeEvidence := none
  durableState : Option LoopDurableStateEvidence := none

inductive LoopGateAction
  | allow
  | block
  | humanGate
  | escalate
deriving DecidableEq

inductive LoopRunOutcome
  | escalated
  | verifierFailed
  | killed
deriving DecidableEq

structure LoopValidationDiagnostic where
  code : String
  message : String
  path : Option (List Char) := none

structure LoopSafetyGateResult where
  passed : Bool
  action : LoopGateAction
  outcome : Option LoopRunOutcome
  diagnostics : List LoopValidationDiagnostic

/-! ## Small checks -/

/-- `Boolean(text?.trim())`. -/
def hasText (text : Option String) : Bool := text.any fun text => trim text.toList ≠ []

def hasEvidenceRefs (refs : Option (List String)) : Bool :=
  refs.any fun refs => refs.any fun ref => hasText (some ref)

def LoopLevel.text : LoopLevel → String
  | .L1 => "L1"
  | .L2 => "L2"
  | .L3 => "L3"

def LoopStatus.text : LoopStatus → String
  | .ready => "ready"
  | .active => "active"
  | .paused => "paused"
  | .retired => "retired"

def LoopVerifierStatus.text : LoopVerifierStatus → String
  | .pass => "pass"
  | .fail => "fail"
  | .blocked => "blocked"

def numberText (n : Decimal) : String := String.ofList (Json.formatNumber n)

/-! ## Write scopes -/

/-- What is wrong with one requested path. -/
def checkWritePath (definition : LoopDefinition) (path : List Char) :
    List LoopValidationDiagnostic :=
  let normalizedPath := normalizePath path
  if normalizedPath = [] then
    [{ code := "write-scope-empty-path", message := "Write scope contains an empty path." }]
  else
    (if matchesAnyScope normalizedPath definition.safety.allowedWriteScopes then []
     else
      [{ code := "write-scope-outside-allowed"
         message := "Path " ++ String.ofList normalizedPath ++ " is outside allowedWriteScopes."
         path := some normalizedPath }]) ++
    (if matchesAnyScope normalizedPath (definition.safety.deniedWriteScopes.getD []) then
      [{ code := "write-scope-denied"
         message := "Path " ++ String.ofList normalizedPath ++ " is inside deniedWriteScopes."
         path := some normalizedPath }]
     else [])

def validateLoopWriteScope (definition : LoopDefinition) (paths : List (List Char)) :
    List LoopValidationDiagnostic :=
  (if paths.length = 0 ∧ (definition.level = .L2 ∨ definition.level = .L3) then
    [{ code := "write-scope-empty"
       message := definition.level.text ++ " loops require explicit write paths." }]
   else []) ++
  (match definition.safety.maxWriteScopeCount with
   | some max =>
    if !(Decimal.ofNat paths.length).le max then
      [{ code := "write-scope-count-exceeded"
         message := "Write scope count " ++ toString paths.length ++ " exceeds maxWriteScopeCount=" ++
          numberText max ++ "." }]
    else []
   | none => []) ++
  paths.flatMap (checkWritePath definition)

/-- The denied scopes that one requested scope overlaps. -/
def checkDeniedOverlap (deniedScopes : List (List Char)) (requestedScope : List Char) :
    List LoopValidationDiagnostic :=
  let normalizedRequested := normalizePath requestedScope
  if normalizedRequested = [] then []
  else
    deniedScopes.flatMap fun deniedScope =>
      let normalizedDenied := normalizePath deniedScope
      if normalizedDenied ≠ [] ∧ scopesOverlap normalizedRequested normalizedDenied then
        [{ code := "write-scope-denied-overlap"
           message := "Requested writeScope " ++ String.ofList normalizedRequested ++
            " overlaps deniedWriteScope " ++ String.ofList normalizedDenied ++ "."
           path := some normalizedRequested }]
      else []

def validateRequestedWriteScopeDoesNotOverlapDenied (definition : LoopDefinition)
    (requestedScopes : List (List Char)) : List LoopValidationDiagnostic :=
  requestedScopes.flatMap (checkDeniedOverlap (definition.safety.deniedWriteScopes.getD []))

def checkChangedFile (writeScope : List (List Char)) (changedFile : List Char) :
    List LoopValidationDiagnostic :=
  let normalizedFile := normalizePath changedFile
  if normalizedFile = [] then []
  else if matchesAnyScope normalizedFile writeScope then []
  else
    [{ code := "changed-file-outside-write-scope"
       message := "Changed file " ++ String.ofList normalizedFile ++
        " is outside the requested writeScope."
       path := some normalizedFile }]

def validateChangedFilesWithinRequestedScope (writeScope changedFiles : List (List Char)) :
    List LoopValidationDiagnostic :=
  changedFiles.flatMap (checkChangedFile writeScope)

/-! ## Other evidence -/

def requiresIndependentVerifier (definition : LoopDefinition) : Bool :=
  definition.level = .L2 || definition.level = .L3 || definition.safety.requireIndependentVerifier

/-- `Boolean(left && right && left.trim() === right.trim())`. -/
def sameActor (left right : Option String) : Bool :=
  match left, right with
  | some left, some right => left ≠ "" && right ≠ "" && trim left.toList = trim right.toList
  | _, _ => false

def validateIndependentVerifier : Option LoopVerifierEvidence → List LoopValidationDiagnostic
  | none =>
    [{ code := "independent-verifier-required"
       message := "L2/L3 actions require an independent verifier." }]
  | some verifier =>
    (if !verifier.independent || sameActor verifier.verifierId verifier.implementerId then
      [{ code := "independent-verifier-required", message := "Verifier must be independent." }]
     else []) ++
    (match verifier.status with
     | some status =>
      if status ≠ .pass then
        [{ code := "verifier-failed", message := "Verifier status is " ++ status.text ++ "." }]
      else []
     | none => []) ++
    (if hasEvidenceRefs verifier.evidenceRefs then []
     else
      [{ code := "verifier-evidence-missing", message := "Verifier evidenceRefs are required." }])

def requiresWorktreeIsolation (definition : LoopDefinition) : Bool :=
  definition.worktree.any fun worktree => worktree.mode = .perRun || worktree.mode = .perItem

def validateWorktreeEvidence (definition : LoopDefinition) :
    Option LoopWorktreeEvidence → List LoopValidationDiagnostic
  | none =>
    [{ code := "worktree-isolation-required"
       message := "Isolated loop actions require worktree evidence." }]
  | some worktree =>
    (if worktree.isolated then []
     else
      [{ code := "worktree-isolation-required"
         message := "Loop worktree evidence must confirm isolation." }]) ++
    (if hasText worktree.worktreeId then []
     else
      [{ code := "worktree-id-required"
         message := "Loop worktree evidence must include a worktreeId." }]) ++
    (if definition.worktree.any (·.requireCleanCheckout) && worktree.cleanCheckout ≠ some true then
      [{ code := "worktree-clean-checkout-required"
         message := "Loop worktree must start from a clean checkout." }]
     else []) ++
    (match (definition.worktree.bind (·.branchPrefix)).filter (· ≠ []),
        worktree.branch.filter (· ≠ []) with
     | some branchPrefix, some branch =>
      if pathHasScopePrefix (normalizePath branch) (normalizePath branchPrefix) then []
      else
        [{ code := "worktree-branch-prefix-mismatch"
           message := "Loop worktree branch must use prefix " ++ String.ofList branchPrefix ++ "."
           path := some branch }]
     | _, _ => [])

def validateDurableStateEvidence (durableState : Option LoopDurableStateEvidence) :
    List LoopValidationDiagnostic :=
  (if hasText (durableState.bind (·.stateRevision)) then []
   else
    [{ code := "state-revision-missing"
       message := "Replayable loop actions require a stateRevision." }]) ++
  (if hasText (durableState.bind (·.runLogRef)) then []
   else
    [{ code := "run-log-ref-missing", message := "Replayable loop actions require a runLogRef." }]) ++
  (if hasText (durableState.bind (·.budgetReservationId)) then []
   else
    [{ code := "budget-reservation-missing"
       message := "Replayable loop actions require a budgetReservationId." }])

def requiresHumanApproval (definition : LoopDefinition) (item : LoopWorkItem) : Bool :=
  match definition.humanGates with
  | some humanGates => humanGates.requiredForRisks.contains item.risk
  | none => definition.safety.requireHumanGateForHighRisk && item.risk = .high

/-! ## The gates -/

def hasDiagnostic (diagnostics : List LoopValidationDiagnostic) (code : String) : Bool :=
  diagnostics.any fun diagnostic => diagnostic.code = code

def safetyGateResult (diagnostics : List LoopValidationDiagnostic) : LoopSafetyGateResult :=
  if diagnostics.length = 0 then
    { passed := true, action := .allow, outcome := none, diagnostics := [] }
  else if hasDiagnostic diagnostics "loop-kill-switch" then
    { passed := false, action := .block, outcome := some .killed, diagnostics }
  else if hasDiagnostic diagnostics "max-attempts-exceeded" then
    { passed := false, action := .escalate, outcome := some .escalated, diagnostics }
  else if hasDiagnostic diagnostics "human-gate-required" then
    { passed := false, action := .humanGate, outcome := some .escalated, diagnostics }
  else { passed := false, action := .block, outcome := some .verifierFailed, diagnostics }

/-- What the gates say about the run and its item. -/
def runDiagnostics (definition : LoopDefinition) (state : LoopState) (item : LoopWorkItem) :
    List LoopValidationDiagnostic :=
  (if state.killSwitch = some true then
    [{ code := "loop-kill-switch", message := "Loop kill switch is active." }]
   else []) ++
  (if state.status = .paused ∨ state.status = .retired then
    [{ code := "loop-not-active"
       message := "Loop status " ++ state.status.text ++ " cannot take action." }]
   else []) ++
  (if definition.maxAttemptsPerItem.le item.attemptCount then
    [{ code := "max-attempts-exceeded"
       message := "Item " ++ item.id ++ " reached maxAttemptsPerItem=" ++
        numberText definition.maxAttemptsPerItem ++ "." }]
   else [])

/-- What the gates say about the requested scopes and the changed files. -/
def scopeDiagnostics (definition : LoopDefinition) (evidence : LoopGateEvidence) :
    List LoopValidationDiagnostic :=
  (match evidence.writeScope with
   | none => [{ code := "write-scope-missing", message := "Exact writeScope evidence is required." }]
   | some writeScope =>
    validateLoopWriteScope definition writeScope ++
      validateRequestedWriteScopeDoesNotOverlapDenied definition writeScope) ++
  (match evidence.writeScope, evidence.changedFiles with
   | some writeScope, some changedFiles =>
    validateChangedFilesWithinRequestedScope writeScope changedFiles
   | _, _ => [])

/-- What the gates say about all other evidence. -/
def evidenceDiagnostics (definition : LoopDefinition) (item : LoopWorkItem)
    (evidence : LoopGateEvidence) : List LoopValidationDiagnostic :=
  (if requiresWorktreeIsolation definition then
    validateWorktreeEvidence definition evidence.worktree
   else []) ++
  (if definition.requireReplayableEvidence = some true then
    validateDurableStateEvidence evidence.durableState
   else []) ++
  (if requiresHumanApproval definition item then
    let approvalRefSatisfied :=
      definition.humanGates.any (!·.approvalRefsRequired) ||
        hasText (evidence.humanGate.bind (·.approvalRef))
    if !evidence.humanGate.any (·.approved) || !approvalRefSatisfied then
      [{ code := "human-gate-required"
         message := "High-risk work item requires human approval evidence." }]
    else []
   else []) ++
  (if hasEvidenceRefs evidence.evidenceRefs then []
   else
    [{ code := "evidence-refs-missing", message := "Completion evidenceRefs are required." }]) ++
  (if requiresIndependentVerifier definition then validateIndependentVerifier evidence.verifier
   else [])

def evaluateLoopSafetyGates (definition : LoopDefinition) (state : LoopState) (item : LoopWorkItem)
    (evidence : LoopGateEvidence) : LoopSafetyGateResult :=
  safetyGateResult
    (runDiagnostics definition state item ++ scopeDiagnostics definition evidence ++
      evidenceDiagnostics definition item evidence)

end LoopGates

/-!
# What a scope covers

The meaning of a scope on normalized paths, and when the gates keep changes in their scopes.
-/

namespace LoopGates

open Lib

/-- The steps up at the front of a normalized path. -/
def upSteps : List Char → Nat
  | ['.', '.'] => 1
  | '.' :: '.' :: '/' :: path => upSteps path + 1
  | _ => 0

/-- The directory `n + 1` steps above the working directory. -/
def ancestor : Nat → List Char
  | 0 => ['.', '.']
  | n + 1 => '.' :: '.' :: '/' :: ancestor n

/-- A normalized path is a directory or lies below it. -/
def Below (scope path : List Char) : Prop :=
  path = scope ∨
  (∃ rest, path = scope ++ '/' :: rest ∧ upSteps path = upSteps scope) ∨
  (scope = ['/'] ∧ path.head? = some '/') ∨
  ∃ n, scope = ancestor n ∧ path.head? ≠ some '/' ∧ upSteps path ≤ n

/-- The paths of a glob: `**/` stands for directories, `**` for any text and `*` for a text in one
segment. -/
def GlobMatches : List Char → List Char → Prop
  | '*' :: '*' :: '/' :: glob, path =>
    ∃ front back, path = front ++ back ∧ (front = [] ∨ front.getLast? = some '/') ∧
      GlobMatches glob back
  | '*' :: '*' :: glob, path => ∃ front back, path = front ++ back ∧ GlobMatches glob back
  | '*' :: glob, path =>
    ∃ front back, path = front ++ back ∧ '/' ∉ front ∧ GlobMatches glob back
  | c :: glob, path => ∃ back, path = c :: back ∧ GlobMatches glob back
  | [], path => path = []

/-- A scope covers a path. The empty path names nothing. -/
def Covers (scope path : List Char) : Prop :=
  normalizePath scope ≠ [] ∧ normalizePath path ≠ [] ∧
    if '*' ∈ normalizePath scope then GlobMatches (normalizePath scope) (normalizePath path)
    else Below (normalizePath scope) (normalizePath path)

/-- For these scopes and files, whatever the rest of the evidence is: if the gates pass, every changed
file lies in an allowed scope and in no denied scope. -/
def KeepsScopes (requested allowed denied changed : List (List Char)) : Prop :=
  ∀ (definition : LoopDefinition) (state : LoopState) (item : LoopWorkItem)
    (evidence : LoopGateEvidence), definition.safety.allowedWriteScopes = allowed →
      definition.safety.deniedWriteScopes.getD [] = denied →
      evidence.writeScope = some requested → evidence.changedFiles = some changed →
      (evaluateLoopSafetyGates definition state item evidence).passed = true →
        ∀ file ∈ changed, (∃ scope ∈ allowed, Covers scope file) ∧
          ∀ scope ∈ denied, ¬ Covers scope file

/-! ## Where comparing scopes is enough -/

/-- Normalizing once more changes nothing. -/
def Stable (path : List Char) : Prop := normalizePath (normalizePath path) = normalizePath path

/-- A directory in the working directory or an absolute one below the root. -/
def Plain (scope : List Char) : Prop :=
  '*' ∉ normalizePath scope ∧ normalizePath scope ≠ ['/'] ∧ upSteps (normalizePath scope) = 0

/-- As a text, a requested scope lies in no allowed scope, or it meets a denied one. -/
def Rejected (allowed denied : List (List Char)) (scope : List Char) : Prop :=
  normalizePath scope = [] ∨ matchesAnyScope (normalizePath scope) allowed = false ∨
    matchesAnyScope (normalizePath scope) denied = true ∨
    ∃ other ∈ denied, normalizePath other ≠ [] ∧
      scopesOverlap (normalizePath scope) (normalizePath other) = true

/-- What the comparison of a requested scope with the others says holds of one of its files: directories
are compared right, and with a glob it is the file that matters. -/
structure CarriesOver (allowed denied : List (List Char)) (scope file : List Char) : Prop where
  allow : (Stable file ∧ Stable scope ∧
      ∃ other ∈ allowed, Plain other ∧ scopeMatchesPath (normalizePath scope) other = true) ∨
    ∃ other ∈ allowed, Covers other file
  deny : ∀ other ∈ denied,
    (Stable file ∧ Stable scope ∧ Stable other ∧ Plain scope ∧ Plain other) ∨ ¬ Covers other file

end LoopGates
