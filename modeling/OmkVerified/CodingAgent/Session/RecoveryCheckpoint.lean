import OmkVerified.Lib.OrderedMap

/-!
# Recovery checkpoints

The decisions of `recovery-checkpoint.ts`: whether the worktree as it was observed is the one that a
checkpoint was taken of, what becomes of the files that did not exist before, and which phases a
restore runs. Nothing here reads a file; the observation is an argument.
-/

namespace CodingAgent.Recovery

open Lib

inductive RecoveryVcs where
  | git
  | none
  deriving DecidableEq

inductive TouchedFileMode where
  | tracked
  | untracked
  | deleted
  deriving DecidableEq

structure RecoveryTouchedFile where
  path : String
  beforeSha256 : Option String
  afterSha256 : Option String
  mode : TouchedFileMode

structure RecoveryCheckpointSession where
  leafId : Option String

structure RecoveryCheckpointWorkspace where
  vcs : RecoveryVcs
  head : Option String
  touchedFiles : List RecoveryTouchedFile

/-- Where the ledger stood, in a checkpoint or as it is read again. -/
structure LedgerAnchor where
  eventId : String
  previousEventHash : String
  eventHash : String

structure RecoveryCheckpoint where
  session : RecoveryCheckpointSession
  workspace : RecoveryCheckpointWorkspace
  ledger : LedgerAnchor

def normalizeRelPath (path : String) : String :=
  let slashes := path.toList.map fun c => if c = '\\' then '/' else c
  String.ofList (if "./".toList.isPrefixOf slashes then slashes.drop 2 else slashes)

structure ObservedTouchedFile where
  path : String
  «exists» : Bool
  sha256 : Option String
  isSymlink : Option Bool
  escapesRepo : Option Bool

structure ObservedWorktree where
  head : Option String
  dirtyPaths : List String
  touchedFiles : List ObservedTouchedFile

structure RestorePreflightOptions where
  allowNonHeadRestore : Option Bool

inductive RestorePreflightVerdict where
  | clean
  | blocked
  deriving DecidableEq

inductive RestorePreflightIssueCode where
  | unrelatedDirtyPath
  | touchedHashMismatch
  | missingTouchedFile
  | symlinkEscape
  | headMismatch
  deriving DecidableEq

/-- The code as it is written into a blocker. -/
def RestorePreflightIssueCode.text : RestorePreflightIssueCode → String
  | .unrelatedDirtyPath => "unrelated-dirty-path"
  | .touchedHashMismatch => "touched-hash-mismatch"
  | .missingTouchedFile => "missing-touched-file"
  | .symlinkEscape => "symlink-escape"
  | .headMismatch => "head-mismatch"

structure RestorePreflightIssue where
  code : RestorePreflightIssueCode
  path : Option String
  detail : String

/-- What the loops of the preflight collect. -/
structure Findings where
  issues : List RestorePreflightIssue
  unrelatedDirtyPaths : List String
  hashMismatches : List String
  symlinkEscapes : List String

def Findings.empty : Findings := ⟨[], [], [], []⟩

def Findings.push (found : Findings) (issue : RestorePreflightIssue) : Findings :=
  { found with issues := found.issues ++ [issue] }

structure RestorePreflightResult extends Findings where
  verdict : RestorePreflightVerdict
  headChanged : Bool

/-- `map.set(normalizeRelPath(file.path), file)` for one file after another. -/
def byPath {File : Type*} (path : File → String) (files : List File) : OrderedMap String File :=
  files.foldl (fun map file => map.set (normalizeRelPath (path file)) file) OrderedMap.empty

/-- The loop over the dirty paths. -/
def checkDirtyPath (touchedByPath : OrderedMap String RecoveryTouchedFile) (found : Findings)
    (dirty : String) : Findings :=
  if touchedByPath.has (normalizeRelPath dirty) then found
  else
    { found with unrelatedDirtyPaths := found.unrelatedDirtyPaths ++ [dirty] }.push
      ⟨.unrelatedDirtyPath, some dirty,
        "dirty path is outside the checkpoint's recorded touched files"⟩

/-- A symbolic link counts as leaving the repository unless it was seen not to. -/
def escapes (current : ObservedTouchedFile) : Bool :=
  current.escapesRepo = some true ||
    (current.isSymlink = some true && current.escapesRepo ≠ some false)

/-- The loop over the recorded files. -/
def checkTouchedFile (observedByPath : OrderedMap String ObservedTouchedFile) (found : Findings)
    (expected : RecoveryTouchedFile) : Findings :=
  match observedByPath.get? (normalizeRelPath expected.path) with
  | none =>
    found.push ⟨.missingTouchedFile, some expected.path,
      "no observed state was provided for a recorded touched file"⟩
  | some current =>
    if escapes current then
      { found with symlinkEscapes := found.symlinkEscapes ++ [expected.path] }.push
        ⟨.symlinkEscape, some expected.path,
          "touched path is a symlink resolving outside the repo root"⟩
    else if expected.mode = .deleted then
      if current.exists then
        { found with hashMismatches := found.hashMismatches ++ [expected.path] }.push
          ⟨.touchedHashMismatch, some expected.path,
            "expected a deleted file to be absent but it is present"⟩
      else found
    else if ¬ current.exists then
      found.push ⟨.missingTouchedFile, some expected.path,
        "recorded touched file is missing from the worktree"⟩
    else if current.sha256 ≠ expected.afterSha256 then
      { found with hashMismatches := found.hashMismatches ++ [expected.path] }.push
        ⟨.touchedHashMismatch, some expected.path,
          "current file hash differs from the recorded post-edit hash"⟩
    else found

/-- Both heads are known and they differ. -/
def headMoved (checkpoint : RecoveryCheckpoint) (observed : ObservedWorktree) : Bool :=
  checkpoint.workspace.vcs = .git && checkpoint.workspace.head.isSome && observed.head.isSome &&
    checkpoint.workspace.head ≠ observed.head

def classifyRestorePreflight (checkpoint : RecoveryCheckpoint) (observed : ObservedWorktree)
    (options : RestorePreflightOptions) : RestorePreflightResult :=
  let touchedByPath := byPath RecoveryTouchedFile.path checkpoint.workspace.touchedFiles
  let dirty := observed.dirtyPaths.foldl (checkDirtyPath touchedByPath) .empty
  let observedByPath := byPath ObservedTouchedFile.path observed.touchedFiles
  let touched := checkpoint.workspace.touchedFiles.foldl (checkTouchedFile observedByPath) dirty
  let headChanged := headMoved checkpoint observed
  let found :=
    if headChanged ∧ options.allowNonHeadRestore ≠ some true then
      touched.push ⟨.headMismatch, none,
        "HEAD moved since the checkpoint; pass allowNonHeadRestore to override"⟩
    else touched
  { found with verdict := if found.issues.length = 0 then .clean else .blocked, headChanged }

inductive RestoreMode where
  | conversation
  | code
  | both
  deriving DecidableEq

/-- A phase with the data it needs. -/
inductive RestorePlanPhase where
  /-- `navigate-tree` to the leaf of the checkpoint. -/
  | conversation (targetLeafId : Option String)
  /-- `apply-reverse-patch` on the recorded paths. -/
  | code (recordedPaths : List String)

inductive RestoreStatus where
  | ready
  | blocked
  deriving DecidableEq

inductive InDoubtPolicy where
  | preservePreviousLeaf
  deriving DecidableEq

structure RestorePlan where
  mode : RestoreMode
  status : RestoreStatus
  phases : List RestorePlanPhase
  blockers : List String
  preservePreviousLeafId : Option (Option String)
  inDoubtPolicy : Option InDoubtPolicy

structure PlanRestoreInput where
  mode : RestoreMode
  checkpoint : RecoveryCheckpoint
  preflight : Option RestorePreflightResult
  currentLeafId : Option String

def codePhase (checkpoint : RecoveryCheckpoint) : RestorePlanPhase :=
  .code (checkpoint.workspace.touchedFiles.map RecoveryTouchedFile.path)

def conversationPhase (checkpoint : RecoveryCheckpoint) : RestorePlanPhase :=
  .conversation checkpoint.session.leafId

/-- The line that an issue puts into the plan; an empty path counts as none. -/
def issueBlocker (issue : RestorePreflightIssue) : String :=
  let path := issue.path.getD ""
  if path ≠ "" then issue.code.text ++ ": " ++ path else issue.code.text

def collectPreflightBlockers : Option RestorePreflightResult → List String
  | none => ["code restore requires a preflight classification"]
  | some preflight =>
    if preflight.verdict = .clean then [] else preflight.issues.map issueBlocker

def planRestore (input : PlanRestoreInput) : RestorePlan :=
  let mode := input.mode
  let blockers := collectPreflightBlockers input.preflight
  match mode with
  | .conversation => ⟨mode, .ready, [conversationPhase input.checkpoint], [], none, none⟩
  | .code =>
    if 0 < blockers.length then ⟨mode, .blocked, [], blockers, none, none⟩
    else ⟨mode, .ready, [codePhase input.checkpoint], [], none, none⟩
  | .both =>
    if 0 < blockers.length then
      ⟨mode, .blocked, [], blockers, some input.currentLeafId, some .preservePreviousLeaf⟩
    else
      ⟨mode, .ready, [codePhase input.checkpoint, conversationPhase input.checkpoint], [],
        some input.currentLeafId, some .preservePreviousLeaf⟩

end CodingAgent.Recovery
