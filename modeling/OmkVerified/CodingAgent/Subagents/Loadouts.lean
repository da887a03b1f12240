import OmkVerified.Lib.JsNumber

/-!
# Loadouts

The part of `loadouts.ts` that a subagent plan uses: the built-in profiles, what a profile activates of
an inventory, and the scheduler fields of a lane. The built-in profiles select resources by name only,
so the other criteria of a selector are left out.
-/

namespace Subagents

open Lib

inductive LoadoutAuthority
  | advisory
  | readOnly
  | executeTests
  | writeScoped
  | reviewOnly
  | securityReview
deriving DecidableEq

inductive LoadoutRole
  | planner
  | explorer
  | architect
  | coder
  | executor
  | tester
  | reviewer
  | critic
  | security
  | visualQa
  | rhwpDoc
  | synthesizer
  | packageMaintainer
deriving DecidableEq

inductive ResourceKind
  | tool
  | skill
  | mcp
  | hook
deriving DecidableEq

inductive CommandMode
  | none
  | readOnlyShell
  | testsOnly
  | scopedShell
deriving DecidableEq

inductive ToolDefaultMode
  | defaultBuiltins
  | noTools
  | noBuiltinTools
deriving DecidableEq

structure NamedResource where
  kind : ResourceKind
  name : String

structure ResourceSelector where
  kind : ResourceKind
  names : List String

structure ToolGate where
  allow : Option (List String) := none
  exclude : List String := []
  require : List String := []
  defaultMode : Option ToolDefaultMode := none

structure CapabilityGate where
  allow : List ResourceSelector := []
  exclude : List ResourceSelector := []
  require : List ResourceSelector := []

structure LoadoutCommands where
  mode : CommandMode
  allowPatterns : Option (List String) := none
  blockPatterns : Option (List String) := none

structure LoadoutProfile where
  name : String
  authority : LoadoutAuthority
  tools : ToolGate
  skills : Option CapabilityGate := none
  mcp : Option CapabilityGate := none
  hooks : Option CapabilityGate := none
  commands : Option LoadoutCommands := none
  /-- `evidence.outputPattern`. -/
  outputPattern : Option String := none

structure CapabilityInventory where
  tools : List NamedResource
  skills : List NamedResource
  mcp : List NamedResource
  hooks : List NamedResource

structure AppliedLoadout where
  profileName : String
  authority : LoadoutAuthority
  activeTools : List String
  activeSkills : List String
  activeMcp : List String
  activeHooks : List String
  blockers : List String
  warnings : List String

structure SchedulerFields where
  readSet : List String
  writeSet : List String
  parallelizable : Bool

/-! ## Names -/

def LoadoutAuthority.text : LoadoutAuthority → String
  | .advisory => "advisory"
  | .readOnly => "read-only"
  | .executeTests => "execute-tests"
  | .writeScoped => "write-scoped"
  | .reviewOnly => "review-only"
  | .securityReview => "security-review"

def ResourceKind.text : ResourceKind → String
  | .tool => "tool"
  | .skill => "skill"
  | .mcp => "mcp"
  | .hook => "hook"

/-- `AUTHORITY_RANK`. -/
def authorityRank : LoadoutAuthority → Nat
  | .advisory => 0
  | .readOnly => 1
  | .reviewOnly => 1
  | .securityReview => 2
  | .executeTests => 3
  | .writeScoped => 4

/-- `[...texts].sort()`, in the order of UTF-16 code units. -/
def sortTexts (texts : List String) : List String := texts.mergeSort fun a b => !jsLt b a

/-- The first occurrence of each text. -/
def firsts : List String → List String
  | [] => []
  | text :: texts => text :: (firsts texts).filter (· ≠ text)

def trimText (text : String) : String := String.ofList (trim text.toList)

def uniqueSorted (values : List String) : List String :=
  sortTexts (((firsts values).map trimText).filter (· ≠ ""))

/-! ## Built-in profiles -/

def allowNames (kind : ResourceKind) (names : List String) : CapabilityGate :=
  { allow := [{ kind, names }] }

/-- The tools that all built-in profiles allow. -/
def builtinTools : List String := ["read", "grep", "find", "ls", "edit", "write", "bash"]

/-- A profile without skills, servers and hooks. -/
def plainProfile (name : String) (tools : List String) : LoadoutProfile :=
  { name
    authority := .writeScoped
    tools := { allow := some tools }
    commands := some { mode := .scopedShell } }

/-- `BUILTIN_LOADOUTS`. -/
def builtinLoadouts : List LoadoutProfile :=
  [plainProfile "inspect" builtinTools,
   plainProfile "plan" builtinTools,
   plainProfile "architect" (builtinTools ++ ["report_finding"]),
   { plainProfile "code" builtinTools with
     skills := some (allowNames .skill ["test-driven-development", "coding-standards"])
     mcp := some (allowNames .mcp ["filesystem", "context7"])
     hooks := some (allowNames .hook ["pre-shell-guard", "protect-secrets", "typecheck-after-edit"]) },
   { plainProfile "executor" builtinTools with
     skills := some (allowNames .skill
      ["test-driven-development", "coding-standards", "verification-before-completion"])
     mcp := some (allowNames .mcp ["filesystem", "context7"])
     hooks := some (allowNames .hook
      ["pre-shell-guard", "protect-secrets", "typecheck-after-edit", "stop-verify"])
     outputPattern := some ".omk/runs/<goal>/implementation.md" },
   plainProfile "test" builtinTools,
   plainProfile "review" builtinTools,
   plainProfile "critic" builtinTools,
   plainProfile "security" builtinTools,
   { plainProfile "visual-qa" builtinTools with
     skills := some (allowNames .skill
      ["clone-website", "visual-qa", "visual-diff", "visual-regression", "browser-qa",
       "web-quality-audit"])
     mcp := some (allowNames .mcp ["filesystem", "chrome-devtools", "playwright", "context7"])
     hooks := some (allowNames .hook
      ["component-spec-before-build", "visual-diff-after-edit", "typecheck-after-edit",
       "bounded-evidence", "protect-secrets", "stop-verify"]) },
   { plainProfile "rhwp-doc" builtinTools with
     skills := some (allowNames .skill
      ["rhwp", "rhwp-doc", "document-extraction", "document-conversion", "technical-writing"])
     mcp := some (allowNames .mcp ["filesystem", "context7", "playwright"])
     hooks := some (allowNames .hook
      ["document-artifact-guard", "bounded-evidence", "pre-shell-guard", "protect-secrets",
       "stop-verify"])
     outputPattern := some ".omk/runs/<goal>/rhwp-doc.md" },
   { plainProfile "package-maintainer" builtinTools with
     skills := some (allowNames .skill
      ["exact-pin", "no-lifecycle-scripts", "security-review", "verification-before-completion"])
     mcp := some (allowNames .mcp ["filesystem"])
     hooks := some (allowNames .hook
      ["pre-shell-guard", "protect-secrets", "npm-audit-summary", "stop-verify"])
     commands := some
      { mode := .scopedShell
        allowPatterns := some
          ["npm install --ignore-scripts*", "npm ci --ignore-scripts*",
           "npm install --package-lock-only --ignore-scripts*",
           "node scripts/generate-coding-agent-shrinkwrap.mjs*"]
        blockPatterns := some
          ["*@latest*", "npm install *--ignore-scripts=false*", "npm ci *--ignore-scripts=false*",
           "npm rebuild*"] } },
   plainProfile "none" builtinTools]

def findLoadout (name : String) : Option LoadoutProfile :=
  builtinLoadouts.find? fun profile => profile.name = name

def inferLoadoutForRole : LoadoutRole → String
  | .planner => "plan"
  | .explorer => "inspect"
  | .architect => "architect"
  | .coder => "code"
  | .executor => "executor"
  | .tester => "test"
  | .reviewer => "review"
  | .critic => "critic"
  | .security => "security"
  | .visualQa => "visual-qa"
  | .rhwpDoc => "rhwp-doc"
  | .packageMaintainer => "package-maintainer"
  | .synthesizer => "plan"

/-- `laneDefaultsForRole(role).authority`. -/
def laneAuthorityForRole (role : LoadoutRole) : Option LoadoutAuthority :=
  (findLoadout (inferLoadoutForRole role)).map (·.authority)

/-! ## Applying a profile -/

def authorityWithinGrant (requested grant : LoadoutAuthority) : Bool :=
  authorityRank requested ≤ authorityRank grant

/-- Active tools, blockers and warnings. -/
def applyToolGate (gate : ToolGate) (resources : List NamedResource) :
    List String × List String × List String :=
  let available := resources.map (·.name)
  let base :=
    if gate.defaultMode = some .noTools then [] else gate.allow.getD (resources.map (·.name))
  (sortTexts (firsts (base.filter fun tool => tool ∈ available ∧ tool ∉ gate.exclude)),
    (gate.require.filter (· ∉ available)).map fun required => "missing required tool: " ++ required,
    (base.filter (· ∉ available)).map fun tool => "optional tool not available: " ++ tool)

/-- Some resource has the name and fits the selector. -/
def isNamed (selector : ResourceSelector) (resources : List NamedResource) (name : String) : Bool :=
  resources.any fun resource => resource.name = name && resource.kind = selector.kind

def matchSelector (selector : ResourceSelector) (resources : List NamedResource) : List String :=
  (resources.filter fun resource =>
    resource.name ∈ selector.names ∧ resource.kind = selector.kind).map (·.name)

/-- The names of a required selector, and the blockers. -/
def resolveRequireSelector (kind : ResourceKind) (resources : List NamedResource)
    (selector : ResourceSelector) : List String × List String :=
  if 0 < selector.names.length then
    (selector.names.filter (isNamed selector resources),
      (selector.names.filter (!isNamed selector resources ·)).map fun name =>
        "missing required " ++ kind.text ++ ": " ++ name)
  else ([], ["missing required " ++ kind.text ++ ": kind=" ++ selector.kind.text])

/-- Active names, blockers and warnings. -/
def applyCapabilityGate (kind : ResourceKind) (gate : Option CapabilityGate)
    (resources : List NamedResource) : List String × List String × List String :=
  match gate with
  | none => ([], [], [])
  | some gate =>
    let required := gate.require.map (resolveRequireSelector kind resources)
    let active := required.flatMap (·.1) ++ gate.allow.flatMap (matchSelector · resources)
    let excluded := gate.exclude.flatMap (matchSelector · resources)
    (sortTexts ((firsts active).filter (· ∉ excluded)),
      required.flatMap (·.2),
      gate.allow.flatMap fun selector =>
        (selector.names.filter (!isNamed selector resources ·)).map fun name =>
          "optional " ++ kind.text ++ " not available: " ++ name)

def applyLoadoutProfile (profile : LoadoutProfile) (inventory : CapabilityInventory)
    (grantAuthority : Option LoadoutAuthority) : AppliedLoadout :=
  let authorityBlockers :=
    match grantAuthority with
    | some grant =>
      if authorityWithinGrant profile.authority grant then []
      else ["loadout authority " ++ profile.authority.text ++ " exceeds grant " ++ grant.text]
    | none => []
  let tools := applyToolGate profile.tools inventory.tools
  let skills := applyCapabilityGate .skill profile.skills inventory.skills
  let mcp := applyCapabilityGate .mcp profile.mcp inventory.mcp
  let hooks := applyCapabilityGate .hook profile.hooks inventory.hooks
  { profileName := profile.name
    authority := profile.authority
    activeTools := tools.1
    activeSkills := skills.1
    activeMcp := mcp.1
    activeHooks := hooks.1
    blockers := authorityBlockers ++ tools.2.1 ++ skills.2.1 ++ mcp.2.1 ++ hooks.2.1
    warnings := tools.2.2 ++ skills.2.2 ++ mcp.2.2 ++ hooks.2.2 }

/-! ## Scheduler fields -/

/-- `WRITING_ROLES`. -/
def writingRoles : List LoadoutRole :=
  [.coder, .executor, .tester, .rhwpDoc, .synthesizer, .packageMaintainer]

/-- `LOCKFILE_BASENAMES`. -/
def lockfileBasenames : List (List Char) :=
  ["package-lock.json".toList, "npm-shrinkwrap.json".toList, "yarn.lock".toList,
   "pnpm-lock.yaml".toList]

/-- `replaceAll("\\", "/")`. -/
def forwardSlashes (path : List Char) : List Char := path.map fun c => if c = '\\' then '/' else c

def isSerializeTriggerPath (path : String) : Bool :=
  let normalized := forwardSlashes path.toList
  let base := (normalized.reverse.takeWhile (· ≠ '/')).reverse
  base ∈ lockfileBasenames || base = "package.json".toList ||
    (".snap".toList).isSuffixOf base || normalized = ".git/index".toList ||
    (".git/".toList).isPrefixOf normalized || "/.git/".toList <:+: normalized

def toAccessSet (paths : Option (List String)) : List String :=
  sortTexts (firsts (((paths.getD []).map trimText).filter (· ≠ "")))

def deriveParallelizable (authority : Option LoadoutAuthority) (writeSet : List String) : Bool :=
  if writeSet.length = 0 then true
  else if authority = some .writeScoped then false
  else !writeSet.any isSerializeTriggerPath

def deriveSchedulerFields (role : LoadoutRole) (assignedReadPaths assignedWritePaths :
    Option (List String)) : SchedulerFields :=
  let writeSet := if role ∈ writingRoles then toAccessSet assignedWritePaths else []
  { readSet := toAccessSet assignedReadPaths
    writeSet
    parallelizable := deriveParallelizable (laneAuthorityForRole role) writeSet }

end Subagents
