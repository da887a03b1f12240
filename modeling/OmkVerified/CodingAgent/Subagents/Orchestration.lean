import OmkVerified.CodingAgent.Subagents.Loadouts

/-!
# Subagent orchestration

`buildSubagentOrchestrationPlan` of `subagent-orchestration.ts`: lanes are checked, get their grants
and their dependencies, and are scheduled in batches.
-/

namespace Subagents

open Lib

inductive SubagentOrchestrationRole
  | planner
  | architect
  | executor
  | critic
  | visualQa
  | rhwpDoc
  | security
  | packageMaintainer
deriving DecidableEq

inductive LaneContextInheritanceMode
  | none
  | receipt
  | lastTurn
  | bounded
  | full
deriving DecidableEq

inductive LaneEvidenceGate
  | planReread
  | automatedVerification
  | manualQa
  | adversarialQa
  | cleanup
deriving DecidableEq

inductive SubagentSchedulerTopology
  | serial
  | parallel
  | mapReduce
  | hybrid
deriving DecidableEq

structure SubagentRoleAssignment where
  loadoutRole : LoadoutRole
  loadoutName : String
  agentName : String
  contextInheritance : LaneContextInheritanceMode
  evidenceGates : List LaneEvidenceGate
  writesProductFiles : Bool

structure SubagentLaneSpec where
  id : String
  role : SubagentOrchestrationRole
  task : String
  dependsOn : Option (List String) := none
  readScope : Option (List String) := none
  writeScope : Option (List String) := none
  acceptance : Option (List String) := none
  evidenceOutput : Option String := none
  blockedPaths : Option (List String) := none
  contextInheritance : Option LaneContextInheritanceMode := none
  grantAuthority : Option LoadoutAuthority := none
  loadoutName : Option String := none
  agentName : Option String := none

structure LaneSpawnReceipt where
  whyParallel : String
  whyNotLocal : String
  independence : String
  expectedReceiptShape : String
  maxInlineTokens : JsNumber

structure SpawnGateDecision where
  allowed : Bool
  reason : String
  planRequired : Bool
  missingFields : List String

structure SubagentLaneGrant where
  laneId : String
  agent : String
  task : String
  scope : String
  authority : LoadoutAuthority
  allowedPaths : List String
  blockedPaths : List String
  tools : List String
  skills : List String
  mcp : List String
  hooks : List String
  commands : LoadoutCommands
  contextInheritance : LaneContextInheritanceMode
  spawnReceipt : Option LaneSpawnReceipt
  evidenceGates : List LaneEvidenceGate
  dependsOn : List String
  acceptance : List String
  evidenceOutput : Option String
  scheduler : SchedulerFields

inductive BatchReason
  | readyParallel
  | serializedWriter
  | parallelLimit
deriving DecidableEq

structure SubagentScheduleBatch where
  index : Nat
  laneIds : List String
  reason : BatchReason

structure SubagentRouteFeatures where
  topology : SubagentSchedulerTopology
  width : Nat
  criticalDepth : Nat
  couplingDensity : ℚ
  parallelRatio : ℚ
  nodeCount : Nat
  edgeCount : Nat

structure BuildSubagentOrchestrationPlanInput where
  runId : String
  lanes : List SubagentLaneSpec
  inventory : CapabilityInventory
  spawnPlan : Option LaneSpawnReceipt := none
  spawnThreshold : Option JsNumber := none
  maxParallelLanes : Option JsNumber := none

structure SubagentOrchestrationPlan where
  laneGrants : List SubagentLaneGrant
  batches : List SubagentScheduleBatch
  route : SubagentRouteFeatures
  spawnGate : SpawnGateDecision
  blockers : List String
  warnings : List String

/-- What the plan throws. -/
inductive PlanError
  | range (message : String)
  | type (message : String)

structure PreparedLane where
  index : Nat
  spec : SubagentLaneSpec
  grant : SubagentLaneGrant
  dependsOn : List String

/-! ## Roles -/

def SubagentOrchestrationRole.text : SubagentOrchestrationRole → String
  | .planner => "planner"
  | .architect => "architect"
  | .executor => "executor"
  | .critic => "critic"
  | .visualQa => "visual-qa"
  | .rhwpDoc => "rhwp-doc"
  | .security => "security"
  | .packageMaintainer => "package-maintainer"

def LaneEvidenceGate.text : LaneEvidenceGate → String
  | .planReread => "plan-reread"
  | .automatedVerification => "automated-verification"
  | .manualQa => "manual-qa"
  | .adversarialQa => "adversarial-qa"
  | .cleanup => "cleanup"

/-- `ROLE_ASSIGNMENTS[role]`. -/
def resolveSubagentRoleAssignment : SubagentOrchestrationRole → SubagentRoleAssignment
  | .planner =>
    { loadoutRole := .planner
      loadoutName := "plan"
      agentName := "omk-planner"
      contextInheritance := .receipt
      evidenceGates := [.planReread, .cleanup]
      writesProductFiles := false }
  | .architect =>
    { loadoutRole := .architect
      loadoutName := "architect"
      agentName := "omk-architect"
      contextInheritance := .bounded
      evidenceGates := [.planReread, .automatedVerification, .adversarialQa, .cleanup]
      writesProductFiles := false }
  | .executor =>
    { loadoutRole := .executor
      loadoutName := "executor"
      agentName := "omk-executor"
      contextInheritance := .bounded
      evidenceGates := [.planReread, .automatedVerification, .manualQa, .adversarialQa, .cleanup]
      writesProductFiles := true }
  | .critic =>
    { loadoutRole := .critic
      loadoutName := "critic"
      agentName := "omk-critic"
      contextInheritance := .receipt
      evidenceGates := [.planReread, .adversarialQa, .cleanup]
      writesProductFiles := false }
  | .visualQa =>
    { loadoutRole := .visualQa
      loadoutName := "visual-qa"
      agentName := "omk-visual-qa"
      contextInheritance := .receipt
      evidenceGates := [.planReread, .automatedVerification, .manualQa, .adversarialQa, .cleanup]
      writesProductFiles := false }
  | .rhwpDoc =>
    { loadoutRole := .rhwpDoc
      loadoutName := "rhwp-doc"
      agentName := "omk-rhwp-doc"
      contextInheritance := .bounded
      evidenceGates := [.planReread, .automatedVerification, .manualQa, .adversarialQa, .cleanup]
      writesProductFiles := true }
  | .security =>
    { loadoutRole := .security
      loadoutName := "security"
      agentName := "omk-security"
      contextInheritance := .none
      evidenceGates := [.planReread, .automatedVerification, .adversarialQa, .cleanup]
      writesProductFiles := false }
  | .packageMaintainer =>
    { loadoutRole := .packageMaintainer
      loadoutName := "package-maintainer"
      agentName := "omk-package-maintainer"
      contextInheritance := .bounded
      evidenceGates := [.planReread, .automatedVerification, .manualQa, .adversarialQa, .cleanup]
      writesProductFiles := true }

/-! ## Intake -/

def isPositiveInteger : JsNumber → Bool
  | .finite value => value.den = 1 && 1 ≤ value
  | _ => false

def findMissingSpawnPlanFields : Option LaneSpawnReceipt → List String
  | none =>
    ["whyParallel", "whyNotLocal", "independence", "expectedReceiptShape", "maxInlineTokens"]
  | some plan =>
    ([("whyParallel", plan.whyParallel), ("whyNotLocal", plan.whyNotLocal),
      ("independence", plan.independence),
      ("expectedReceiptShape", plan.expectedReceiptShape)].filter fun field =>
        trimText field.2 = "").map Prod.fst ++
    if !plan.maxInlineTokens.isFinite || plan.maxInlineTokens ≤ 0 then ["maxInlineTokens"] else []

/-- The text of a threshold that has been checked. -/
def thresholdText : JsNumber → String
  | .finite value => toString value.num
  | _ => ""

/-- `evaluateSpawnGate` for a number of lanes. -/
def evaluateSpawnGate (childCount : Nat) (plan : Option LaneSpawnReceipt) (threshold : JsNumber) :
    Except PlanError SpawnGateDecision :=
  if !isPositiveInteger threshold then .error (.range "threshold must be a positive integer")
  else
    let planRequired := decide (threshold < JsNumber.finite childCount)
    let batch := "batch of " ++ toString childCount
    if !planRequired then
      .ok
        { allowed := true
          reason := batch ++ " is at or below threshold " ++ thresholdText threshold
          planRequired := false
          missingFields := [] }
    else
      let missingFields := findMissingSpawnPlanFields plan
      if 0 < missingFields.length then
        .ok
          { allowed := false
            reason := batch ++ " exceeds threshold " ++ thresholdText threshold ++
              " and the spawn-plan receipt is " ++
              if plan.isSome then "incomplete (" ++ ", ".intercalate missingFields ++ ")"
              else "missing"
            planRequired := true
            missingFields }
      else
        .ok
          { allowed := true
            reason := batch ++ " exceeds threshold " ++ thresholdText threshold ++
              " and a complete spawn-plan receipt was provided"
            planRequired := true
            missingFields := [] }

/-- The loop over the dependencies of one lane. -/
def dependencyBlockers (id label : String) (seenDependencies : List String) :
    List String → List String
  | [] => []
  | dependency :: rest =>
    let dependencyId := trimText dependency
    if dependencyId = "" then
      (label ++ " has empty dependency id") :: dependencyBlockers id label seenDependencies rest
    else
      (if dependencyId = id then [label ++ " depends on itself"] else []) ++
      (if dependencyId ∈ seenDependencies then [label ++ " repeats dependency " ++ dependencyId]
       else []) ++
      dependencyBlockers id label (dependencyId :: seenDependencies) rest

/-- The blockers of the lane at `index`, after lanes with the given ids. -/
def laneBlockers (seenIds : List (String × Nat)) (index : Nat) (lane : SubagentLaneSpec) :
    List String :=
  let id := trimText lane.id
  let label := if id = "" then "lane at index " ++ toString index else "lane " ++ id
  (if id = "" then ["lane at index " ++ toString index ++ " has empty id"]
   else
    match seenIds.lookup id with
    | none => []
    | some firstIndex =>
      ["duplicate lane id " ++ id ++ " at indexes " ++ toString firstIndex ++ " and " ++
        toString index]) ++
  (if trimText lane.task = "" then [label ++ " has empty task"] else []) ++
  dependencyBlockers id label [] (lane.dependsOn.getD [])

/-- `seenIds` after one more lane. -/
def seeLane (seenIds : List (String × Nat)) (index : Nat) (lane : SubagentLaneSpec) :
    List (String × Nat) :=
  let id := trimText lane.id
  if id = "" ∨ (seenIds.lookup id).isSome then seenIds else seenIds ++ [(id, index)]

def intakeFrom (seenIds : List (String × Nat)) (index : Nat) : List SubagentLaneSpec → List String
  | [] => []
  | lane :: lanes =>
    laneBlockers seenIds index lane ++ intakeFrom (seeLane seenIds index lane) (index + 1) lanes

def validateLaneIntake (lanes : List SubagentLaneSpec) : List String := intakeFrom [] 0 lanes

/-! ## Preparing a lane -/

/-- The names that every object inherits. -/
def inheritedNames : List String :=
  ["constructor", "__defineGetter__", "__defineSetter__", "hasOwnProperty", "__lookupGetter__",
   "__lookupSetter__", "isPrototypeOf", "propertyIsEnumerable", "toString", "valueOf", "__proto__",
   "toLocaleString"]

/-- The profile and the blockers. What an object inherits is no profile and has no tools. -/
def resolveLoadoutProfile (spec : SubagentLaneSpec) (assignment : SubagentRoleAssignment) :
    Except PlanError (LoadoutProfile × List String) :=
  let loadoutName := spec.loadoutName.getD assignment.loadoutName
  if loadoutName ∈ inheritedNames then
    .error (.type "Cannot read properties of undefined (reading \x27require\x27)")
  else
    match findLoadout loadoutName with
    | some profile => .ok (profile, [])
    | none =>
      .ok (plainProfile "none" builtinTools,
        ["lane " ++ spec.id ++ ": unknown loadout " ++ loadoutName])

/-- What a replacement text stands for when `matched` was found after `front` and before `back`. -/
def expandReplacement (matched front back : List Char) : List Char → List Char
  | '$' :: '$' :: text => '$' :: expandReplacement matched front back text
  | '$' :: '&' :: text => matched ++ expandReplacement matched front back text
  | '$' :: '\x60' :: text => front ++ expandReplacement matched front back text
  | '$' :: '\x27' :: text => back ++ expandReplacement matched front back text
  | c :: text => c :: expandReplacement matched front back text
  | [] => []

/-- `text.replace(matched, replacement)`, after `front`. -/
def replaceFirst (matched replacement front : List Char) : List Char → List Char
  | [] => front
  | c :: text =>
    if matched.isPrefixOf (c :: text) then
      let back := (c :: text).drop matched.length
      front ++ expandReplacement matched front back replacement ++ back
    else replaceFirst matched replacement (front ++ [c]) text

def evidenceOutputFor (pattern : Option String) (runId : String) : Option String :=
  (pattern.filter (· ≠ "")).map fun pattern =>
    if runId = "" then pattern
    else String.ofList (replaceFirst "<goal>".toList runId.toList [] pattern.toList)

/-- `uniqueSortedEvidenceGates`. -/
def sortGates (gates : List LaneEvidenceGate) : List LaneEvidenceGate :=
  gates.eraseDups.mergeSort fun a b => !jsLt b.text a.text

def buildSubagentLaneGrant (spec : SubagentLaneSpec) (assignment : SubagentRoleAssignment)
    (applied : AppliedLoadout) (profile : LoadoutProfile) (schedulerFields : SchedulerFields)
    (runId : String) (spawnReceipt : Option LaneSpawnReceipt) (dependsOn : List String) :
    SubagentLaneGrant :=
  { laneId := spec.id
    agent := spec.agentName.getD assignment.agentName
    task := spec.task
    scope := "loadout-derived lane grant"
    authority := applied.authority
    allowedPaths := uniqueSorted (spec.readScope.getD [] ++ spec.writeScope.getD [])
    blockedPaths := uniqueSorted
      (["**/.env*", "**/*secret*", "**/*key*", "**/.git/*"] ++ spec.blockedPaths.getD [])
    tools := applied.activeTools
    skills := applied.activeSkills
    mcp := applied.activeMcp
    hooks := applied.activeHooks
    commands := profile.commands.getD { mode := .none }
    contextInheritance := spec.contextInheritance.getD assignment.contextInheritance
    spawnReceipt
    evidenceGates := sortGates assignment.evidenceGates
    dependsOn := uniqueSorted dependsOn
    acceptance := uniqueSorted (spec.acceptance.getD [])
    evidenceOutput := evidenceOutputFor (spec.evidenceOutput.or profile.outputPattern) runId
    scheduler := schedulerFields }

structure PreparedResult where
  lane : PreparedLane
  blockers : List String
  warnings : List String

def prepareLane (runId : String) (inventory : CapabilityInventory)
    (spawnReceipt : Option LaneSpawnReceipt) (spec : SubagentLaneSpec) (index : Nat) :
    Except PlanError PreparedResult := do
  let assignment := resolveSubagentRoleAssignment spec.role
  let writeBlockers :=
    if 0 < (spec.writeScope.getD []).length ∧ !assignment.writesProductFiles then
      ["lane " ++ spec.id ++ " role " ++ spec.role.text ++ " cannot write product files"]
    else []
  let dependsOn := uniqueSorted (spec.dependsOn.getD [])
  let (profile, profileBlockers) ← resolveLoadoutProfile spec assignment
  let applied := applyLoadoutProfile profile inventory spec.grantAuthority
  let schedulerFields := deriveSchedulerFields assignment.loadoutRole spec.readScope spec.writeScope
  let grant :=
    buildSubagentLaneGrant spec assignment applied profile schedulerFields runId spawnReceipt
      dependsOn
  return {
    lane := { index, spec, grant, dependsOn }
    blockers := writeBlockers ++ profileBlockers ++
      applied.blockers.map fun blocker => "lane " ++ spec.id ++ ": " ++ blocker
    warnings := applied.warnings.map fun warning => "lane " ++ spec.id ++ ": " ++ warning }

def findDependencyBlockers (lanes : List PreparedLane) : List String :=
  let ids := lanes.map (·.spec.id)
  lanes.flatMap fun lane =>
    (lane.dependsOn.filter (· ∉ ids)).map fun dependency =>
      "lane " ++ lane.spec.id ++ " depends on missing lane " ++ dependency

/-! ## Receipts -/

/-- `replaceAll("\\", "/").replace(/\/+$/g, "")`. -/
def normalizePath (path : String) : List Char :=
  ((forwardSlashes path.toList).reverse.dropWhile (· = '/')).reverse

def isReceiptConsumerRole (role : SubagentOrchestrationRole) : Bool :=
  role = .critic || role = .visualQa || role = .rhwpDoc

def isReceiptPath (path : String) : Bool :=
  let normalized := normalizePath path
  normalized = ".omk/runs".toList || (".omk/runs/".toList).isPrefixOf normalized ||
    "/.omk/runs/".toList <:+: normalized

def isReceiptReadingConsumer (lane : PreparedLane) : Bool :=
  isReceiptConsumerRole lane.spec.role && (lane.spec.readScope.getD []).any isReceiptPath

def receiptProducerIds (lanes : List PreparedLane) : List String :=
  (lanes.filter fun lane =>
    lane.grant.evidenceOutput.isSome && !isReceiptConsumerRole lane.spec.role).map (·.spec.id)

/-- A lane with the receipts it waits for. -/
def addReceipts (producerIds : List String) (lane : PreparedLane) : PreparedLane :=
  if !isReceiptReadingConsumer lane || producerIds.length = 0 then lane
  else
    let dependsOn := uniqueSorted (lane.dependsOn ++ producerIds.filter (· ≠ lane.spec.id))
    if dependsOn = lane.dependsOn then lane
    else { lane with dependsOn, grant := { lane.grant with dependsOn } }

def applyReceiptConsumerDependencies (lanes : List PreparedLane) : List PreparedLane :=
  lanes.map (addReceipts (receiptProducerIds lanes))

/-! ## Scheduling -/

def pathIntersects (left right : String) : Bool :=
  let normalizedLeft := normalizePath left
  let normalizedRight := normalizePath right
  normalizedLeft = normalizedRight || (normalizedRight ++ ['/']).isPrefixOf normalizedLeft ||
    (normalizedLeft ++ ['/']).isPrefixOf normalizedRight

def pathsConflict (writers candidates : List String) : Bool :=
  writers.any fun writer => candidates.any fun candidate => pathIntersects writer candidate

def lanesConflict (left right : PreparedLane) : Bool :=
  let leftFields := left.grant.scheduler
  let rightFields := right.grant.scheduler
  pathsConflict leftFields.writeSet (rightFields.readSet ++ rightFields.writeSet) ||
    pathsConflict rightFields.writeSet (leftFields.readSet ++ leftFields.writeSet)

/-- `maxParallelLanes !== undefined && count >= maxParallelLanes`. -/
def atLimit (maxParallelLanes : Option JsNumber) (count : Nat) : Bool :=
  maxParallelLanes.any fun limit => limit ≤ JsNumber.finite count

def readyLanes (lanes : List PreparedLane) (scheduled : List String) : List PreparedLane :=
  lanes.filter fun lane =>
    lane.spec.id ∉ scheduled ∧ ∀ dependency ∈ lane.dependsOn, dependency ∈ scheduled

/-- The loop over the ready lanes. -/
def selectLanes (maxParallelLanes : Option JsNumber) (selected : List PreparedLane) :
    List PreparedLane → List PreparedLane
  | [] => selected
  | lane :: ready =>
    if atLimit maxParallelLanes selected.length then selected
    else if selected.any (lanesConflict · lane) then selectLanes maxParallelLanes selected ready
    else selectLanes maxParallelLanes (selected ++ [lane]) ready

/-- The batch for the ready lanes, of which `first` is the first. -/
def nextBatch (maxParallelLanes : Option JsNumber) (index : Nat) (first : PreparedLane)
    (rest : List PreparedLane) : SubagentScheduleBatch :=
  match (first :: rest).find? fun lane => !lane.grant.scheduler.parallelizable with
  | some serialized =>
    { index, laneIds := [serialized.spec.id], reason := .serializedWriter }
  | none =>
    let selected := selectLanes maxParallelLanes [] (first :: rest)
    let batchLanes := if 0 < selected.length then selected else [first]
    { index
      laneIds := batchLanes.map (·.spec.id)
      reason :=
        if maxParallelLanes.isSome ∧ batchLanes.length < (first :: rest).length then .parallelLimit
        else .readyParallel }

/-- The scheduling loop, for at most `fuel` rounds: batches and blockers. `scheduled` is a set. -/
def scheduleLoop (lanes : List PreparedLane) (maxParallelLanes : Option JsNumber) :
    (fuel : Nat) → (scheduled : List String) → (batches : List SubagentScheduleBatch) →
      Option (List SubagentScheduleBatch × List String)
  | 0, _, _ => none
  | fuel + 1, scheduled, batches =>
    if scheduled.length < lanes.length then
      match readyLanes lanes scheduled with
      | [] =>
        let remaining := (lanes.filter (·.spec.id ∉ scheduled)).map (·.spec.id)
        some (batches, ["lane dependency cycle or unsatisfied dependency among: " ++
          ", ".intercalate remaining])
      | first :: rest =>
        let batch := nextBatch maxParallelLanes batches.length first rest
        scheduleLoop lanes maxParallelLanes fuel
          (batch.laneIds.foldl (fun scheduled id => scheduled.insert id) scheduled)
          (batches ++ [batch])
    else some (batches, [])

/-- `none`: more rounds than lanes. -/
def schedulePreparedLanes (lanes : List PreparedLane) (maxParallelLanes : Option JsNumber) :
    Option (List SubagentScheduleBatch × List String) :=
  scheduleLoop lanes maxParallelLanes (lanes.length + 1) [] []

/-! ## The plan -/

/-- `Math.round(value * 1000) / 1000`. -/
def round (value : ℚ) : ℚ := ⌊value * 1000 + 1 / 2⌋ / 1000

def isMapReduceShape (lanes : List PreparedLane) (batches : List SubagentScheduleBatch) : Bool :=
  match batches.head?, batches.getLast? with
  | some firstBatch, some finalBatch =>
    if batches.length < 2 then false
    else if firstBatch.laneIds.length < 2 ∨ finalBatch.laneIds.length ≠ 1 then false
    else
      match lanes.find? fun lane => some lane.spec.id = finalBatch.laneIds.head? with
      | none => false
      | some finalLane => firstBatch.laneIds.all fun laneId => laneId ∈ finalLane.dependsOn
  | _, _ => false

def selectTopology (lanes : List PreparedLane) (batches : List SubagentScheduleBatch)
    (width criticalDepth edgeCount : Nat) : SubagentSchedulerTopology :=
  if lanes.length ≤ 1 ∨ width ≤ 1 then .serial
  else if edgeCount = 0 ∧ criticalDepth = 1 then .parallel
  else if isMapReduceShape lanes batches then .mapReduce
  else .hybrid

def buildRouteFeatures (lanes : List PreparedLane) (batches : List SubagentScheduleBatch) :
    SubagentRouteFeatures :=
  let nodeCount := lanes.length
  let edgeCount := (lanes.map (·.dependsOn.length)).sum
  let width := (batches.map (·.laneIds.length)).foldl Nat.max 0
  let criticalDepth := batches.length
  let parallelizable := (lanes.filter (·.grant.scheduler.parallelizable)).length
  { topology := selectTopology lanes batches width criticalDepth edgeCount
    width
    criticalDepth
    couplingDensity :=
      round (if nodeCount ≤ 1 then 0 else edgeCount / (nodeCount * (nodeCount - 1)))
    parallelRatio := round (if nodeCount = 0 then 1 else parallelizable / nodeCount)
    nodeCount
    edgeCount }

/-- The plan, an exception, or `none` when scheduling does not end. -/
def buildSubagentOrchestrationPlan (input : BuildSubagentOrchestrationPlanInput) :
    Except PlanError (Option SubagentOrchestrationPlan) := do
  if input.maxParallelLanes.any (!isPositiveInteger ·) then
    throw (.range "maxParallelLanes must be a positive integer")
  let spawnGate ← evaluateSpawnGate input.lanes.length input.spawnPlan (input.spawnThreshold.getD 4)
  let results ← input.lanes.zipIdx.mapM fun lane =>
    prepareLane input.runId input.inventory input.spawnPlan lane.1 lane.2
  let prepared := results.map (·.lane)
  let scheduledLanes := applyReceiptConsumerDependencies prepared
  return (schedulePreparedLanes scheduledLanes input.maxParallelLanes).map fun schedule =>
    { laneGrants := scheduledLanes.map (·.grant)
      batches := schedule.1
      route := buildRouteFeatures scheduledLanes schedule.1
      spawnGate
      blockers := uniqueSorted
        (validateLaneIntake input.lanes ++ (if spawnGate.allowed then [] else [spawnGate.reason]) ++
          results.flatMap (·.blockers) ++ findDependencyBlockers prepared ++ schedule.2)
      warnings := uniqueSorted (results.flatMap (·.warnings)) }

end Subagents
