import OmkVerified.Agent.ToolResourceClaims
import OmkVerified.Lib.Layering

/-!
# The dag scheduler of a tool batch

`packages/agent/src/tool-dag-scheduler.ts`: each call of a batch goes one level after the last level
that holds a conflicting call, against per-level summaries of the claims placed there, and a width
cap then cuts the levels into chunks.
-/

namespace Agent

/-- `ResolvedClaimEntry`. -/
structure ResolvedClaimEntry where
  sourceIndex : Nat
  resolution : ToolClaimResolution
  canonicalClaims : List ToolResourceClaim

/-- `resolution.kind === "claims" ? canonicalizeClaims(resolution.claims) : []`. -/
def ToolClaimResolution.canonicalClaims : ToolClaimResolution → List ToolResourceClaim
  | .exclusive => []
  | .claims held => canonicalizeClaims held

/-- `resolveBatchClaims`, from the resolutions of the calls in source order. -/
def resolveBatchClaims (resolutions : List ToolClaimResolution) : List ResolvedClaimEntry :=
  resolutions.mapIdx fun index resolution => ⟨index, resolution, resolution.canonicalClaims⟩

/-- `DagLevel`: the calls of a level with the claims they hold there. -/
structure DagLevel where
  indices : List Nat
  writeClaims : List ToolResourceClaim
  readClaims : List ToolResourceClaim
  hasExclusive : Bool

def DagLevel.empty : DagLevel := ⟨[], [], [], false⟩

/-- A call joins a level: the body of `assignDagLevels` after the choice of `target`. -/
def DagLevel.place (target : DagLevel) (entry : ResolvedClaimEntry) : DagLevel :=
  if entry.resolution = .exclusive ||
      entry.canonicalClaims.any fun claim => claim.access = .exclusive then
    { target with indices := target.indices ++ [entry.sourceIndex], hasExclusive := true }
  else
    { target with
      indices := target.indices ++ [entry.sourceIndex]
      writeClaims := target.writeClaims ++
        entry.canonicalClaims.filter fun claim => claim.access = .write
      readClaims := target.readClaims ++
        entry.canonicalClaims.filter fun claim => !decide (claim.access = .write) }

section Levels

variable (toLowerCase : List Char → List Char)

/-- `claimConflictsAny`. -/
def claimConflictsAny (claim : ToolResourceClaim) (candidates : List ToolResourceClaim) : Bool :=
  candidates.any fun candidate => claimsConflict toLowerCase claim candidate

/-- The body of the claim loop of `resolutionConflictsLevel`. -/
def claimConflictsLevel (claim : ToolResourceClaim) (level : DagLevel) : Bool :=
  match claim.access with
  | .exclusive => true
  | .write => claimConflictsAny toLowerCase claim level.writeClaims ||
      claimConflictsAny toLowerCase claim level.readClaims
  | .read => claimConflictsAny toLowerCase claim level.writeClaims

/-- `resolutionConflictsLevel`. -/
def resolutionConflictsLevel (resolution : ToolClaimResolution) (level : DagLevel) : Bool :=
  if level.hasExclusive then true
  else
    match resolution with
    | .exclusive => true
    | .claims claims => claims.any fun claim => claimConflictsLevel toLowerCase claim level

/-- The `targetIndex` loop of `assignDagLevels`, from level `levelIndex` on. -/
def targetIndex (resolution : ToolClaimResolution) : List DagLevel → (levelIndex target : Nat) → Nat
  | [], _, target => target
  | level :: levels, levelIndex, target =>
    targetIndex resolution levels (levelIndex + 1)
      (if resolutionConflictsLevel toLowerCase resolution level then levelIndex + 1 else target)

/-- The body of the outer loop of `assignDagLevels`. A missing target is pushed at the end. -/
def placeEntry (levels : List DagLevel) (entry : ResolvedClaimEntry) : List DagLevel :=
  let target := targetIndex toLowerCase entry.resolution levels 0 0
  match levels[target]? with
  | some level => levels.set target (level.place entry)
  | none => levels ++ [DagLevel.empty.place entry]

/-- The levels of `assignDagLevels` with their summaries. -/
def dagLevels (entries : List ResolvedClaimEntry) : List DagLevel :=
  entries.foldl (placeEntry toLowerCase) []

/-- `assignDagLevels`. -/
def assignDagLevels (entries : List ResolvedClaimEntry) : List (List Nat) :=
  (dagLevels toLowerCase entries).map DagLevel.indices

/-- The `maxConcurrency` option: a number that is not finite is an infinity or `NaN`, a finite one
is a rational. -/
inductive ConcurrencyCap
  | absent
  | nonFinite
  | finite (cap : ℚ)

/-- `applyConcurrencyCap`. -/
def applyConcurrencyCap (levels : List (List Nat)) : ConcurrencyCap → List (List Nat)
  | .absent => levels
  | .nonFinite => levels
  | .finite cap =>
    if cap ≤ 0 then levels
    else
      let integerCap := (max 1 ⌊cap⌋).toNat
      levels.flatMap fun level =>
        if level.length ≤ integerCap then [level] else Lib.Layering.slices integerCap level

/-- The levels of `scheduleDagLevels`, from the resolutions of the calls in source order. -/
def scheduleDagLevels (resolutions : List ToolClaimResolution) (maxConcurrency : ConcurrencyCap) :
    List (List Nat) :=
  applyConcurrencyCap (assignDagLevels toLowerCase (resolveBatchClaims resolutions)) maxConcurrency

/-! ## The documented conflict of two calls

`exclusive` access conflicts with every call, regardless of resource kind or key.
-/

/-- The call runs alone: an exclusive resolution, or a claim with exclusive access. -/
def ToolClaimResolution.runsAlone : ToolClaimResolution → Bool
  | .exclusive => true
  | .claims held => held.any fun claim => claim.access = .exclusive

/-- Two calls conflict as the claim type documents it. -/
def callsConflict (left right : ToolClaimResolution) : Bool :=
  left.runsAlone || right.runsAlone || resolutionsConflict toLowerCase left right

/-- Calls `i` and `j` of the batch conflict. -/
def ConflictAt (resolutions : List ToolClaimResolution) (i j : Nat) : Prop :=
  ∃ left right, resolutions[i]? = some left ∧ resolutions[j]? = some right ∧
    callsConflict toLowerCase left right = true

end Levels

end Agent
