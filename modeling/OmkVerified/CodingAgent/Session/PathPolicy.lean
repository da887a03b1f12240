import OmkVerified.Agent.ToolResourceClaims

/-!
# The session path policy

`packages/coding-agent/src/core/session-path-policy.ts`: canonical session paths, containment, and the decision
whether a session file may be read or repaired. The decision is made from evidence that the caller has observed.
Texts are lists of characters, and `String.prototype.toLowerCase` is a parameter.
-/

namespace CodingAgent.SessionPathPolicy

open Lib (isLineTerminator utf16)
open Agent (driveAbsolute joinSegments normalizePathSlashes)

def sessionPathMaxLength : Nat := 4096

/-- `MAX_SESSION_PATH_CHAIN_ENTRIES`. -/
def maxSessionPathChainEntries : Nat := 256

inductive SessionPathPlatform
  | posix
  | win32
deriving DecidableEq

/-- `CONTROL_CHAR_RE`. -/
def isControlChar (c : Char) : Bool := decide (c.toNat ≤ 0x1f) || decide (c.toNat = 0x7f)

/-- `WIN_RESERVED_NAMES`. -/
def winReservedNames : List (List Char) :=
  [['c', 'o', 'n'], ['p', 'r', 'n'], ['a', 'u', 'x'], ['n', 'u', 'l']] ++
    ['1', '2', '3', '4', '5', '6', '7', '8', '9'].flatMap fun i => [['c', 'o', 'm', i], ['l', 'p', 't', i]]

/-! ## Canonical paths -/

def splitSegments (value : List Char) : List (List Char) :=
  (value.splitOn '/').filter fun segment => decide (segment.length > 0)

/-- The loop over the segments, with what it has collapsed so far in reverse. -/
def collapse (refused : List Char → Bool) : List (List Char) → List (List Char) → Option (List (List Char))
  | [], collapsed => some collapsed.reverse
  | segment :: segments, collapsed =>
    if segment = ['.'] then collapse refused segments collapsed
    else if segment = ['.', '.'] then
      match collapsed with
      | [] => none
      | _ :: collapsed => collapse refused segments collapsed
    else if refused segment then none
    else collapse refused segments (segment :: collapsed)

def canonicalizePosix (raw : List Char) : Option (List Char) :=
  if raw.head? ≠ some '/' then none
  else (collapse (fun _ => false) (splitSegments raw) []).map fun collapsed => '/' :: joinSegments collapsed

structure CanonicalParts where
  drive : Option Char
  segments : List (List Char)

variable (toLowerCase : List Char → List Char)

/-- The segments that Windows would read as something else: a stream, a trimmed name or a device. -/
def winHazard (segment : List Char) : Bool :=
  segment.contains ':' || segment.getLast? == some '.' || segment.getLast? == some ' ' ||
    winReservedNames.contains (toLowerCase (segment.takeWhile fun c => c ≠ '.'))

def canonicalizeWin32 (raw : List Char) : Option (List Char) :=
  let normalized := normalizePathSlashes raw
  if ['/', '/', '?', '/'].isPrefixOf normalized || ['/', '/', '.', '/'].isPrefixOf normalized then none
  else if ['/', '/'].isPrefixOf normalized then none
  else
    match driveAbsolute normalized with
    | none => none
    | some (letter, path) =>
      (collapse (winHazard toLowerCase) (splitSegments path) []).map fun collapsed =>
        letter.toLower :: ':' :: '/' :: joinSegments collapsed

def canonicalizeSessionPath (raw : List Char) (platform : SessionPathPlatform) : Option (List Char) :=
  if (utf16 raw).length = 0 || decide ((utf16 raw).length > sessionPathMaxLength) then none
  else if raw.any isControlChar then none
  else
    match platform with
    | .posix => canonicalizePosix raw
    | .win32 => canonicalizeWin32 toLowerCase raw

def parseCanonical (canonical : List Char) : SessionPathPlatform → Option CanonicalParts
  | .posix => if canonical.head? ≠ some '/' then none else some ⟨none, splitSegments canonical⟩
  | .win32 =>
    -- `/^([a-z]):\/(.*)$/`
    match canonical with
    | letter :: ':' :: '/' :: path =>
      if letter.isLower && !path.any isLineTerminator then some ⟨some letter, splitSegments path⟩ else none
    | _ => none

def segmentEqual (left right : List Char) : SessionPathPlatform → Bool
  | .win32 => toLowerCase left = toLowerCase right
  | .posix => left = right

/-- The loop over the segments of the root. -/
def segmentsBegin (platform : SessionPathPlatform) : List (List Char) → List (List Char) → Bool
  | [], _ => true
  | root :: roots, candidate :: candidates =>
    segmentEqual toLowerCase root candidate platform && segmentsBegin platform roots candidates
  | _ :: _, [] => false

def partsContain (root candidate : CanonicalParts) (platform : SessionPathPlatform) : Bool :=
  if root.drive ≠ candidate.drive then false
  else if candidate.segments.length < root.segments.length then false
  else segmentsBegin toLowerCase platform root.segments candidate.segments

def canonicalPathEqual (a b : Option (List Char)) (platform : SessionPathPlatform) : Bool :=
  match a.bind (parseCanonical · platform), b.bind (parseCanonical · platform) with
  | some aParts, some bParts =>
    if aParts.drive ≠ bParts.drive then false
    else if aParts.segments.length ≠ bParts.segments.length then false
    else segmentsBegin toLowerCase platform aParts.segments bParts.segments
  | _, _ => false

def sessionPathContains (root candidate : List Char) (platform : SessionPathPlatform) : Bool :=
  match (canonicalizeSessionPath toLowerCase root platform).bind (parseCanonical · platform),
      (canonicalizeSessionPath toLowerCase candidate platform).bind (parseCanonical · platform) with
  | some rootParts, some candidateParts => partsContain toLowerCase rootParts candidateParts platform
  | _, _ => false

/-! ## Evidence -/

inductive SessionPathIntent
  | inspectMetadata
  | inspectContent
  | repair
  | repairDryRun
deriving DecidableEq

inductive SessionPathLinkKind
  | none
  | symlink
  | reparse
deriving DecidableEq

inductive SessionPathLockState
  | absent
  | live
  | stale
  | foreign
  | unknown
deriving DecidableEq

inductive SessionPathReason
  | authorized
  | metadataOnly
  | lexicalInvalid
  | evidenceMismatch
  | targetExternal
  | targetIsRoot
  | identityRequired
  | lockRequired
  | symlinkInChain
  | outsideRealpath
  | nonregular
  | nlinkNotOne
  | ownerMismatch
  | statRace
  | statAfterMismatch
  | lockLive
  | lockForeign
  | lockUnknown
  | lockStaleIneligible
deriving DecidableEq

inductive SessionPathStatus
  | authorized
  | metadataOnly
  | rejected
  | blocked
deriving DecidableEq

inductive SessionPathClassification
  | root
  | inside
  | external
deriving DecidableEq

structure SessionPathIdentity where
  owner : List Char

structure SessionPathStat where
  dev : List Char
  ino : List Char
  nlink : Nat
  size : Nat
  mtime : Nat
  regular : Bool
  owner : List Char
deriving DecidableEq

structure SessionPathChainEntry where
  lexical : List Char
  realpath : List Char
  linkKind : SessionPathLinkKind

structure SessionPathTarget where
  lexical : List Char
  realpath : List Char

structure SessionPathOpened where
  dev : List Char
  ino : List Char

structure SessionPathEvidence where
  schemaVersion : Nat
  platform : SessionPathPlatform
  trustedRootLexical : List Char
  trustedRootRealpath : List Char
  target : SessionPathTarget
  chain : List SessionPathChainEntry
  statBefore : SessionPathStat
  statAfter : Option SessionPathStat
  opened : SessionPathOpened

structure SessionPathLockEvidence where
  state : SessionPathLockState
  sameHost : Bool
  pidDefinitelyAbsent : Bool
  holderPid : Option (List Char)

/-- The one kind of action, `remove_stale_lock`. -/
structure SessionPathPlannedAction where
  holderPid : Option (List Char)

structure SessionPathCapabilities where
  canInspectMetadata : Bool
  canReadContents : Bool
  canRepair : Bool

structure SessionPathDecision where
  platform : SessionPathPlatform
  intent : SessionPathIntent
  status : SessionPathStatus
  reason : SessionPathReason
  dryRun : Bool
  classification : SessionPathClassification
  targetLexical : List Char
  targetRealpath : List Char
  trustedRootLexical : List Char
  trustedRootRealpath : List Char
  capabilities : SessionPathCapabilities
  plannedActions : List SessionPathPlannedAction
  scheduledWrites : Nat

structure SessionPathAccessInput where
  platform : SessionPathPlatform
  root : List Char
  target : List Char
  intent : SessionPathIntent
  identity : Option SessionPathIdentity
  evidence : SessionPathEvidence
  lock : Option SessionPathLockEvidence

/-! ## Validation

The checks that the types do not make already. -/

/-- `CANONICAL_DECIMAL_RE`. -/
def isCanonicalDecimal : List Char → Bool
  | [] => false
  | first :: rest =>
    (first = '0' && rest.isEmpty) ||
      (first.isDigit && first != '0' && decide (rest.length ≤ 19) && rest.all Char.isDigit)

def assertThat (holds : Bool) (message : String) : Except String Unit :=
  if holds then .ok () else .error message

def assertCanonicalDecimal (value : List Char) (label : String) : Except String Unit :=
  assertThat (isCanonicalDecimal value)
    (label ++ " must be a canonical decimal string (\"0\" or a nonzero decimal without leading zeros, up to 20 digits)")

def assertSafeNonNegInt (value : Nat) (label : String) : Except String Unit :=
  assertThat (decide (value ≤ 9007199254740991)) (label ++ " must be a finite safe non-negative integer")

def assertPathString (value : List Char) (label : String) : Except String Unit := do
  assertThat (decide ((utf16 value).length ≤ sessionPathMaxLength))
    s!"{label} exceeds the {sessionPathMaxLength} character cap"
  assertThat (!value.any isControlChar) (label ++ " must not contain C0/DEL control characters")

def validateStat (value : SessionPathStat) (label : String) : Except String Unit := do
  assertCanonicalDecimal value.dev (label ++ ".dev")
  assertCanonicalDecimal value.ino (label ++ ".ino")
  assertSafeNonNegInt value.nlink (label ++ ".nlink")
  assertSafeNonNegInt value.size (label ++ ".size")
  assertSafeNonNegInt value.mtime (label ++ ".mtime")
  assertCanonicalDecimal value.owner (label ++ ".owner")

def validateChainEntry (value : SessionPathChainEntry) (label : String) : Except String Unit := do
  assertPathString value.lexical (label ++ ".lexical")
  assertPathString value.realpath (label ++ ".realpath")

def validateChain : Nat → List SessionPathChainEntry → Except String Unit
  | _, [] => .ok ()
  | index, entry :: chain => do
    validateChainEntry entry s!"evidence.chain[{index}]"
    validateChain (index + 1) chain

def validateEvidence (evidence : SessionPathEvidence) : Except String Unit := do
  assertThat (decide (evidence.schemaVersion = 1)) "evidence.schemaVersion must be 1"
  assertPathString evidence.trustedRootLexical "evidence.trustedRootLexical"
  assertPathString evidence.trustedRootRealpath "evidence.trustedRootRealpath"
  assertPathString evidence.target.lexical "evidence.target.lexical"
  assertPathString evidence.target.realpath "evidence.target.realpath"
  assertThat (!evidence.chain.isEmpty) "evidence.chain must be non-empty"
  assertThat (decide (evidence.chain.length ≤ maxSessionPathChainEntries))
    s!"evidence.chain exceeds MAX_SESSION_PATH_CHAIN_ENTRIES ({maxSessionPathChainEntries})"
  validateChain 0 evidence.chain
  validateStat evidence.statBefore "evidence.statBefore"
  match evidence.statAfter with
  | none => pure ()
  | some statAfter => validateStat statAfter "evidence.statAfter"
  assertCanonicalDecimal evidence.opened.dev "evidence.opened.dev"
  assertCanonicalDecimal evidence.opened.ino "evidence.opened.ino"

def validateLock (lock : SessionPathLockEvidence) : Except String Unit :=
  match lock.holderPid with
  | none => pure ()
  | some holderPid => assertCanonicalDecimal holderPid "lock.holderPid"

/-- An identity that is not a decimal counts as none. -/
def normalizeIdentity (value : SessionPathIdentity) : Option SessionPathIdentity :=
  if isCanonicalDecimal value.owner then some value else none

def validateInput (rawInput : SessionPathAccessInput) : Except String SessionPathAccessInput := do
  validateEvidence rawInput.evidence
  match rawInput.lock with
  | none => pure ()
  | some lock => validateLock lock
  return { rawInput with identity := rawInput.identity.bind normalizeIdentity }

/-! ## The decision -/

def classifyTarget (rootCanonical targetCanonical : List Char) (platform : SessionPathPlatform) :
    SessionPathClassification :=
  match parseCanonical rootCanonical platform, parseCanonical targetCanonical platform with
  | some rootParts, some targetParts =>
    if !partsContain toLowerCase rootParts targetParts platform then .external
    else if rootParts.drive = targetParts.drive && rootParts.segments.length = targetParts.segments.length then .root
    else .inside
  | _, _ => .external

def buildDecision (intent : SessionPathIntent) (status : SessionPathStatus) (reason : SessionPathReason)
    (classification : SessionPathClassification) (platform : SessionPathPlatform) (evidence : SessionPathEvidence)
    (capabilities : SessionPathCapabilities) (plannedActions : List SessionPathPlannedAction)
    (scheduledWrites : Nat) : SessionPathDecision where
  platform := platform
  intent := intent
  status := status
  reason := reason
  dryRun := decide (intent = .repairDryRun)
  classification := classification
  targetLexical := evidence.target.lexical
  targetRealpath := evidence.target.realpath
  trustedRootLexical := evidence.trustedRootLexical
  trustedRootRealpath := evidence.trustedRootRealpath
  capabilities := capabilities
  plannedActions := plannedActions
  scheduledWrites := scheduledWrites

def rejected (platform : SessionPathPlatform) (intent : SessionPathIntent) (reason : SessionPathReason)
    (evidence : SessionPathEvidence) (classification : SessionPathClassification) : SessionPathDecision :=
  buildDecision intent .rejected reason classification platform evidence ⟨false, false, false⟩ [] 0

def blocked (platform : SessionPathPlatform) (intent : SessionPathIntent) (reason : SessionPathReason)
    (evidence : SessionPathEvidence) (classification : SessionPathClassification) : SessionPathDecision :=
  buildDecision intent .blocked reason classification platform evidence ⟨false, false, false⟩ [] 0

def metadataOnly (platform : SessionPathPlatform) (intent : SessionPathIntent) (evidence : SessionPathEvidence)
    (classification : SessionPathClassification) : SessionPathDecision :=
  buildDecision intent .metadataOnly .metadataOnly classification platform evidence ⟨true, false, false⟩ [] 0

def authorized (platform : SessionPathPlatform) (intent : SessionPathIntent) (evidence : SessionPathEvidence)
    (classification : SessionPathClassification) (canReadContents canRepair : Bool)
    (plannedActions : List SessionPathPlannedAction) (scheduledWrites : Nat) : SessionPathDecision :=
  buildDecision intent .authorized .authorized classification platform evidence ⟨true, canReadContents, canRepair⟩
    plannedActions scheduledWrites

def isDirectChild (parentCanonical childCanonical : List Char) (platform : SessionPathPlatform) : Bool :=
  match parseCanonical parentCanonical platform, parseCanonical childCanonical platform with
  | some parentParts, some childParts =>
    if parentParts.drive ≠ childParts.drive then false
    else if childParts.segments.length ≠ parentParts.segments.length + 1 then false
    else segmentsBegin toLowerCase platform parentParts.segments childParts.segments
  | _, _ => false

/-- The loop over the chain, from the entry at `index`. -/
def bindEntries (rootParts : CanonicalParts) (platform : SessionPathPlatform) :
    Nat → List Char → List Char → List SessionPathChainEntry → Option SessionPathReason
  | _, _, _, [] => none
  | index, prevLexical, prevReal, entry :: chain =>
    if entry.linkKind ≠ .none then some .symlinkInChain
    else
      match canonicalizeSessionPath toLowerCase entry.lexical platform,
          canonicalizeSessionPath toLowerCase entry.realpath platform with
      | some entryLexical, some entryReal =>
        match parseCanonical entryLexical platform, parseCanonical entryReal platform with
        | some entryLexicalParts, some entryRealParts =>
          if !partsContain toLowerCase rootParts entryLexicalParts platform then some .evidenceMismatch
          else if !partsContain toLowerCase rootParts entryRealParts platform then some .outsideRealpath
          else if decide (index > 0) && !isDirectChild toLowerCase prevLexical entryLexical platform then
            some .evidenceMismatch
          else if decide (index > 0) && !isDirectChild toLowerCase prevReal entryReal platform then
            some .evidenceMismatch
          else bindEntries rootParts platform (index + 1) entryLexical entryReal chain
        | _, _ => some .evidenceMismatch
      | _, _ => some .evidenceMismatch

def bindChain (evidence : SessionPathEvidence)
    (rootCanonical rootRealpathCanonical targetCanonical targetRealpathCanonical : List Char)
    (platform : SessionPathPlatform) : Option SessionPathReason :=
  if !canonicalPathEqual toLowerCase (some rootCanonical) (some rootRealpathCanonical) platform then
    some .evidenceMismatch
  else
    match parseCanonical rootCanonical platform, parseCanonical targetCanonical platform with
    | some rootParts, some targetLexicalParts =>
      if (evidence.chain.length : Int) ≠ targetLexicalParts.segments.length - rootParts.segments.length + 1 then
        some .evidenceMismatch
      else
        match evidence.chain.head?, evidence.chain.getLast? with
        | some first, some last =>
          match canonicalizeSessionPath toLowerCase first.lexical platform,
              canonicalizeSessionPath toLowerCase first.realpath platform with
          | some firstLexical, some firstReal =>
            if !canonicalPathEqual toLowerCase (some firstLexical) (some rootCanonical) platform ||
                !canonicalPathEqual toLowerCase (some firstReal) (some rootRealpathCanonical) platform then
              some .evidenceMismatch
            else if
              !canonicalPathEqual toLowerCase (canonicalizeSessionPath toLowerCase last.lexical platform)
                  (some targetCanonical) platform ||
                !canonicalPathEqual toLowerCase (canonicalizeSessionPath toLowerCase last.realpath platform)
                  (some targetRealpathCanonical) platform then
              some .evidenceMismatch
            else bindEntries toLowerCase rootParts platform 0 firstLexical firstReal evidence.chain
          | _, _ => some .evidenceMismatch
        | _, _ => some .evidenceMismatch -- a validated chain is not empty
    | _, _ => some .evidenceMismatch

def evaluateLock (lock : SessionPathLockEvidence) : Option SessionPathReason :=
  match lock.state with
  | .absent => if lock.holderPid.isNone && lock.pidDefinitelyAbsent then none else some .lockUnknown
  | .live =>
    if lock.sameHost && lock.holderPid.isSome && !lock.pidDefinitelyAbsent then some .lockLive else some .lockUnknown
  | .foreign => if !lock.sameHost then some .lockForeign else some .lockUnknown
  | .stale =>
    if lock.sameHost && lock.holderPid.isSome && lock.pidDefinitelyAbsent then none else some .lockStaleIneligible
  | .unknown => some .lockUnknown

def plannedActionsForLock (lock : SessionPathLockEvidence) : List SessionPathPlannedAction :=
  if lock.state = .stale && lock.holderPid.isSome then [⟨lock.holderPid⟩] else []

/-- The decision when nothing stands in the way. -/
def authorizedFor (input : SessionPathAccessInput) (lock : SessionPathLockEvidence) : SessionPathDecision :=
  let isDryRun := decide (input.intent = .repairDryRun)
  if input.intent = .inspectContent then authorized input.platform input.intent input.evidence .inside true false [] 0
  else
    let plannedActions := plannedActionsForLock lock
    let scheduledWrites := if isDryRun then 0 else plannedActions.length
    authorized input.platform input.intent input.evidence .inside false (!isDryRun) plannedActions scheduledWrites

/-- The checks of the open file and of the lock, once the chain is bound; `statEqual` compares every field. -/
def decideOpened (input : SessionPathAccessInput) (identity : SessionPathIdentity) (lock : SessionPathLockEvidence) :
    SessionPathDecision :=
  let evidence := input.evidence
  let block (reason : SessionPathReason) := blocked input.platform input.intent reason evidence .inside
  if !evidence.statBefore.regular then block .nonregular
  else if evidence.statBefore.nlink ≠ 1 then block .nlinkNotOne
  else if identity.owner ≠ evidence.statBefore.owner then block .ownerMismatch
  else if evidence.opened.dev ≠ evidence.statBefore.dev || evidence.opened.ino ≠ evidence.statBefore.ino then
    block .statRace
  else if evidence.statAfter ≠ some evidence.statBefore then block .statAfterMismatch
  else
    match evaluateLock lock with
    | some lockBlock => block lockBlock
    | none => authorizedFor input lock

/-- The decision on the canonical paths of the request and of the evidence. -/
def decideCanonical (input : SessionPathAccessInput)
    (rootCanonical targetCanonical rootRealpathCanonical targetRealpathCanonical : List Char) : SessionPathDecision :=
  let platform := input.platform
  let intent := input.intent
  let evidence := input.evidence
  let lexicalClassification := classifyTarget toLowerCase rootCanonical targetCanonical platform
  if intent = .inspectMetadata then metadataOnly platform intent evidence lexicalClassification
  else if lexicalClassification = .external then rejected platform intent .targetExternal evidence .external
  else if lexicalClassification = .root then rejected platform intent .targetIsRoot evidence .root
  else if classifyTarget toLowerCase rootRealpathCanonical targetRealpathCanonical platform ≠ .inside then
    blocked platform intent .outsideRealpath evidence .inside
  else
    match input.identity with
    | none => blocked platform intent .identityRequired evidence .inside
    | some identity =>
      match input.lock with
      | none => blocked platform intent .lockRequired evidence .inside
      | some lock =>
        match bindChain toLowerCase evidence rootCanonical rootRealpathCanonical targetCanonical
            targetRealpathCanonical platform with
        | some chainReason => blocked platform intent chainReason evidence .inside
        | none => decideOpened input identity lock

/-- The decision on a validated input. -/
def decideValidated (input : SessionPathAccessInput) : SessionPathDecision :=
  let platform := input.platform
  let evidence := input.evidence
  match canonicalizeSessionPath toLowerCase input.root platform,
      canonicalizeSessionPath toLowerCase input.target platform with
  | some rootCanonical, some targetCanonical =>
    if evidence.platform ≠ platform then blocked platform input.intent .evidenceMismatch evidence .external
    else if
      !canonicalPathEqual toLowerCase (canonicalizeSessionPath toLowerCase evidence.trustedRootLexical platform)
          (some rootCanonical) platform ||
        !canonicalPathEqual toLowerCase (canonicalizeSessionPath toLowerCase evidence.target.lexical platform)
          (some targetCanonical) platform then
      blocked platform input.intent .evidenceMismatch evidence .external
    else
      match canonicalizeSessionPath toLowerCase evidence.trustedRootRealpath platform,
          canonicalizeSessionPath toLowerCase evidence.target.realpath platform with
      | some rootRealpathCanonical, some targetRealpathCanonical =>
        decideCanonical toLowerCase input rootCanonical targetCanonical rootRealpathCanonical targetRealpathCanonical
      | _, _ => blocked platform input.intent .evidenceMismatch evidence .external
  | _, _ => rejected platform input.intent .lexicalInvalid evidence .external

def decideSessionPathAccess (rawInput : SessionPathAccessInput) : Except String SessionPathDecision := do
  let input ← validateInput rawInput
  return decideValidated toLowerCase input

end CodingAgent.SessionPathPolicy
