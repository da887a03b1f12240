import OmkVerified.Lib.Regex
import OmkVerified.Lib.JsNumber

/-!
# Snapshots of what invalidates the context cache

`context-budget-v2-cache-invalidation.ts`: snapshots of one fork, the events that change them, and the
merge of two snapshots. The numbers of a snapshot are natural numbers; that no other number passes
the checks is left out, as are the checks on keys and accessors.
-/

namespace CodingAgent.CacheInvalidation

open Lib

inductive CounterKey
  | transcriptRepair
  | toolResultDisposition
  | evidenceReceipt
  | userSteering
  | settings
deriving DecidableEq

inductive IdentityKey
  | worktreeFingerprint
  | activeModelId
  | compactionModelId
deriving DecidableEq

def IdentityKey.text : IdentityKey → String
  | worktreeFingerprint => "worktreeFingerprint"
  | activeModelId => "activeModelId"
  | compactionModelId => "compactionModelId"

@[ext]
structure Counters where
  transcriptRepair : Nat
  toolResultDisposition : Nat
  evidenceReceipt : Nat
  userSteering : Nat
  settings : Nat
deriving DecidableEq

namespace Counters

/-- `counters[key]`. -/
def get (counters : Counters) : CounterKey → Nat
  | .transcriptRepair => counters.transcriptRepair
  | .toolResultDisposition => counters.toolResultDisposition
  | .evidenceReceipt => counters.evidenceReceipt
  | .userSteering => counters.userSteering
  | .settings => counters.settings

/-- `counters[key] = value`. -/
def set (counters : Counters) (key : CounterKey) (value : Nat) : Counters :=
  match key with
  | .transcriptRepair => { counters with transcriptRepair := value }
  | .toolResultDisposition => { counters with toolResultDisposition := value }
  | .evidenceReceipt => { counters with evidenceReceipt := value }
  | .userSteering => { counters with userSteering := value }
  | .settings => { counters with settings := value }

@[simp] theorem get_set (counters : Counters) (key other : CounterKey) (value : Nat) :
    (counters.set key value).get other = if other = key then value else counters.get other := by
  cases key <;> cases other <;> rfl

end Counters

/-- `ContextCacheInvalidationSnapshot`. -/
@[ext]
structure Snapshot where
  schemaVersion : String
  forkId : String
  globalEpoch : Nat
  counters : Counters
  worktreeFingerprint : String
  activeModelId : String
  compactionModelId : String
deriving DecidableEq

namespace Snapshot

/-- `snapshot[key]`. -/
def identity (snapshot : Snapshot) : IdentityKey → String
  | .worktreeFingerprint => snapshot.worktreeFingerprint
  | .activeModelId => snapshot.activeModelId
  | .compactionModelId => snapshot.compactionModelId

def setIdentity (snapshot : Snapshot) (key : IdentityKey) (value : String) : Snapshot :=
  match key with
  | .worktreeFingerprint => { snapshot with worktreeFingerprint := value }
  | .activeModelId => { snapshot with activeModelId := value }
  | .compactionModelId => { snapshot with compactionModelId := value }

@[simp] theorem identity_setIdentity (snapshot : Snapshot) (key other : IdentityKey) (value : String) :
    (snapshot.setIdentity key value).identity other =
      if other = key then value else snapshot.identity other := by
  cases key <;> cases other <;> rfl

@[simp] theorem setIdentity_schemaVersion (snapshot : Snapshot) (key : IdentityKey) (value : String) :
    (snapshot.setIdentity key value).schemaVersion = snapshot.schemaVersion := by
  cases key <;> rfl

@[simp] theorem setIdentity_forkId (snapshot : Snapshot) (key : IdentityKey) (value : String) :
    (snapshot.setIdentity key value).forkId = snapshot.forkId := by
  cases key <;> rfl

@[simp] theorem setIdentity_globalEpoch (snapshot : Snapshot) (key : IdentityKey) (value : String) :
    (snapshot.setIdentity key value).globalEpoch = snapshot.globalEpoch := by
  cases key <;> rfl

@[simp] theorem setIdentity_counters (snapshot : Snapshot) (key : IdentityKey) (value : String) :
    (snapshot.setIdentity key value).counters = snapshot.counters := by
  cases key <;> rfl

end Snapshot

/-- `ContextCacheInvalidationEvent`. -/
inductive Event
  | counter (key : CounterKey)
  | identity (key : IdentityKey) (value : String)
deriving DecidableEq

inductive Status
  | applied
  | unchanged
  | overflow
deriving DecidableEq

structure Result where
  status : Status
  snapshot : Snapshot

/-- `ContextCacheMergeResult`. -/
inductive MergeResult
  | equal (snapshot : Snapshot)
  | dominant (snapshot : Snapshot)
  | divergent (left right : Snapshot)
deriving DecidableEq

/-- `CONTEXT_CACHE_INVALIDATION_SCHEMA_VERSION`. -/
def schemaVersion : String := "context-cache-invalidation-v1"

/-- `CONTEXT_CACHE_INVALIDATION_SAFE_ID_MAX_LENGTH`. -/
def safeIdMaxLength : Nat := 256

/-- `MAX_REPRESENTABLE`. -/
def maxRepresentable : Nat := 2 ^ 53 - 1

/-! ## Checks -/

/-- A character of `[\w.\-:+]`. -/
def isSafeIdChar (c : Char) : Bool := c.isAlphanum || "_.-:+".toList.contains c

/-- A literal text under the flag `i`. -/
def ignoringCase (text : String) : Regex :=
  .literal (fun p c => c.toLower == p.toLower) text.toList

/-- A literal text. -/
def exactly (text : String) : Regex := .literal (fun p c => p == c) text.toList

/-- A letter or digit, or one of the characters of `text`. -/
def alnumOr (text : String) (c : Char) : Bool := c.isAlphanum || text.toList.contains c

/-- `CREDENTIAL_MARKERS`, between `^` and `$`. -/
def credentialMarkers : List Regex :=
  [.sequence [ignoringCase "sk-", .many (alnumOr "_-") 8],
    .sequence
      [ignoringCase "gh", .cls fun c => "pousr".toList.contains c.toLower, ignoringCase "_",
        .many (alnumOr "") 16],
    .sequence [ignoringCase "github_pat_", .many (alnumOr "_") 20],
    .sequence
      [ignoringCase "xox", .cls fun c => "pabrse".toList.contains c.toLower, ignoringCase "-",
        .many (alnumOr "-") 10],
    .sequence
      (exactly "AKIA" :: List.replicate 16 (.cls fun c => c.isDigit || c.isUpper)),
    .sequence
      [exactly "eyJ", .many (alnumOr "_-") 8, exactly ".", .many (alnumOr "_-") 8, exactly ".",
        .many (alnumOr "_-") 8],
    ignoringCase "bearer"]

def looksLikeCredential (value : String) : Bool :=
  credentialMarkers.any fun marker => marker.testAll value.toList

def fail (reason : String) : Except String Unit := .error ("context-cache-invalidation: " ++ reason)

def assertSafeId (value field : String) : Except String Unit :=
  if value.toList.length = 0 then fail (field ++ " must not be empty")
  else if safeIdMaxLength < jsLength value then
    fail (field ++ " exceeds " ++ toString safeIdMaxLength ++ " characters")
  else if !value.toList.all isSafeIdChar then fail (field ++ " contains unsafe characters")
  else if looksLikeCredential value then
    fail (field ++ " looks like a credential and was rejected")
  else .ok ()

def assertNonNegativeSafeInt (value : Nat) (field : String) : Except String Unit :=
  if maxRepresentable < value then fail (field ++ " must be a safe integer") else .ok ()

/-- The events and the fields of a snapshot in the order of the source. -/
def validateEvent : Event → Except String Unit
  | .counter _ => .ok ()
  | .identity key value => assertSafeId value key.text

/-- `validateContextCacheInvalidationSnapshot`. -/
def validateSnapshot (snapshot : Snapshot) : Except String Unit := do
  if snapshot.schemaVersion ≠ schemaVersion then fail ("schemaVersion must be " ++ schemaVersion)
  assertSafeId snapshot.forkId "forkId"
  assertNonNegativeSafeInt snapshot.globalEpoch "globalEpoch"
  assertNonNegativeSafeInt snapshot.counters.transcriptRepair "counters.transcriptRepair"
  assertNonNegativeSafeInt snapshot.counters.toolResultDisposition "counters.toolResultDisposition"
  assertNonNegativeSafeInt snapshot.counters.evidenceReceipt "counters.evidenceReceipt"
  assertNonNegativeSafeInt snapshot.counters.userSteering "counters.userSteering"
  assertNonNegativeSafeInt snapshot.counters.settings "counters.settings"
  assertSafeId snapshot.worktreeFingerprint "worktreeFingerprint"
  assertSafeId snapshot.activeModelId "activeModelId"
  assertSafeId snapshot.compactionModelId "compactionModelId"

/-! ## Events -/

def applyCounterEvent (current : Snapshot) (key : CounterKey) : Result :=
  let value := current.counters.get key
  if maxRepresentable ≤ value ∨ maxRepresentable ≤ current.globalEpoch then ⟨.overflow, current⟩
  else
    ⟨.applied,
      { current with
        globalEpoch := current.globalEpoch + 1
        counters := current.counters.set key (value + 1) }⟩

def applyIdentityEvent (current : Snapshot) (key : IdentityKey) (value : String) :
    Except String Result := do
  assertSafeId value key.text
  if current.identity key = value then pure ⟨.unchanged, current⟩
  else if maxRepresentable ≤ current.globalEpoch then pure ⟨.overflow, current⟩
  else
    pure ⟨.applied, { current with globalEpoch := current.globalEpoch + 1 }.setIdentity key value⟩

def applyContextCacheInvalidation (current : Snapshot) (event : Event) : Except String Result := do
  validateSnapshot current
  validateEvent event
  match event with
  | .counter key => pure (applyCounterEvent current key)
  | .identity key value => applyIdentityEvent current key value

/-! ## Merging -/

def snapshotsEqual (a b : Snapshot) : Bool :=
  a.globalEpoch = b.globalEpoch &&
    a.counters.transcriptRepair = b.counters.transcriptRepair &&
    a.counters.toolResultDisposition = b.counters.toolResultDisposition &&
    a.counters.evidenceReceipt = b.counters.evidenceReceipt &&
    a.counters.userSteering = b.counters.userSteering &&
    a.counters.settings = b.counters.settings &&
    a.worktreeFingerprint = b.worktreeFingerprint &&
    a.activeModelId = b.activeModelId &&
    a.compactionModelId = b.compactionModelId

def dominates (x y : Snapshot) : Bool :=
  y.globalEpoch ≤ x.globalEpoch &&
    y.counters.transcriptRepair ≤ x.counters.transcriptRepair &&
    y.counters.toolResultDisposition ≤ x.counters.toolResultDisposition &&
    y.counters.evidenceReceipt ≤ x.counters.evidenceReceipt &&
    y.counters.userSteering ≤ x.counters.userSteering &&
    y.counters.settings ≤ x.counters.settings &&
    x.worktreeFingerprint = y.worktreeFingerprint &&
    x.activeModelId = y.activeModelId &&
    x.compactionModelId = y.compactionModelId

def mergeContextCacheSnapshots (a b : Snapshot) : Except String MergeResult := do
  validateSnapshot a
  validateSnapshot b
  if a.forkId ≠ b.forkId then pure (.divergent a b)
  else if snapshotsEqual a b then pure (.equal a)
  else if dominates a b && !dominates b a then pure (.dominant a)
  else if dominates b a && !dominates a b then pure (.dominant b)
  else pure (.divergent a b)

end CodingAgent.CacheInvalidation
