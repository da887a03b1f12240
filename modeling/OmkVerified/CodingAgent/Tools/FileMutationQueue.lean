import OmkVerified.Lib.Interruptible
import OmkVerified.Lib.OrderedMap

/-!
# The queue of file mutations

`withFileMutationQueue` of `file-mutation-queue.ts`: the calls are registered one after the other,
each under the key of its file, and a function runs when the ones registered before it under its key
are through. Every `await` and every reaction of a promise is a step of its own, so that the steps of
any number of calls can come in any order.
-/

namespace CodingAgent.MutationQueue

open Lib

variable {Path : Type} [DecidableEq Path]

/-- What `realpath` comes back with. -/
inductive Realpath (Path : Type)
  | resolved (path : Path)
  | failed (code : Option String)

def isMissingPathError (code : Option String) : Bool := code = some "ENOENT" || code = some "ENOTDIR"

/-- The key of a file, unless `realpath` fails for another reason than a missing file. -/
def getMutationQueueKey (resolvedPath : Path) : Realpath Path → Option Path
  | .resolved path => some path
  | .failed code => if isMissingPathError code then some resolvedPath else none

/-- A promise of the table: one that is resolved from the start, or the `chainedQueue` of a call. -/
inductive Queue
  | resolved
  | chained (call : Nat)

/-- What a registration comes to. -/
structure Registration (Path : Type) where
  key : Path
  currentQueue : Queue

/-- How far a call has got. -/
inductive Stage (Path : Type)
  | uncalled
  /-- The registration waits for the one before it. -/
  | called
  | resolving (resolvedPath : Path)
  /-- The registration is settled and the call has not taken notice yet. -/
  | registered
  | unregistered
  /-- The call awaits `currentQueue`. -/
  | waiting
  /-- The function runs. -/
  | running
  | settled
deriving DecidableEq

/-- The calls are numbered in the order in which they are made. -/
structure State (Path : Type) where
  calls : Nat
  stage : Nat → Stage Path
  registration : Nat → Option (Registration Path)
  /-- Whether the promise that the call made of `registrationQueue` is settled. -/
  registrationDone : Nat → Bool
  /-- Whether the `chainedQueue` of the call is settled. -/
  chainDone : Nat → Bool
  fileMutationQueues : OrderedMap Path Nat

def init : State Path :=
  ⟨0, fun _ => .uncalled, fun _ => none, fun _ => false, fun _ => false, .empty⟩

inductive Action (Path : Type)
  | call
  | beginRegistration (call : Nat) (resolvedPath : Path)
  | settleRealpath (call : Nat) (result : Realpath Path)
  | settleRegistrationQueue (call : Nat)
  | resume (call : Nat)
  | start (call : Nat)
  /-- The function returns or throws. -/
  | finish (call : Nat) (threw : Bool)
  | settleChain (call : Nat)

namespace State

variable (s : State Path)

def withStage (call : Nat) (stage : Stage Path) : State Path :=
  { s with stage := Function.update s.stage call stage }

/-- The promise that was in `registrationQueue` when the call was made is settled. -/
def previousDone : Nat → Bool
  | 0 => true
  | call + 1 => s.registrationDone call

def queueDone : Queue → Bool
  | .resolved => true
  | .chained call => s.chainDone call

/-- The registration of the call is settled. -/
def registrationSettled (call : Nat) : Bool :=
  match s.stage call with
  | .uncalled | .called | .resolving _ => false
  | .registered | .unregistered | .waiting | .running | .settled => true

/-- The synchronous end of a registration. -/
def register (call : Nat) (key : Path) : State Path :=
  let currentQueue := (s.fileMutationQueues.get? key).elim .resolved .chained
  { s.withStage call .registered with
    registration := Function.update s.registration call (some ⟨key, currentQueue⟩)
    fileMutationQueues := s.fileMutationQueues.set key call }

/-- The `finally` block of a call. -/
def release (call : Nat) (key : Path) : State Path :=
  { s.withStage call .settled with
    fileMutationQueues :=
      if s.fileMutationQueues.get? key = some call then s.fileMutationQueues.delete key
      else s.fileMutationQueues }

end State

/-- One step of one of the calls. -/
def step (s : State Path) : Action Path → Option (State Path)
  | .call => some { s.withStage s.calls .called with calls := s.calls + 1 }
  | .beginRegistration call resolvedPath =>
    if s.stage call = .called ∧ s.previousDone call then some (s.withStage call (.resolving resolvedPath))
    else none
  | .settleRealpath call result =>
    match s.stage call with
    | .resolving resolvedPath =>
      match getMutationQueueKey resolvedPath result with
      | some key => some (s.register call key)
      | none => some (s.withStage call .unregistered)
    | _ => none
  | .settleRegistrationQueue call =>
    if s.registrationSettled call ∧ s.registrationDone call = false then
      some { s with registrationDone := Function.update s.registrationDone call true }
    else none
  | .resume call =>
    match s.stage call with
    | .registered => some (s.withStage call .waiting)
    | .unregistered => some (s.withStage call .settled)
    | _ => none
  | .start call =>
    match s.registration call with
    | some registration =>
      if s.stage call = .waiting ∧ s.queueDone registration.currentQueue then
        some (s.withStage call .running)
      else none
    | none => none
  | .finish call _ =>
    match s.registration call with
    | some registration =>
      if s.stage call = .running then some (s.release call registration.key) else none
    | none => none
  | .settleChain call =>
    match s.registration call with
    | some registration =>
      if s.stage call = .settled ∧ s.queueDone registration.currentQueue ∧ s.chainDone call = false then
        some { s with chainDone := Function.update s.chainDone call true }
      else none
    | none => none

/-! ## What the queue promises -/

/-- The key under which the call is registered. -/
def State.keyOf (s : State Path) (call : Nat) : Option Path :=
  (s.registration call).map Registration.key

/-- Both calls are registered under one key. -/
def State.SameKey (s : State Path) (first second : Nat) : Prop :=
  s.keyOf first = s.keyOf second ∧ s.keyOf first ≠ none

/-- The function of the call runs or has run. -/
def State.Started (s : State Path) (call : Nat) : Prop :=
  s.stage call = .running ∨ (s.stage call = .settled ∧ s.keyOf call ≠ none)

/-- Only the file system and the functions themselves, and new calls, can bring the calls on. -/
def State.Quiet (s : State Path) : Prop :=
  ∀ call, (∀ resolvedPath, step s (.beginRegistration call resolvedPath) = none) ∧
    step s (.settleRegistrationQueue call) = none ∧ step s (.resume call) = none ∧
    step s (.start call) = none ∧ step s (.settleChain call) = none

/-- What a call that is not through waits for in a quiet state: a key that is being resolved, its
own or that of a call made before it, or a function that runs, its own or that of a call made before
it and registered under the same key. -/
def State.Waits (s : State Path) (call : Nat) : Prop :=
  (∃ earlier ≤ call, ∃ resolvedPath, s.stage earlier = .resolving resolvedPath) ∨
    s.stage call = .running ∨
    ∃ earlier < call, s.stage earlier = .running ∧ s.SameKey earlier call

/-- The steps from a stage to the end of the call, and one more. -/
def Stage.stepsLeft : Stage Path → Nat
  | .uncalled | .called => 6
  | .resolving _ => 5
  | .registered | .unregistered => 4
  | .waiting => 3
  | .running => 2
  | .settled => 1

/-- The steps that a call and its promises have still to take. -/
def State.stepsLeft (s : State Path) (call : Nat) : Nat :=
  (s.stage call).stepsLeft + (if s.registrationDone call then 0 else 1) + if s.chainDone call then 0 else 1

/-- The steps that all calls made so far can still take. -/
def State.remaining (s : State Path) : Nat := ∑ call ∈ Finset.range s.calls, s.stepsLeft call

structure Serialized (s : State Path) : Prop where
  /-- Two functions of one key never run at the same time. -/
  exclusive : ∀ first second, s.stage first = .running → s.stage second = .running →
    s.SameKey first second → first = second
  /-- A function starts when those of the earlier calls with its key are through. -/
  ordered : ∀ first second, first < second → s.SameKey first second → s.Started second →
    s.stage first = .settled
  /-- A call waits for nothing but keys and functions, never for a call that has failed. -/
  unblocked : s.Quiet → ∀ call < s.calls, s.stage call ≠ .settled → s.Waits call
  /-- The steps that are not new calls come to an end. -/
  progress : ∀ action s', step s action = some s' → action = .call ∨ s'.remaining < s.remaining
  /-- The table is empty when all calls are through. -/
  emptied : (∀ call < s.calls, s.stage call = .settled) → s.fileMutationQueues.keys = []

end CodingAgent.MutationQueue
