import OmkVerified.Lib.Interruptible

/-!
# Event streams

`EventStream` of `packages/ai/src/utils/event-stream.ts`: events go to the consumer that has waited
longest, or into a queue when nobody waits. A consumer is one iteration over the stream. Between the
moment when the promise of a consumer is resolved and the moment when its iteration goes on, any other
step can come.
-/

namespace Ai.EventStream

variable {T R : Type}

/-- Where an iteration stands. -/
inductive Consumer (T : Type)
  /-- Before the first `next()`, or at a `yield`. -/
  | idle
  /-- Its `resolve` is in `waiting`. -/
  | waiting
  /-- Its promise is resolved with an event, or with `done: true`. -/
  | resolved (result : Option T)
  | returned

/-- The fields of the stream and its consumers. The last two fields are no part of the program: the
deliveries in the order in which they were made, and what each iteration has yielded. -/
structure State (T R : Type) where
  queue : List T
  waiting : List Nat
  done : Bool
  finalResult : Option R
  consumer : Nat → Consumer T
  handed : List (Nat × T)
  received : Nat → List T

def init : State T R := ⟨[], [], false, none, fun _ => .idle, [], fun _ => []⟩

inductive Action (T R : Type)
  | push (event : T)
  | «end» (result : Option R)
  /-- The consumer asks for an event. -/
  | next (consumer : Nat)
  /-- The iteration goes on after its promise has been resolved. -/
  | resume (consumer : Nat)
  /-- The consumer leaves its loop at a `yield`. -/
  | leave (consumer : Nat)

namespace State

variable (s : State T R)

/-- A promise is resolved by the first call of its `resolve`. -/
def resolveFinalResult (result : R) : State T R :=
  { s with finalResult := some (s.finalResult.getD result) }

def withConsumer (consumer : Nat) (state : Consumer T) : State T R :=
  { s with consumer := Function.update s.consumer consumer state }

/-- The event is yielded to the consumer. -/
def yield (consumer : Nat) (event : T) : State T R :=
  { s.withConsumer consumer .idle with
    received := Function.update s.received consumer (s.received consumer ++ [event]) }

/-- The second half of `push`. -/
def deliver (event : T) : State T R :=
  match s.waiting with
  | waiter :: waiting =>
    { s.withConsumer waiter (.resolved (some event)) with
      waiting := waiting
      handed := s.handed ++ [(waiter, event)] }
  | [] => { s with queue := s.queue ++ [event] }

/-- The loop at the end of `end`. -/
def dismiss : State T R :=
  { s with
    waiting := []
    consumer := fun consumer =>
      if consumer ∈ s.waiting then .resolved none else s.consumer consumer }

end State

section Steps

variable (isComplete : T → Bool) (extractResult : T → R)

def push (s : State T R) (event : T) : State T R :=
  if s.done then s
  else if isComplete event then
    (({ s with done := true } : State T R).resolveFinalResult (extractResult event)).deliver event
  else s.deliver event

def «end» (s : State T R) (result : Option R) : State T R :=
  let ended : State T R := { s with done := true }
  (result.elim ended ended.resolveFinalResult).dismiss

/-- The body of the loop of an iteration, up to its next `yield`, `await` or `return`. -/
def next (s : State T R) (consumer : Nat) : State T R :=
  match s.queue with
  | event :: queue =>
    ({ s with queue := queue, handed := s.handed ++ [(consumer, event)] } : State T R).yield consumer event
  | [] =>
    if s.done then s.withConsumer consumer .returned
    else { s.withConsumer consumer .waiting with waiting := s.waiting ++ [consumer] }

def step (s : State T R) : Action T R → Option (State T R)
  | .push event => some (push isComplete extractResult s event)
  | .«end» result => some («end» s result)
  | .next consumer =>
    match s.consumer consumer with
    | .idle => some (next s consumer)
    | _ => none
  | .resume consumer =>
    match s.consumer consumer with
    | .resolved (some event) => some (s.yield consumer event)
    | .resolved none => some (s.withConsumer consumer .returned)
    | _ => none
  | .leave consumer =>
    match s.consumer consumer with
    | .idle => some (s.withConsumer consumer .returned)
    | _ => none

end Steps

/-! ## What the stream promises -/

section Promise

variable (isComplete : T → Bool) (extractResult : T → R)

/-- The action completes the stream, if it is not complete already. -/
def Action.completes : Action T R → Bool
  | .push event => isComplete event
  | .«end» _ => true
  | _ => false

/-- The events that are pushed up to the completion of the stream. -/
def pushedEvents : List (Action T R) → List T
  | [] => []
  | .push event :: actions => event :: if isComplete event then [] else pushedEvents actions
  | .«end» _ :: _ => []
  | _ :: actions => pushedEvents actions

/-- The first value that is given to `end`. -/
def endValue : List (Action T R) → Option R
  | [] => none
  | .«end» (some result) :: _ => some result
  | _ :: actions => endValue actions

/-- The result of the event that completes the stream or the first value of `end`, whichever comes
first; an event that comes after an `end` does not complete the stream any more. -/
def expectedResult : List (Action T R) → Option R
  | [] => none
  | .push event :: actions =>
    if isComplete event then some (extractResult event) else expectedResult actions
  | .«end» (some result) :: _ => some result
  | .«end» none :: actions => endValue actions
  | _ :: actions => expectedResult actions

/-- The event that a consumer has been given and has not taken yet. -/
def Consumer.inFlight : Consumer T → List T
  | .resolved (some event) => [event]
  | .resolved none | .idle | .waiting | .returned => []

/-- The events that have been delivered to a consumer. -/
def deliveredTo (handed : List (Nat × T)) (consumer : Nat) : List T :=
  (handed.filter fun delivery => delivery.1 = consumer).map Prod.snd

structure Delivers (actions : List (Action T R)) (s : State T R) : Prop where
  /-- Each event is in one delivery or in the queue, in the order in which they were pushed. -/
  accounted : s.handed.map Prod.snd ++ s.queue = pushedEvents isComplete actions
  /-- Each consumer gets what was delivered to it. -/
  consumed : ∀ consumer,
    s.received consumer ++ (s.consumer consumer).inFlight = deliveredTo s.handed consumer
  /-- Only consumers that ask for events get them. -/
  asked : ∀ delivery ∈ s.handed, .next delivery.1 ∈ actions
  /-- A consumer that is the only one sees the events in their order without gaps. -/
  single : ∀ consumer, (∀ other, .next other ∈ actions → other = consumer) →
    s.received consumer ++ (s.consumer consumer).inFlight ++ s.queue = pushedEvents isComplete actions
  exclusive : s.queue = [] ∨ s.waiting = []
  result : s.finalResult = expectedResult isComplete extractResult actions

end Promise

end Ai.EventStream
