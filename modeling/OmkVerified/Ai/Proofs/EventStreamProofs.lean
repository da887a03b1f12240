import OmkVerified.Ai.EventStream

/-!
# Every event is delivered once

A consumer waits only while the queue is empty, so the deliveries followed by the queue are the pushed
events in their order, whatever the order of the steps is.
-/

namespace Ai.EventStream

open Lib

variable {T R : Type} {s : State T R} {pushed : List T} {Asked : Nat → Prop}

/-! ## Where the events are -/

/-- The pushed events are delivered to consumers that have asked for one, or in the queue. -/
structure Flow (pushed : List T) (Asked : Nat → Prop) (s : State T R) : Prop where
  accounted : s.handed.map Prod.snd ++ s.queue = pushed
  consumed : ∀ consumer,
    s.received consumer ++ (s.consumer consumer).inFlight = deliveredTo s.handed consumer
  asked : ∀ delivery ∈ s.handed, Asked delivery.1
  waits : ∀ consumer, consumer ∈ s.waiting ↔ s.consumer consumer = .waiting
  askedWaiting : ∀ consumer ∈ s.waiting, Asked consumer
  nodup : s.waiting.Nodup
  exclusive : s.queue = [] ∨ s.waiting = []

theorem Flow.init : Flow [] Asked (init : State T R) where
  accounted := rfl
  consumed _ := rfl
  asked _ h := absurd h List.not_mem_nil
  waits consumer := by simp [EventStream.init]
  askedWaiting _ h := absurd h List.not_mem_nil
  nodup := List.nodup_nil
  exclusive := .inl rfl

theorem deliveredTo_append (handed : List (Nat × T)) (consumer other : Nat) (event : T) :
    deliveredTo (handed ++ [(other, event)]) consumer =
      deliveredTo handed consumer ++ if other = consumer then [event] else [] := by
  rw [deliveredTo, List.filter_append, List.map_append, ← deliveredTo]
  congr 1
  by_cases h : other = consumer
  · simp [h]
  · simp [h]

theorem Flow.deliver (h : Flow pushed Asked s) (event : T) :
    Flow (pushed ++ [event]) Asked (s.deliver event) := by
  cases hwaiting : s.waiting with
  | nil =>
    have hdeliver : s.deliver event = { s with queue := s.queue ++ [event] } := by
      rw [State.deliver, hwaiting]
    rw [hdeliver]
    refine ⟨?_, h.consumed, h.asked, h.waits, h.askedWaiting, h.nodup, .inr hwaiting⟩
    rw [← List.append_assoc, h.accounted]
  | cons waiter waiting =>
    have hqueue : s.queue = [] := by
      rcases h.exclusive with hqueue | hnone
      · exact hqueue
      · rw [hwaiting] at hnone
        cases hnone
    have hdeliver : s.deliver event =
        { s.withConsumer waiter (.resolved (some event)) with
          waiting := waiting
          handed := s.handed ++ [(waiter, event)] } := by
      rw [State.deliver, hwaiting]
    have hnodup := h.nodup
    rw [hwaiting, List.nodup_cons] at hnodup
    have hwaiter : s.consumer waiter = .waiting := (h.waits waiter).mp (by simp [hwaiting])
    rw [hdeliver]
    refine ⟨?_, fun consumer => ?_, fun delivery hdelivery => ?_, fun consumer => ?_,
      fun consumer hconsumer => ?_, hnodup.2, .inl hqueue⟩
    · have haccounted := h.accounted
      rw [hqueue, List.append_nil] at haccounted
      simp [State.withConsumer, hqueue, haccounted]
    · have hconsumed := h.consumed consumer
      have hhanded := deliveredTo_append s.handed consumer waiter event
      by_cases hsame : consumer = waiter
      · subst hsame
        rw [hwaiter, Consumer.inFlight, List.append_nil] at hconsumed
        rw [if_pos rfl, ← hconsumed] at hhanded
        simpa [Consumer.inFlight, State.withConsumer] using hhanded.symm
      · rw [if_neg (Ne.symm hsame), List.append_nil, ← hconsumed] at hhanded
        simpa [Consumer.inFlight, State.withConsumer, hsame] using hhanded.symm
    · rcases List.mem_append.mp hdelivery with hold | hnew
      · exact h.asked delivery hold
      · obtain rfl := List.mem_singleton.mp hnew
        exact h.askedWaiting waiter (by simp [hwaiting])
    · by_cases hsame : consumer = waiter
      · subst hsame
        simp [State.withConsumer, hnodup.1]
      · have hwaits := h.waits consumer
        rw [hwaiting, List.mem_cons] at hwaits
        simpa [State.withConsumer, hsame] using hwaits
    · exact h.askedWaiting consumer (by simp [hwaiting, hconsumer])

theorem Flow.dismiss (h : Flow pushed Asked s) : Flow pushed Asked s.dismiss := by
  refine ⟨h.accounted, fun consumer => ?_, h.asked, fun consumer => ?_,
    fun _ hconsumer => absurd hconsumer List.not_mem_nil, List.nodup_nil, .inr rfl⟩
  · have hconsumed := h.consumed consumer
    by_cases hwaiting : consumer ∈ s.waiting
    · rw [(h.waits consumer).mp hwaiting] at hconsumed
      simpa [State.dismiss, Consumer.inFlight, hwaiting] using hconsumed
    · simpa [State.dismiss, Consumer.inFlight, hwaiting] using hconsumed
  · by_cases hwaiting : consumer ∈ s.waiting
    · simp [State.dismiss, hwaiting]
    · have hnot : s.consumer consumer ≠ .waiting := fun hw => hwaiting ((h.waits consumer).mpr hw)
      simpa [State.dismiss, hwaiting] using hnot

/-- A consumer that has no event and does not wait changes its state. -/
theorem Flow.withConsumer (h : Flow pushed Asked s) {consumer : Nat} {state : Consumer T}
    (hbefore : s.consumer consumer ≠ .waiting) (hempty : (s.consumer consumer).inFlight = [])
    (hafter : state = .idle ∨ state = .returned) :
    Flow pushed Asked (s.withConsumer consumer state) := by
  refine ⟨h.accounted, fun other => ?_, h.asked, fun other => ?_, h.askedWaiting, h.nodup, h.exclusive⟩
  · have hconsumed := h.consumed other
    by_cases hsame : other = consumer
    · subst hsame
      rw [hempty] at hconsumed
      rcases hafter with rfl | rfl
      · simpa [State.withConsumer, Consumer.inFlight] using hconsumed
      · simpa [State.withConsumer, Consumer.inFlight] using hconsumed
    · simpa [State.withConsumer, Consumer.inFlight, hsame] using hconsumed
  · have hwaits := h.waits other
    by_cases hsame : other = consumer
    · subst hsame
      have hnot : other ∉ s.waiting := fun hmem => hbefore (hwaits.mp hmem)
      rcases hafter with rfl | rfl
      · simpa [State.withConsumer] using hnot
      · simpa [State.withConsumer] using hnot
    · simpa [State.withConsumer, hsame] using hwaits

theorem Flow.next (h : Flow pushed Asked s) {consumer : Nat} (hidle : s.consumer consumer = .idle)
    (hasked : Asked consumer) : Flow pushed Asked (next s consumer) := by
  have hempty : (s.consumer consumer).inFlight = [] := by rw [hidle, Consumer.inFlight]
  have hnot : consumer ∉ s.waiting := by
    intro hmem
    have hwaiting := (h.waits consumer).mp hmem
    rw [hidle] at hwaiting
    cases hwaiting
  unfold EventStream.next
  cases hqueue : s.queue with
  | cons event queue =>
    have hwaiting : s.waiting = [] := by
      rcases h.exclusive with hnone | hwaiting
      · rw [hqueue] at hnone
        cases hnone
      · exact hwaiting
    refine ⟨?_, fun other => ?_, fun delivery hdelivery => ?_, fun other => ?_, h.askedWaiting, h.nodup,
      .inr hwaiting⟩
    · have haccounted := h.accounted
      rw [hqueue] at haccounted
      simpa [State.yield, State.withConsumer] using haccounted
    · have hconsumed := h.consumed other
      have hhanded := deliveredTo_append s.handed other consumer event
      by_cases hsame : other = consumer
      · subst hsame
        rw [hempty, List.append_nil] at hconsumed
        rw [if_pos rfl, ← hconsumed] at hhanded
        simpa [Consumer.inFlight, State.yield, State.withConsumer] using hhanded.symm
      · rw [if_neg (Ne.symm hsame), List.append_nil, ← hconsumed] at hhanded
        simpa [Consumer.inFlight, State.yield, State.withConsumer, hsame] using hhanded.symm
    · rcases List.mem_append.mp hdelivery with hold | hnew
      · exact h.asked delivery hold
      · obtain rfl := List.mem_singleton.mp hnew
        exact hasked
    · have hwaits := h.waits other
      by_cases hsame : other = consumer
      · subst hsame
        simpa [State.yield, State.withConsumer] using hnot
      · simpa [State.yield, State.withConsumer, hsame] using hwaits
  | nil =>
    by_cases hdone : s.done = true
    · simp only [hdone, if_true]
      exact h.withConsumer (by simp [hidle]) hempty (.inr rfl)
    · simp only [if_neg hdone]
      refine ⟨h.accounted, fun other => ?_, h.asked, fun other => ?_, fun other hother => ?_, ?_,
        .inl hqueue⟩
      · have hconsumed := h.consumed other
        by_cases hsame : other = consumer
        · subst hsame
          rw [hempty] at hconsumed
          simpa [State.withConsumer, Consumer.inFlight] using hconsumed
        · simpa [State.withConsumer, Consumer.inFlight, hsame] using hconsumed
      · have hwaits := h.waits other
        by_cases hsame : other = consumer
        · subst hsame
          simp [State.withConsumer]
        · simpa [State.withConsumer, hsame] using hwaits
      · rcases List.mem_append.mp hother with hold | hnew
        · exact h.askedWaiting other hold
        · obtain rfl := List.mem_singleton.mp hnew
          exact hasked
      · have hdisjoint : s.waiting.Disjoint [consumer] := by
          intro other hmem hsame
          obtain rfl := List.mem_singleton.mp hsame
          exact hnot hmem
        exact h.nodup.append (List.nodup_singleton consumer) hdisjoint

theorem Flow.yield (h : Flow pushed Asked s) {consumer : Nat} {event : T}
    (hresolved : s.consumer consumer = .resolved (some event)) :
    Flow pushed Asked (s.yield consumer event) := by
  refine ⟨h.accounted, fun other => ?_, h.asked, fun other => ?_, h.askedWaiting, h.nodup, h.exclusive⟩
  · have hconsumed := h.consumed other
    by_cases hsame : other = consumer
    · subst hsame
      rw [hresolved] at hconsumed
      simpa [State.yield, State.withConsumer, Consumer.inFlight] using hconsumed
    · simpa [State.yield, State.withConsumer, Consumer.inFlight, hsame] using hconsumed
  · have hwaits := h.waits other
    by_cases hsame : other = consumer
    · subst hsame
      rw [hresolved] at hwaits
      simpa [State.yield, State.withConsumer] using hwaits
    · simpa [State.yield, State.withConsumer, hsame] using hwaits

theorem Flow.mono {Asked' : Nat → Prop} (h : Flow pushed Asked s) (himp : ∀ c, Asked c → Asked' c) :
    Flow pushed Asked' s :=
  ⟨h.accounted, h.consumed, fun d hd => himp _ (h.asked d hd), h.waits,
    fun c hc => himp _ (h.askedWaiting c hc), h.nodup, h.exclusive⟩

/-! ## What is expected of longer runs -/

variable {isComplete : T → Bool} {extractResult : T → R} {actions : List (Action T R)}

/-- The events of one more action. -/
def Action.events : Action T R → List T
  | .push event => [event]
  | _ => []

/-- The result that one more action brings to a stream that is complete or not. -/
def Action.result (isComplete : T → Bool) (extractResult : T → R) (done : Bool) :
    Action T R → Option R
  | .push event => if !done && isComplete event then some (extractResult event) else none
  | .«end» result => result
  | _ => none

theorem pushedEvents_append (action : Action T R) :
    pushedEvents isComplete (actions ++ [action]) =
      pushedEvents isComplete actions ++
        if actions.any (Action.completes isComplete) then [] else action.events := by
  induction actions with
  | nil => cases action <;> simp [pushedEvents, Action.events]
  | cons first actions ih =>
    cases first with
    | push event =>
      by_cases hcomplete : isComplete event = true
      · simp [pushedEvents, Action.completes, hcomplete]
      · simp [pushedEvents, Action.completes, hcomplete, ih]
    | «end» result => simp [pushedEvents, Action.completes]
    | next consumer => simpa [pushedEvents, Action.completes] using ih
    | resume consumer => simpa [pushedEvents, Action.completes] using ih
    | leave consumer => simpa [pushedEvents, Action.completes] using ih

theorem endValue_append (action : Action T R) :
    endValue (actions ++ [action]) =
      (endValue actions).or (action.result isComplete extractResult true) := by
  induction actions with
  | nil =>
    cases action with
    | «end» result => cases result <;> simp [endValue, Action.result]
    | push event => simp [endValue, Action.result]
    | next consumer => rfl
    | resume consumer => rfl
    | leave consumer => rfl
  | cons first actions ih =>
    cases first with
    | «end» result => cases result <;> simp [endValue, ih]
    | push event => simpa [endValue] using ih
    | next consumer => simpa [endValue] using ih
    | resume consumer => simpa [endValue] using ih
    | leave consumer => simpa [endValue] using ih

theorem expectedResult_append (action : Action T R) :
    expectedResult isComplete extractResult (actions ++ [action]) =
      (expectedResult isComplete extractResult actions).or
        (action.result isComplete extractResult (actions.any (Action.completes isComplete))) := by
  induction actions with
  | nil =>
    cases action with
    | «end» result => cases result <;> simp [expectedResult, endValue, Action.result]
    | push event => simp [expectedResult, Action.result]
    | next consumer => rfl
    | resume consumer => rfl
    | leave consumer => rfl
  | cons first actions ih =>
    cases first with
    | push event =>
      by_cases hcomplete : isComplete event = true
      · simp [expectedResult, hcomplete]
      · simp [expectedResult, Action.completes, hcomplete, ih]
    | «end» result =>
      cases result with
      | some result => simp [expectedResult]
      | none =>
        have hvalue := @endValue_append _ _ isComplete extractResult actions action
        simpa [expectedResult, Action.completes] using hvalue
    | next consumer => simpa [expectedResult, Action.completes] using ih
    | resume consumer => simpa [expectedResult, Action.completes] using ih
    | leave consumer => simpa [expectedResult, Action.completes] using ih

/-! ## Runs -/

/-- What holds of the actions so far and the state they lead to. -/
structure History (isComplete : T → Bool) (extractResult : T → R) (actions : List (Action T R))
    (s : State T R) : Prop where
  flow : Flow (pushedEvents isComplete actions) (fun consumer => .next consumer ∈ actions) s
  done : s.done = actions.any (Action.completes isComplete)
  result : s.finalResult = expectedResult isComplete extractResult actions

/-- An action that brings no event, does not complete the stream and has no result. -/
theorem History.quiet {s' : State T R} {action : Action T R} (h : History isComplete extractResult actions s)
    (hflow : Flow (pushedEvents isComplete actions) (fun c => .next c ∈ actions ++ [action]) s')
    (hdone : s'.done = s.done) (hresult : s'.finalResult = s.finalResult)
    (hevents : action.events = []) (hcompletes : action.completes isComplete = false)
    (hnone : ∀ done, action.result isComplete extractResult done = none) :
    History isComplete extractResult (actions ++ [action]) s' := by
  refine ⟨?_, ?_, ?_⟩
  · rwa [pushedEvents_append, hevents, ite_self, List.append_nil]
  · simp [hdone, h.done, hcompletes]
  · rw [expectedResult_append, hnone, Option.or_none, hresult, h.result]

@[simp] theorem done_deliver (event : T) : (s.deliver event).done = s.done := by
  cases hwaiting : s.waiting <;> simp [State.deliver, hwaiting, State.withConsumer]

@[simp] theorem finalResult_deliver (event : T) : (s.deliver event).finalResult = s.finalResult := by
  cases hwaiting : s.waiting <;> simp [State.deliver, hwaiting, State.withConsumer]

theorem getD_eq_or (result : R) : some (s.finalResult.getD result) = s.finalResult.or (some result) := by
  cases s.finalResult <;> rfl

/-- Each step keeps the history. -/
theorem History.step {s' : State T R} {action : Action T R}
    (h : History isComplete extractResult actions s)
    (hstep : step isComplete extractResult s action = some s') :
    History isComplete extractResult (actions ++ [action]) s' := by
  have hmono : Flow (pushedEvents isComplete actions) (fun c => .next c ∈ actions ++ [action]) s :=
    h.flow.mono fun c hc => List.mem_append_left _ hc
  cases action with
  | push event =>
    obtain rfl : push isComplete extractResult s event = s' := Option.some.inj hstep
    by_cases hdone : s.done = true
    · -- nothing happens after the completion
      have hclosed := h.done
      rw [hdone] at hclosed
      simp only [push, hdone, if_true]
      refine ⟨?_, ?_, ?_⟩
      · rwa [pushedEvents_append, ← hclosed, if_pos rfl, List.append_nil]
      · simp [hdone, ← hclosed]
      · rw [expectedResult_append, ← hclosed]
        simp [Action.result, h.result]
    · have hopen : actions.any (Action.completes isComplete) = false := by
        rw [← h.done]
        simpa using hdone
      have hpushed : pushedEvents isComplete (actions ++ [.push event]) =
          pushedEvents isComplete actions ++ [event] := by
        rw [pushedEvents_append, hopen]
        rfl
      by_cases hcomplete : isComplete event = true
      · simp only [push, if_neg hdone, hcomplete, if_true]
        have hcompleted : Flow (pushedEvents isComplete actions)
            (fun c => .next c ∈ actions ++ [.push event])
            (({ s with done := true } : State T R).resolveFinalResult (extractResult event)) :=
          ⟨hmono.accounted, hmono.consumed, hmono.asked, hmono.waits, hmono.askedWaiting, hmono.nodup,
            hmono.exclusive⟩
        refine ⟨?_, ?_, ?_⟩
        · rw [hpushed]
          exact hcompleted.deliver event
        · simp [State.resolveFinalResult, Action.completes, hcomplete]
        · rw [expectedResult_append, hopen, finalResult_deliver, ← h.result]
          simp only [State.resolveFinalResult, getD_eq_or, Action.result, hcomplete, Bool.not_false,
            Bool.true_and, if_true]
      · simp only [push, if_neg hdone, if_neg hcomplete]
        refine ⟨?_, ?_, ?_⟩
        · rw [hpushed]
          exact hmono.deliver event
        · simp [h.done, Action.completes, hcomplete]
        · rw [expectedResult_append, hopen, finalResult_deliver, ← h.result]
          simp [Action.result, hcomplete]
  | «end» result =>
    obtain rfl : «end» s result = s' := Option.some.inj hstep
    have hended : Flow (pushedEvents isComplete actions)
        (fun c => .next c ∈ actions ++ [.«end» result])
        (result.elim ({ s with done := true } : State T R)
          ({ s with done := true } : State T R).resolveFinalResult) := by
      cases result <;>
        exact ⟨hmono.accounted, hmono.consumed, hmono.asked, hmono.waits, hmono.askedWaiting,
          hmono.nodup, hmono.exclusive⟩
    have hevents : (Action.«end» result : Action T R).events = [] := rfl
    refine ⟨?_, ?_, ?_⟩
    · rw [pushedEvents_append, hevents, ite_self, List.append_nil]
      exact hended.dismiss
    · cases result <;> simp [«end», State.dismiss, State.resolveFinalResult, Action.completes]
    · rw [expectedResult_append, ← h.result]
      cases result with
      | none => simp [«end», State.dismiss, Action.result]
      | some result =>
        simp only [«end», State.dismiss, State.resolveFinalResult, Option.elim_some, Action.result,
          getD_eq_or]
  | next consumer =>
    simp only [EventStream.step] at hstep
    split at hstep
    · rename_i hidle
      obtain rfl := Option.some.inj hstep
      have hflow := hmono.next hidle (List.mem_append_right _ (List.mem_singleton.mpr rfl))
      refine h.quiet hflow ?_ ?_ rfl rfl fun _ => rfl
      · unfold EventStream.next
        cases s.queue with
        | nil => by_cases hdone : s.done = true <;> simp [hdone, State.withConsumer]
        | cons event queue => rfl
      · unfold EventStream.next
        cases s.queue with
        | nil => by_cases hdone : s.done = true <;> simp [hdone, State.withConsumer]
        | cons event queue => rfl
    · cases hstep
  | resume consumer =>
    simp only [EventStream.step] at hstep
    split at hstep
    · rename_i event hresolved
      obtain rfl := Option.some.inj hstep
      exact h.quiet (hmono.yield hresolved) rfl rfl rfl rfl fun _ => rfl
    · rename_i hresolved
      obtain rfl := Option.some.inj hstep
      have hflow := @Flow.withConsumer _ _ _ _ _ hmono consumer .returned (by simp [hresolved])
        (by rw [hresolved, Consumer.inFlight]) (.inr rfl)
      exact h.quiet hflow rfl rfl rfl rfl fun _ => rfl
    · cases hstep
  | leave consumer =>
    simp only [EventStream.step] at hstep
    split at hstep
    · rename_i hidle
      obtain rfl := Option.some.inj hstep
      have hflow := @Flow.withConsumer _ _ _ _ _ hmono consumer .returned (by simp [hidle])
        (by rw [hidle, Consumer.inFlight]) (.inr rfl)
      exact h.quiet hflow rfl rfl rfl rfl fun _ => rfl
    · cases hstep

/-- Whatever the order of the steps is, the stream delivers each event once and settles its result by
what completes it first. -/
theorem eventStream_delivers
    (hrun : Machine.run (step isComplete extractResult) init actions = some s) :
    Delivers isComplete extractResult actions s := by
  have hinit : History isComplete extractResult [] (init : State T R) :=
    ⟨Flow.init, rfl, rfl⟩
  have h : History isComplete extractResult actions s :=
    Machine.run_history hinit (fun _ _ _ _ hbefore hstep => hbefore.step hstep) hrun
  refine ⟨h.flow.accounted, h.flow.consumed, h.flow.asked, fun consumer honly => ?_, h.flow.exclusive,
    h.result⟩
  have hall : deliveredTo s.handed consumer = s.handed.map Prod.snd := by
    rw [deliveredTo, List.filter_eq_self.mpr]
    intro delivery hdelivery
    simpa using honly delivery.1 (h.flow.asked delivery hdelivery)
  rw [h.flow.consumed, hall, h.flow.accounted]

/-- Two consumers wait, the first gets an event before it goes on, and the completing event goes to the
second one; a later event is lost. -/
theorem eventStream_delivers_sample :
    ∃ s, Machine.run (step (· = 9) (· + 1)) init
        [.next 0, .next 1, .push 3, .push 9, .push 4, .resume 1, .resume 0, .next 0] = some s ∧
      (s.received 0 = [3] ∧ s.received 1 = [9] ∧ s.finalResult = some 10) ∧
      Delivers (· = 9) (· + 1)
        [.next 0, .next 1, .push 3, .push 9, .push 4, .resume 1, .resume 0, .next 0] s :=
  ⟨_, rfl, ⟨rfl, rfl, rfl⟩, eventStream_delivers rfl⟩

end Ai.EventStream
