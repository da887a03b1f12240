import OmkVerified.CodingAgent.Tools.FileMutationQueue

/-!
# Mutations of one file run one after the other

The registrations are settled in the order of the calls, so each call finds the chain of the last call
with its key, and that chain is settled only when all calls before it are through.
-/

namespace CodingAgent.MutationQueue

open Lib

variable {Path : Type} {s s' : State Path}

/-! ## Small facts -/

@[simp] theorem stage_withStage (call : Nat) (stage : Stage Path) :
    (s.withStage call stage).stage = Function.update s.stage call stage := rfl

@[simp] theorem registration_withStage (call : Nat) (stage : Stage Path) :
    (s.withStage call stage).registration = s.registration := rfl

@[simp] theorem calls_withStage (call : Nat) (stage : Stage Path) :
    (s.withStage call stage).calls = s.calls := rfl

@[simp] theorem keyOf_withStage (call i : Nat) (stage : Stage Path) :
    (s.withStage call stage).keyOf i = s.keyOf i := rfl

variable {registration : Registration Path} {stage : Stage Path}

theorem keyOf_of_registration {call : Nat} (h : s.registration call = some registration) :
    s.keyOf call = some registration.key := by
  rw [State.keyOf, h, Option.map_some]

theorem exists_registration {call : Nat} {key : Path} (h : s.keyOf call = some key) :
    ∃ registration, s.registration call = some registration ∧ registration.key = key :=
  Option.map_eq_some_iff.mp h

/-- The stages after the registration. -/
def Stage.Beyond (stage : Stage Path) : Prop :=
  stage = .registered ∨ stage = .unregistered ∨ stage = .waiting ∨ stage = .running ∨ stage = .settled

theorem registrationSettled_iff {call : Nat} :
    s.registrationSettled call = true ↔ (s.stage call).Beyond := by
  unfold State.registrationSettled Stage.Beyond
  cases s.stage call <;> simp

/-! ## The order of the registrations -/

/-- The registrations are settled one after the other. -/
structure InOrder (s : State Path) : Prop where
  uncalled : ∀ i, s.stage i = .uncalled ↔ s.calls ≤ i
  /-- Before a call whose registration has begun all registrations are settled. -/
  before : ∀ i j, i < j → s.stage j ≠ .uncalled → s.stage j ≠ .called → (s.stage i).Beyond
  done : ∀ i, s.registrationDone i = true → (s.stage i).Beyond
  /-- A call with a registration is beyond it. -/
  entered : ∀ i registration, s.registration i = some registration → (s.stage i).Beyond
  /-- Only a call with a registration waits or runs. -/
  needed : ∀ i, s.registration i = none →
    s.stage i ≠ .registered ∧ s.stage i ≠ .waiting ∧ s.stage i ≠ .running

theorem InOrder.init : InOrder (init : State Path) where
  uncalled i := by simp [MutationQueue.init]
  before i j _ hj := absurd rfl hj
  done i hi := by cases hi
  entered i registration hi := by cases hi
  needed i _ := by simp [MutationQueue.init]

theorem InOrder.last {call i : Nat} {resolvedPath : Path} (h : InOrder s)
    (hstage : s.stage call = .resolving resolvedPath) (hi : (s.stage i).Beyond) : i < call := by
  by_contra hle
  have hne : i ≠ call := by
    rintro rfl
    rw [hstage] at hi
    simp [Stage.Beyond] at hi
  have hbeyond : (s.stage call).Beyond := by
    apply h.before call i (by omega)
    · intro hu
      rw [hu] at hi
      simp [Stage.Beyond] at hi
    · intro hc
      rw [hc] at hi
      simp [Stage.Beyond] at hi
  rw [hstage] at hbeyond
  simp [Stage.Beyond] at hbeyond

theorem InOrder.beyond_of_previous {call i : Nat} (h : InOrder s)
    (hprevious : s.previousDone call = true) (hi : i < call) : (s.stage i).Beyond := by
  cases call with
  | zero => omega
  | succ previous =>
    have hbeyond := h.done previous hprevious
    rcases Nat.lt_or_eq_of_le (Nat.lt_succ_iff.mp hi) with hlt | rfl
    · apply h.before i previous hlt
      · intro hu
        rw [hu] at hbeyond
        simp [Stage.Beyond] at hbeyond
      · intro hc
        rw [hc] at hbeyond
        simp [Stage.Beyond] at hbeyond
    · exact hbeyond

/-- A call goes on to a stage beyond its registration. -/
theorem InOrder.goOn {call : Nat} (h : InOrder s) (hcalls : s'.calls = s.calls)
    (hstages : s'.stage = Function.update s.stage call stage)
    (hdone : s'.registrationDone = s.registrationDone)
    (hothers : ∀ i ≠ call, s'.registration i = s.registration i) (hcall : s.stage call ≠ .uncalled)
    (hbefore : ∀ i < call, (s.stage i).Beyond) (hstage : stage.Beyond)
    (hneeded : s'.registration call = none →
      stage ≠ .registered ∧ stage ≠ .waiting ∧ stage ≠ .running) :
    InOrder s' where
  uncalled i := by
    rw [hstages, hcalls]
    by_cases hi : i = call
    · subst hi
      have hne : stage ≠ .uncalled := by
        rintro rfl
        simp [Stage.Beyond] at hstage
      have hcalled : ¬ s.calls ≤ i := fun hle => hcall ((h.uncalled i).mpr hle)
      simp only [Function.update_self, hne, hcalled]
    · rw [Function.update_of_ne hi]
      exact h.uncalled i
  before i j hij hu hc := by
    rw [hstages] at hu hc ⊢
    by_cases hi : i = call
    · subst hi
      rwa [Function.update_self]
    · rw [Function.update_of_ne hi]
      by_cases hj : j = call
      · subst hj
        exact hbefore i hij
      · rw [Function.update_of_ne hj] at hu hc
        exact h.before i j hij hu hc
  done i hi := by
    rw [hdone] at hi
    rw [hstages]
    by_cases hcalled : i = call
    · subst hcalled
      rwa [Function.update_self]
    · rw [Function.update_of_ne hcalled]
      exact h.done i hi
  entered i registration hi := by
    rw [hstages]
    by_cases hcalled : i = call
    · subst hcalled
      rwa [Function.update_self]
    · rw [Function.update_of_ne hcalled]
      rw [hothers i hcalled] at hi
      exact h.entered i registration hi
  needed i hi := by
    rw [hstages]
    by_cases hcalled : i = call
    · subst hcalled
      rw [Function.update_self]
      exact hneeded hi
    · rw [Function.update_of_ne hcalled]
      rw [hothers i hcalled] at hi
      exact h.needed i hi

/-- A call goes on to a stage before the end of its registration. -/
theorem InOrder.stay {call : Nat} (h : InOrder s)
    (hstages : s'.stage = Function.update s.stage call stage)
    (hdone : s'.registrationDone = s.registrationDone)
    (hregistration : s'.registration = s.registration) (hcall : ¬ (s.stage call).Beyond)
    (hneeded : stage ≠ .registered ∧ stage ≠ .waiting ∧ stage ≠ .running)
    (huncalled : ∀ i, s'.stage i = .uncalled ↔ s'.calls ≤ i)
    (hbefore : ∀ i < call, stage ≠ .uncalled → stage ≠ .called → (s.stage i).Beyond) :
    InOrder s' := by
  have hkeep : ∀ i, (s.stage i).Beyond → (s'.stage i).Beyond := by
    intro i hi
    have hne : i ≠ call := by
      rintro rfl
      exact hcall hi
    rwa [hstages, Function.update_of_ne hne]
  refine ⟨huncalled, fun i j hij hu hc => ?_, fun i hi => ?_, fun i registration hi => ?_, fun i hi => ?_⟩
  · rw [hstages] at hu hc
    by_cases hj : j = call
    · subst hj
      rw [Function.update_self] at hu hc
      exact hkeep i (hbefore i hij hu hc)
    · rw [Function.update_of_ne hj] at hu hc
      exact hkeep i (h.before i j hij hu hc)
  · rw [hdone] at hi
    exact hkeep i (h.done i hi)
  · rw [hregistration] at hi
    exact hkeep i (h.entered i registration hi)
  · rw [hregistration] at hi
    rw [hstages]
    by_cases hcalled : i = call
    · subst hcalled
      rwa [Function.update_self]
    · rw [Function.update_of_ne hcalled]
      exact h.needed i hi

variable [DecidableEq Path]

/-! ## What a step does -/

/-- Where the calls stand, step by step. -/
inductive Stepped (s : State Path) : Action Path → State Path → Prop
  | call : Stepped s .call { s.withStage s.calls .called with calls := s.calls + 1 }
  | beginRegistration {call : Nat} {resolvedPath : Path} (hstage : s.stage call = .called)
      (hprevious : s.previousDone call = true) :
      Stepped s (.beginRegistration call resolvedPath) (s.withStage call (.resolving resolvedPath))
  | register {call : Nat} {resolvedPath key : Path} {result : Realpath Path}
      (hstage : s.stage call = .resolving resolvedPath) :
      Stepped s (.settleRealpath call result) (s.register call key)
  | refuse {call : Nat} {resolvedPath : Path} {result : Realpath Path}
      (hstage : s.stage call = .resolving resolvedPath) :
      Stepped s (.settleRealpath call result) (s.withStage call .unregistered)
  | settleRegistrationQueue {call : Nat} (hsettled : s.registrationSettled call = true)
      (hdone : s.registrationDone call = false) :
      Stepped s (.settleRegistrationQueue call)
        { s with registrationDone := Function.update s.registrationDone call true }
  | resume {call : Nat} (hstage : s.stage call = .registered) :
      Stepped s (.resume call) (s.withStage call .waiting)
  | reject {call : Nat} (hstage : s.stage call = .unregistered) :
      Stepped s (.resume call) (s.withStage call .settled)
  | start {call : Nat} {registration : Registration Path}
      (hregistration : s.registration call = some registration) (hstage : s.stage call = .waiting)
      (hqueue : s.queueDone registration.currentQueue = true) :
      Stepped s (.start call) (s.withStage call .running)
  | finish {call : Nat} {threw : Bool} {registration : Registration Path}
      (hregistration : s.registration call = some registration) (hstage : s.stage call = .running) :
      Stepped s (.finish call threw) (s.release call registration.key)
  | settleChain {call : Nat} {registration : Registration Path}
      (hregistration : s.registration call = some registration) (hstage : s.stage call = .settled)
      (hqueue : s.queueDone registration.currentQueue = true) (hchain : s.chainDone call = false) :
      Stepped s (.settleChain call) { s with chainDone := Function.update s.chainDone call true }

theorem step_cases {action : Action Path} (h : step s action = some s') : Stepped s action s' := by
  cases action with
  | call =>
    obtain rfl := Option.some.inj h
    exact .call
  | beginRegistration call resolvedPath =>
    simp only [step, Option.ite_none_right_eq_some, Option.some.injEq] at h
    obtain ⟨⟨hstage, hprevious⟩, rfl⟩ := h
    exact .beginRegistration hstage hprevious
  | settleRealpath call result =>
    simp only [step] at h
    split at h
    · rename_i resolvedPath hstage
      split at h
      · obtain rfl := Option.some.inj h
        exact .register hstage
      · obtain rfl := Option.some.inj h
        exact .refuse hstage
    · cases h
  | settleRegistrationQueue call =>
    simp only [step, Option.ite_none_right_eq_some, Option.some.injEq] at h
    obtain ⟨⟨hsettled, hdone⟩, rfl⟩ := h
    exact .settleRegistrationQueue hsettled hdone
  | resume call =>
    simp only [step] at h
    split at h
    · rename_i hstage
      obtain rfl := Option.some.inj h
      exact .resume hstage
    · rename_i hstage
      obtain rfl := Option.some.inj h
      exact .reject hstage
    · cases h
  | start call =>
    simp only [step] at h
    split at h
    · rename_i registration hregistration
      simp only [Option.ite_none_right_eq_some, Option.some.injEq] at h
      obtain ⟨⟨hstage, hqueue⟩, rfl⟩ := h
      exact .start hregistration hstage hqueue
    · cases h
  | finish call threw =>
    simp only [step] at h
    split at h
    · rename_i registration hregistration
      simp only [Option.ite_none_right_eq_some, Option.some.injEq] at h
      obtain ⟨hstage, rfl⟩ := h
      exact .finish hregistration hstage
    · cases h
  | settleChain call =>
    simp only [step] at h
    split at h
    · rename_i registration hregistration
      simp only [Option.ite_none_right_eq_some, Option.some.injEq] at h
      obtain ⟨⟨hstage, hqueue, hchain⟩, rfl⟩ := h
      exact .settleChain hregistration hstage hqueue hchain
    · cases h

theorem InOrder.step {action : Action Path} (h : InOrder s) (hstep : Stepped s action s') :
    InOrder s' := by
  have hfront : ∀ call, s.stage call ≠ .uncalled → s.stage call ≠ .called →
      ∀ i < call, (s.stage i).Beyond := fun call hu hc i hi => h.before i call hi hu hc
  cases hstep with
  | call =>
    have hfresh : s.stage s.calls = .uncalled := (h.uncalled _).mpr le_rfl
    refine h.stay rfl rfl rfl (by simp [hfresh, Stage.Beyond]) (by simp) (fun i => ?_) ?_
    · by_cases hi : i = s.calls
      · subst hi
        simp
      · have hcalled := h.uncalled i
        simp only [stage_withStage, Function.update_of_ne hi, hcalled]
        omega
    · intro i _ _ hc
      simp at hc
  | @beginRegistration call resolvedPath hstage hprevious =>
    refine h.stay rfl rfl rfl (by simp [hstage, Stage.Beyond]) (by simp) (fun i => ?_) ?_
    · by_cases hi : i = call
      · subst hi
        have hcalled := h.uncalled i
        rw [hstage] at hcalled
        simpa using hcalled
      · rw [stage_withStage, Function.update_of_ne hi]
        exact h.uncalled i
    · exact fun i hi _ _ => h.beyond_of_previous hprevious hi
  | @register call resolvedPath key result hstage =>
    refine h.goOn rfl rfl rfl (fun i hi => Function.update_of_ne hi _ _) (by simp [hstage])
      (hfront call (by simp [hstage]) (by simp [hstage])) (by simp [Stage.Beyond]) fun hnone => ?_
    simp [State.register] at hnone
  | @refuse call resolvedPath result hstage =>
    exact h.goOn rfl rfl rfl (fun _ _ => rfl) (by simp [hstage])
      (hfront call (by simp [hstage]) (by simp [hstage])) (by simp [Stage.Beyond]) (by simp)
  | @settleRegistrationQueue call hsettled hdone =>
    refine ⟨h.uncalled, h.before, fun i hi => ?_, h.entered, h.needed⟩
    by_cases hcall : i = call
    · subst hcall
      exact (registrationSettled_iff).mp hsettled
    · simp only [Function.update_of_ne hcall] at hi
      exact h.done i hi
  | @resume call hstage =>
    have hregistration : s.registration call ≠ none := fun hnone => (h.needed call hnone).1 hstage
    exact h.goOn rfl rfl rfl (fun _ _ => rfl) (by simp [hstage])
      (hfront call (by simp [hstage]) (by simp [hstage])) (by simp [Stage.Beyond])
      (fun hnone => absurd hnone hregistration)
  | @reject call hstage =>
    exact h.goOn rfl rfl rfl (fun _ _ => rfl) (by simp [hstage])
      (hfront call (by simp [hstage]) (by simp [hstage])) (by simp [Stage.Beyond]) (by simp)
  | @start call registration hregistration hstage hqueue =>
    exact h.goOn rfl rfl rfl (fun _ _ => rfl) (by simp [hstage])
      (hfront call (by simp [hstage]) (by simp [hstage])) (by simp [Stage.Beyond])
      (by simp [hregistration])
  | @finish call threw registration hregistration hstage =>
    exact h.goOn rfl rfl rfl (fun _ _ => rfl) (by simp [hstage])
      (hfront call (by simp [hstage]) (by simp [hstage])) (by simp [Stage.Beyond]) (by simp)
  | settleChain hregistration hstage hqueue hchain =>
    exact ⟨h.uncalled, h.before, h.done, h.entered, h.needed⟩

/-! ## The chains -/

/-- What the table and the chains say of the calls. -/
structure Chained (s : State Path) : Prop where
  /-- The table names the last call of a key, and it is not through. -/
  found : ∀ key i, s.fileMutationQueues.get? key = some i →
    s.keyOf i = some key ∧ s.stage i ≠ .settled ∧ ∀ j, s.keyOf j = some key → j ≤ i
  /-- The calls of a key that is not in the table are through. -/
  absent : ∀ key, s.fileMutationQueues.get? key = none →
    ∀ j, s.keyOf j = some key → s.stage j = .settled
  /-- The calls before one that found no entry are through. -/
  fresh : ∀ i registration, s.registration i = some registration →
    registration.currentQueue = .resolved →
    ∀ j < i, s.keyOf j = some registration.key → s.stage j = .settled
  /-- The entry that a call found was that of the call before it. -/
  linked : ∀ i registration previous, s.registration i = some registration →
    registration.currentQueue = .chained previous →
    previous < i ∧ s.keyOf previous = some registration.key ∧
      ∀ j < i, s.keyOf j = some registration.key → j ≤ previous
  /-- A chain is settled only behind all calls of its key. -/
  through : ∀ i, s.chainDone i = true → s.stage i = .settled ∧
    ∀ registration, s.registration i = some registration →
      ∀ j < i, s.keyOf j = some registration.key → s.stage j = .settled
  /-- A function starts only behind all calls of its key. -/
  started : ∀ i registration, s.registration i = some registration →
    s.stage i = .running ∨ s.stage i = .settled →
    s.queueDone registration.currentQueue = true ∧
      ∀ j < i, s.keyOf j = some registration.key → s.stage j = .settled
  rejected : ∀ i, s.stage i = .unregistered → s.registration i = none

theorem Chained.init : Chained (init : State Path) where
  found key i h := by simp [MutationQueue.init] at h
  absent key _ j h := by simp [MutationQueue.init, State.keyOf] at h
  fresh i registration h := by cases h
  linked i registration previous h := by cases h
  through i h := by cases h
  started i registration h := by cases h
  rejected i _ := rfl

/-- The calls before one whose queue is settled are through. -/
theorem Chained.through_of_queueDone {call : Nat} (h : Chained s)
    (hregistration : s.registration call = some registration)
    (hqueue : s.queueDone registration.currentQueue = true) :
    ∀ j < call, s.keyOf j = some registration.key → s.stage j = .settled := by
  intro j hj hkey
  cases hcurrent : registration.currentQueue with
  | resolved => exact h.fresh call registration hregistration hcurrent j hj hkey
  | chained previous =>
    obtain ⟨hlt, hprevious, hlast⟩ := h.linked call registration previous hregistration hcurrent
    obtain ⟨registration', hregistration', hkey'⟩ := exists_registration hprevious
    rw [hcurrent] at hqueue
    obtain ⟨hsettled, hbefore⟩ := h.through previous hqueue
    rcases Nat.lt_or_eq_of_le (hlast j hj hkey) with hearlier | rfl
    · exact hbefore registration' hregistration' j hearlier (by rw [hkey', hkey])
    · exact hsettled

/-- A call that is not through changes its stage and nothing else. -/
theorem Chained.withStage {call : Nat} (h : Chained s) (hstage : s.stage call ≠ .settled)
    (hsettled : stage = .settled ∨ stage = .unregistered → s.registration call = none)
    (hrunning : stage = .running → ∃ registration, s.registration call = some registration ∧
      s.queueDone registration.currentQueue = true) :
    Chained (s.withStage call stage) := by
  have hkept : ∀ j, s.stage j = .settled → Function.update s.stage call stage j = .settled := by
    intro j hj
    have hne : j ≠ call := by
      rintro rfl
      exact hstage hj
    rwa [Function.update_of_ne hne]
  refine ⟨fun key i hi => ?_, fun key hkey j hj => ?_, fun i registration hi hcurrent j hj hkey => ?_,
    h.linked, fun i hdone => ?_, fun i registration hi hstarted => ?_, fun i hi => ?_⟩
  · obtain ⟨hkey, hnot, hlast⟩ := h.found key i hi
    refine ⟨hkey, ?_, hlast⟩
    by_cases hcall : i = call
    · subst hcall
      rw [stage_withStage, Function.update_self]
      intro heq
      rw [State.keyOf, hsettled (.inl heq)] at hkey
      cases hkey
    · rwa [stage_withStage, Function.update_of_ne hcall]
  · exact hkept j (h.absent key hkey j hj)
  · exact hkept j (h.fresh i registration hi hcurrent j hj hkey)
  · obtain ⟨hthrough, hbefore⟩ := h.through i hdone
    exact ⟨hkept i hthrough, fun registration hi j hj hkey => hkept j (hbefore registration hi j hj hkey)⟩
  · by_cases hcall : i = call
    · subst hcall
      rw [stage_withStage, Function.update_self] at hstarted
      rcases hstarted with hrun | hend
      · obtain ⟨registration', hregistration', hqueue⟩ := hrunning hrun
        obtain rfl : registration' = registration := Option.some.inj (hregistration'.symm.trans hi)
        exact ⟨hqueue, fun j hj hkey => hkept j (h.through_of_queueDone hi hqueue j hj hkey)⟩
      · have hnone := hsettled (.inl hend)
        rw [registration_withStage, hnone] at hi
        cases hi
    · rw [stage_withStage, Function.update_of_ne hcall] at hstarted
      obtain ⟨hqueue, hbefore⟩ := h.started i registration hi hstarted
      exact ⟨hqueue, fun j hj hkey => hkept j (hbefore j hj hkey)⟩
  · by_cases hcall : i = call
    · subst hcall
      rw [stage_withStage, Function.update_self] at hi
      exact hsettled (.inr hi)
    · rw [stage_withStage, Function.update_of_ne hcall] at hi
      exact h.rejected i hi

theorem Chained.register {call : Nat} {resolvedPath key : Path} (horder : InOrder s) (h : Chained s)
    (hstage : s.stage call = .resolving resolvedPath) : Chained (s.register call key) := by
  have hnone : s.registration call = none := by
    cases hregistration : s.registration call with
    | none => rfl
    | some registration =>
      have hbeyond := horder.entered call registration hregistration
      rw [hstage] at hbeyond
      simp [Stage.Beyond] at hbeyond
  have hlast : ∀ j key', s.keyOf j = some key' → j < call := by
    intro j key' hj
    obtain ⟨registration, hregistration, -⟩ := exists_registration hj
    exact horder.last hstage (horder.entered j registration hregistration)
  have hkeyOf : ∀ j, (s.register call key).keyOf j = if j = call then some key else s.keyOf j := by
    intro j
    by_cases hj : j = call
    · subst hj
      simp [State.keyOf, State.register]
    · simp [State.keyOf, State.register, hj]
  have hkept : ∀ j, j ≠ call → (s.register call key).stage j = s.stage j := fun j hj =>
    Function.update_of_ne hj _ _
  have hold : ∀ i registration, i ≠ call → (s.register call key).registration i = some registration →
      s.registration i = some registration := by
    intro i registration hi hregistration
    simpa [State.register, hi] using hregistration
  have hnew : ∀ registration, (s.register call key).registration call = some registration →
      registration = ⟨key, (s.fileMutationQueues.get? key).elim .resolved .chained⟩ := by
    intro registration hregistration
    simpa [State.register, eq_comm] using hregistration
  have hother : ∀ i j key', i ≠ call → j < i → s.registration i ≠ none →
      (s.register call key).keyOf j = some key' → j ≠ call ∧ s.keyOf j = some key' := by
    intro i j key' hi hj hregistration hkey
    obtain ⟨registration, hregistration⟩ := Option.ne_none_iff_exists'.mp hregistration
    have hlt := hlast i registration.key (keyOf_of_registration hregistration)
    have hne : j ≠ call := by omega
    rw [hkeyOf, if_neg hne] at hkey
    exact ⟨hne, hkey⟩
  have hbefore : ∀ j key', j < call → (s.register call key).keyOf j = some key' →
      j ≠ call ∧ s.keyOf j = some key' := by
    intro j key' hj hkey
    have hne : j ≠ call := by omega
    rw [hkeyOf, if_neg hne] at hkey
    exact ⟨hne, hkey⟩
  refine ⟨fun key' i hi => ?_, fun key' hkey' j hj => ?_, fun i registration hi hcurrent j hj hkey => ?_,
    fun i registration previous hi hcurrent => ?_, fun i hdone => ?_,
    fun i registration hi hstarted => ?_, fun i hi => ?_⟩
  · have hget : (s.fileMutationQueues.set key call).get? key' = some i := hi
    rw [OrderedMap.get?_set] at hget
    split at hget
    · rename_i heq
      obtain rfl : call = i := Option.some.inj hget
      refine ⟨by rw [hkeyOf, if_pos rfl, heq], by simp [State.register], fun j hj => ?_⟩
      by_cases hcall : j = call
      · omega
      · rw [hkeyOf, if_neg hcall] at hj
        exact (hlast j key' hj).le
    · rename_i hne
      obtain ⟨hkey, hnot, hmax⟩ := h.found key' i hget
      have hcall : i ≠ call := (hlast i key' hkey).ne
      refine ⟨by rw [hkeyOf, if_neg hcall, hkey], by rwa [hkept i hcall], fun j hj => ?_⟩
      rw [hkeyOf] at hj
      split at hj
      · exact absurd (Option.some.inj hj).symm hne
      · exact hmax j hj
  · have hget : (s.fileMutationQueues.set key call).get? key' = none := hkey'
    rw [OrderedMap.get?_set] at hget
    split at hget
    · cases hget
    · rename_i hne
      rw [hkeyOf] at hj
      split at hj
      · exact absurd (Option.some.inj hj).symm hne
      · rename_i hcall
        rw [hkept j hcall]
        exact h.absent key' hget j hj
  · by_cases hcall : i = call
    · subst hcall
      obtain rfl := hnew registration hi
      obtain ⟨hne, hkey⟩ := hbefore j key hj hkey
      rw [hkept j hne]
      cases hget : s.fileMutationQueues.get? key with
      | none => exact h.absent key hget j hkey
      | some previous => simp [hget] at hcurrent
    · have hi := hold i registration hcall hi
      obtain ⟨hne, hkey⟩ := hother i j registration.key hcall hj (by simp [hi]) hkey
      rw [hkept j hne]
      exact h.fresh i registration hi hcurrent j hj hkey
  · by_cases hcall : i = call
    · subst hcall
      obtain rfl := hnew registration hi
      cases hget : s.fileMutationQueues.get? key with
      | none => simp [hget] at hcurrent
      | some last =>
        obtain rfl : last = previous := by simpa [hget] using hcurrent
        obtain ⟨hkey, -, hmax⟩ := h.found key last hget
        have hlt := hlast last key hkey
        refine ⟨hlt, by rw [hkeyOf, if_neg hlt.ne, hkey], fun j hj hkey' => ?_⟩
        exact hmax j (hbefore j key hj hkey').2
    · have hi := hold i registration hcall hi
      obtain ⟨hlt, hkey, hmax⟩ := h.linked i registration previous hi hcurrent
      have hne : previous ≠ call := (hlast previous registration.key hkey).ne
      refine ⟨hlt, by rw [hkeyOf, if_neg hne, hkey], fun j hj hkey' => ?_⟩
      exact hmax j hj (hother i j registration.key hcall hj (by simp [hi]) hkey').2
  · obtain ⟨hsettled, hthrough⟩ := h.through i hdone
    have hcall : i ≠ call := by
      rintro rfl
      rw [hstage] at hsettled
      cases hsettled
    refine ⟨by rwa [hkept i hcall], fun registration hi j hj hkey => ?_⟩
    have hi := hold i registration hcall hi
    obtain ⟨hne, hkey⟩ := hother i j registration.key hcall hj (by simp [hi]) hkey
    rw [hkept j hne]
    exact hthrough registration hi j hj hkey
  · by_cases hcall : i = call
    · subst hcall
      simp [State.register] at hstarted
    · have hi := hold i registration hcall hi
      rw [hkept i hcall] at hstarted
      obtain ⟨hqueue, hthrough⟩ := h.started i registration hi hstarted
      refine ⟨hqueue, fun j hj hkey => ?_⟩
      obtain ⟨hne, hkey⟩ := hother i j registration.key hcall hj (by simp [hi]) hkey
      rw [hkept j hne]
      exact hthrough j hj hkey
  · by_cases hcall : i = call
    · subst hcall
      simp [State.register] at hi
    · rw [hkept i hcall] at hi
      have hnone := h.rejected i hi
      simpa [State.register, hcall] using hnone

theorem Chained.release {call : Nat} (h : Chained s)
    (hregistration : s.registration call = some registration) (hstage : s.stage call = .running) :
    Chained (s.release call registration.key) := by
  have hcallKey := keyOf_of_registration hregistration
  obtain ⟨hcallQueue, hcallBefore⟩ := h.started call registration hregistration (.inl hstage)
  have hkept : ∀ j, s.stage j = .settled → (s.release call registration.key).stage j = .settled := by
    intro j hj
    have hne : j ≠ call := by
      rintro rfl
      rw [hstage] at hj
      cases hj
    exact (Function.update_of_ne hne _ _).trans hj
  have hself : (s.release call registration.key).stage call = .settled := Function.update_self ..
  have hother : ∀ i, i ≠ call → (s.release call registration.key).stage i = s.stage i := fun i hi =>
    Function.update_of_ne hi _ _
  have hget : ∀ key, (s.release call registration.key).fileMutationQueues.get? key =
      if s.fileMutationQueues.get? key = some call then none else s.fileMutationQueues.get? key := by
    intro key
    by_cases hkey : key = registration.key
    · subst hkey
      by_cases hlast : s.fileMutationQueues.get? registration.key = some call
      · simp [State.release, hlast, OrderedMap.get?_delete]
      · simp [State.release, hlast]
    · -- only the key of the call can name the call
      have hnot : s.fileMutationQueues.get? key ≠ some call := by
        intro hfound
        obtain ⟨hfoundKey, -, -⟩ := h.found key call hfound
        exact hkey (Option.some.inj (hfoundKey.symm.trans hcallKey))
      rw [if_neg hnot]
      by_cases hlast : s.fileMutationQueues.get? registration.key = some call
      · simp [State.release, hlast, OrderedMap.get?_delete, hkey]
      · simp [State.release, hlast]
  refine ⟨fun key i hi => ?_, fun key hi j hj => ?_, fun i registration' hi hcurrent j hj hkey => ?_,
    h.linked, fun i hdone => ?_, fun i registration' hi hstarted => ?_, fun i hi => ?_⟩
  · rw [hget] at hi
    split at hi
    · cases hi
    · rename_i hne
      obtain ⟨hkey, hnot, hlast⟩ := h.found key i hi
      have hcall : i ≠ call := by
        rintro rfl
        exact hne hi
      exact ⟨hkey, by rwa [hother i hcall], hlast⟩
  · rw [hget] at hi
    split at hi
    · rename_i hfound
      obtain ⟨hkey, -, hlast⟩ := h.found key call hfound
      obtain rfl : registration.key = key := Option.some.inj (hcallKey.symm.trans hkey)
      rcases Nat.lt_or_eq_of_le (hlast j hj) with hlt | rfl
      · exact hkept j (hcallBefore j hlt hj)
      · exact hself
    · exact hkept j (h.absent key hi j hj)
  · exact hkept j (h.fresh i registration' hi hcurrent j hj hkey)
  · obtain ⟨hthrough, hbefore⟩ := h.through i hdone
    exact ⟨hkept i hthrough, fun registration' hi j hj hkey =>
      hkept j (hbefore registration' hi j hj hkey)⟩
  · have hstarted' : s.stage i = .running ∨ s.stage i = .settled := by
      by_cases hcall : i = call
      · subst hcall
        exact .inl hstage
      · rwa [hother i hcall] at hstarted
    obtain ⟨hqueue, hbefore⟩ := h.started i registration' hi hstarted'
    exact ⟨hqueue, fun j hj hkey => hkept j (hbefore j hj hkey)⟩
  · have hcall : i ≠ call := by
      rintro rfl
      rw [hself] at hi
      cases hi
    rw [hother i hcall] at hi
    exact h.rejected i hi

/-- A chain that is settled behind its call. -/
theorem Chained.settleChain {call : Nat} {registration : Registration Path} (h : Chained s)
    (hregistration : s.registration call = some registration) (hstage : s.stage call = .settled) :
    Chained { s with chainDone := Function.update s.chainDone call true } := by
  refine ⟨h.found, h.absent, h.fresh, h.linked, fun i hdone => ?_, fun i registration' hi hstarted => ?_,
    h.rejected⟩
  · by_cases hcall : i = call
    · subst hcall
      refine ⟨hstage, fun registration' hi => ?_⟩
      exact (h.started i registration' hi (.inr hstage)).2
    · simp only [Function.update_of_ne hcall] at hdone
      exact h.through i hdone
  · obtain ⟨hqueue, hbefore⟩ := h.started i registration' hi hstarted
    refine ⟨?_, hbefore⟩
    cases hcurrent : registration'.currentQueue with
    | resolved => rfl
    | chained previous =>
      rw [hcurrent] at hqueue
      by_cases hcall : previous = call
      · subst hcall
        exact Function.update_self ..
      · exact (Function.update_of_ne hcall _ _).trans hqueue

theorem Chained.step {action : Action Path} (horder : InOrder s) (h : Chained s)
    (hstep : Stepped s action s') : Chained s' := by
  cases hstep with
  | call =>
    have hfresh : s.stage s.calls = .uncalled := (horder.uncalled _).mpr le_rfl
    have hcalled : Chained (s.withStage s.calls .called) :=
      h.withStage (by simp [hfresh]) (by simp) (by simp)
    exact ⟨hcalled.found, hcalled.absent, hcalled.fresh, hcalled.linked, hcalled.through,
      hcalled.started, hcalled.rejected⟩
  | beginRegistration hstage hprevious => exact h.withStage (by simp [hstage]) (by simp) (by simp)
  | register hstage => exact h.register horder hstage
  | @refuse call resolvedPath result hstage =>
    have hnone : s.registration call = none := by
      by_contra hsome
      obtain ⟨registration, hregistration⟩ := Option.ne_none_iff_exists'.mp hsome
      have hbeyond := horder.entered call registration hregistration
      rw [hstage] at hbeyond
      simp [Stage.Beyond] at hbeyond
    exact h.withStage (by simp [hstage]) (fun _ => hnone) (by simp)
  | settleRegistrationQueue hsettled hdone =>
    exact ⟨h.found, h.absent, h.fresh, h.linked, h.through, h.started, h.rejected⟩
  | resume hstage => exact h.withStage (by simp [hstage]) (by simp) (by simp)
  | @reject call hstage =>
    exact h.withStage (by simp [hstage]) (fun _ => h.rejected call hstage) (by simp)
  | @start call registration hregistration hstage hqueue =>
    exact h.withStage (by simp [hstage]) (by simp) fun _ => ⟨registration, hregistration, hqueue⟩
  | finish hregistration hstage => exact h.release hregistration hstage
  | settleChain hregistration hstage hqueue hchain => exact h.settleChain hregistration hstage

/-! ## What the steps bring -/

omit [DecidableEq Path] in
theorem InOrder.lt_calls {call : Nat} (h : InOrder s) (hstage : s.stage call ≠ .uncalled) :
    call < s.calls := by
  by_contra hle
  exact hstage ((h.uncalled call).mpr (by omega))

omit [DecidableEq Path] in
/-- A state in which one call has fewer steps to take and the others as many. -/
theorem remaining_lt {call : Nat} (hcalls : s'.calls = s.calls) (hcall : call < s.calls)
    (hless : s'.stepsLeft call < s.stepsLeft call)
    (hothers : ∀ i ≠ call, s'.stepsLeft i = s.stepsLeft i) : s'.remaining < s.remaining := by
  unfold State.remaining
  rw [hcalls]
  refine Finset.sum_lt_sum (fun i _ => ?_) ⟨call, Finset.mem_range.mpr hcall, hless⟩
  by_cases hi : i = call
  · subst hi
    exact hless.le
  · exact (hothers i hi).le

omit [DecidableEq Path] in
/-- A call that goes on to a later stage. -/
theorem InOrder.remaining_lt_of_stage {call : Nat} (h : InOrder s)
    (hcall : s.stage call ≠ .uncalled) (hcalls : s'.calls = s.calls)
    (hstages : s'.stage = Function.update s.stage call stage)
    (hregistrations : s'.registrationDone = s.registrationDone)
    (hchains : s'.chainDone = s.chainDone) (hless : stage.stepsLeft < (s.stage call).stepsLeft) :
    s'.remaining < s.remaining := by
  refine MutationQueue.remaining_lt hcalls (h.lt_calls hcall) ?_ fun i hi => ?_
  · unfold State.stepsLeft
    rw [hstages, hregistrations, hchains, Function.update_self]
    omega
  · unfold State.stepsLeft
    rw [hstages, hregistrations, hchains, Function.update_of_ne hi]

theorem InOrder.remaining_lt {action : Action Path} (h : InOrder s) (hstep : Stepped s action s') :
    action = .call ∨ s'.remaining < s.remaining := by
  cases hstep with
  | call => exact .inl rfl
  | beginRegistration hstage _ | register hstage | refuse hstage | resume hstage | reject hstage
  | start _ hstage _ | finish _ hstage =>
    refine .inr (h.remaining_lt_of_stage ?_ rfl rfl rfl rfl ?_)
    · rw [hstage]
      simp
    · rw [hstage]
      simp [Stage.stepsLeft]
  | @settleRegistrationQueue call hsettled hdone =>
    have hbeyond := (registrationSettled_iff).mp hsettled
    have hcalled : s.stage call ≠ .uncalled := by
      intro hu
      rw [hu] at hbeyond
      simp [Stage.Beyond] at hbeyond
    refine .inr (MutationQueue.remaining_lt rfl (h.lt_calls hcalled) ?_ fun i hi => ?_)
    · simp only [State.stepsLeft, Function.update_self, hdone]
      simp
    · simp [State.stepsLeft, hi]
  | @settleChain call registration hregistration hstage hqueue hchain =>
    have hcalled : s.stage call ≠ .uncalled := by simp [hstage]
    refine .inr (MutationQueue.remaining_lt rfl (h.lt_calls hcalled) ?_ fun i hi => ?_)
    · simp only [State.stepsLeft, Function.update_self, hchain]
      simp
    · simp [State.stepsLeft, hi]

theorem waits_of_quiet [Inhabited Path] (horder : InOrder s) (h : Chained s) (hquiet : s.Quiet)
    (call : Nat) (hcall : call < s.calls) (hstage : s.stage call ≠ .settled) : s.Waits call := by
  induction call using Nat.strong_induction_on with
  | _ call ih =>
  obtain ⟨hbegin, -, hresume, hstart, -⟩ := hquiet call
  cases hcurrent : s.stage call with
  | uncalled =>
    have hle := (horder.uncalled call).mp hcurrent
    omega
  | called =>
    have hprevious : ¬ s.previousDone call = true := by
      intro hdone
      simp [MutationQueue.step, hcurrent, hdone] at hbegin
    cases call with
    | zero => exact absurd rfl hprevious
    | succ previous =>
      have hsettle := (hquiet previous).2.1
      have hopen : ¬ (s.stage previous).Beyond := by
        intro hbeyond
        have hsettled := (registrationSettled_iff).mpr hbeyond
        have hdone : s.registrationDone previous = false := by simpa [State.previousDone] using hprevious
        simp [MutationQueue.step, hsettled, hdone] at hsettle
      have hnot : s.stage previous ≠ .settled := by
        intro heq
        rw [heq] at hopen
        simp [Stage.Beyond] at hopen
      rcases ih previous (by omega) (by omega) hnot with
        ⟨earlier, hle, resolvedPath, hresolving⟩ | hrunning | ⟨earlier, -, -, hsame, hsome⟩
      · exact .inl ⟨earlier, by omega, resolvedPath, hresolving⟩
      · rw [hrunning] at hopen
        simp [Stage.Beyond] at hopen
      · -- a call without a registration has no key
        rw [hsame] at hsome
        obtain ⟨key, hkey⟩ := Option.ne_none_iff_exists'.mp hsome
        obtain ⟨registration, hregistration, -⟩ := exists_registration hkey
        exact absurd (horder.entered previous registration hregistration) hopen
  | resolving resolvedPath => exact .inl ⟨call, le_rfl, resolvedPath, hcurrent⟩
  | registered => simp [MutationQueue.step, hcurrent] at hresume
  | unregistered => simp [MutationQueue.step, hcurrent] at hresume
  | waiting =>
    have hsome : s.registration call ≠ none := fun hnone => (horder.needed call hnone).2.1 hcurrent
    obtain ⟨registration, hregistration⟩ := Option.ne_none_iff_exists'.mp hsome
    have hqueue : ¬ s.queueDone registration.currentQueue = true := by
      intro hdone
      simp [MutationQueue.step, hregistration, hcurrent, hdone] at hstart
    cases hfound : registration.currentQueue with
    | resolved => exact absurd (by rw [hfound]; rfl) hqueue
    | chained previous =>
      obtain ⟨hlt, hkey, -⟩ := h.linked call registration previous hregistration hfound
      have hsame : s.SameKey previous call :=
        ⟨hkey.trans (keyOf_of_registration hregistration).symm, by simp [hkey]⟩
      obtain ⟨registration', hregistration', -⟩ := exists_registration hkey
      have hnot : s.stage previous ≠ .settled := by
        intro hsettled
        -- behind its call the chain of the call before can be settled
        obtain ⟨hdone, -⟩ := h.started previous registration' hregistration' (.inr hsettled)
        have hchain : s.chainDone previous = false := by
          rw [hfound] at hqueue
          simpa [State.queueDone] using hqueue
        have hsettle := (hquiet previous).2.2.2.2
        simp [MutationQueue.step, hregistration', hsettled, hdone, hchain] at hsettle
      rcases ih previous hlt (by omega) hnot with
        ⟨earlier, hle, resolvedPath, hresolving⟩ | hrunning | ⟨earlier, hearlier, hrunning, hboth⟩
      · exact .inl ⟨earlier, by omega, resolvedPath, hresolving⟩
      · exact .inr (.inr ⟨previous, hlt, hrunning, hsame⟩)
      · exact .inr (.inr ⟨earlier, by omega, hrunning, hboth.1.trans hsame.1, hboth.2⟩)
  | running => exact .inr (.inl hcurrent)
  | settled => exact absurd hcurrent hstage

theorem serialized [Inhabited Path] (horder : InOrder s) (h : Chained s) : Serialized s := by
  have hbehind : ∀ first second, first < second → s.SameKey first second → s.Started second →
      s.stage first = .settled := by
    rintro first second hlt ⟨hsame, hsome⟩ hstarted
    obtain ⟨key, hkey⟩ := Option.ne_none_iff_exists'.mp hsome
    obtain ⟨registration, hregistration, rfl⟩ := exists_registration (hsame.symm.trans hkey)
    have hstage : s.stage second = .running ∨ s.stage second = .settled :=
      hstarted.imp id And.left
    exact (h.started second registration hregistration hstage).2 first hlt hkey
  refine ⟨fun first second hfirst hsecond hsame => ?_, hbehind, waits_of_quiet horder h,
    fun action s' hstep => horder.remaining_lt (step_cases hstep), fun hall => ?_⟩
  · rcases Nat.lt_trichotomy first second with hlt | heq | hlt
    · have hsettled := hbehind first second hlt hsame (.inl hsecond)
      rw [hfirst] at hsettled
      cases hsettled
    · exact heq
    · have hback : s.SameKey second first := ⟨hsame.1.symm, hsame.1 ▸ hsame.2⟩
      have hsettled := hbehind second first hlt hback (.inl hfirst)
      rw [hsecond] at hsettled
      cases hsettled
  · rw [List.eq_nil_iff_forall_not_mem]
    intro key hkey
    obtain ⟨i, hi⟩ : ∃ i, s.fileMutationQueues.get? key = some i := by
      rw [← Option.ne_none_iff_exists', ne_eq, OrderedMap.get?_eq_none_iff, not_not]
      exact hkey
    obtain ⟨hkeyOf, hnot, -⟩ := h.found key i hi
    obtain ⟨registration, hregistration, -⟩ := exists_registration hkeyOf
    have hbeyond := horder.entered i registration hregistration
    have hcalled : s.stage i ≠ .uncalled := by
      intro hu
      rw [hu] at hbeyond
      simp [Stage.Beyond] at hbeyond
    exact hnot (hall i (horder.lt_calls hcalled))

/-- However the steps of the calls come, the functions of a key run one after the other. -/
theorem withFileMutationQueue_serialized {actions : List (Action String)} {s : State String}
    (h : Machine.run step init actions = some s) : Serialized s := by
  have hinv : InOrder s ∧ Chained s := by
    refine @Machine.run_invariant _ _ _ (fun s : State String => InOrder s ∧ Chained s)
      (fun s a s' hs hstep => ?_) _ _ _ ⟨InOrder.init, Chained.init⟩ h
    exact ⟨hs.1.step (step_cases hstep), hs.2.step hs.1 (step_cases hstep)⟩
  exact serialized hinv.1 hinv.2

/-- Three calls of which the first two name one file, and the key of the third cannot be resolved. -/
def sampleActions : List (Action String) :=
  [.call, .call, .call, .beginRegistration 0 "/a", .settleRealpath 0 (.resolved "/a"),
    .settleRegistrationQueue 0, .beginRegistration 1 "/b", .resume 0, .start 0,
    .settleRealpath 1 (.resolved "/a"), .settleRegistrationQueue 1, .beginRegistration 2 "/c",
    .settleRealpath 2 (.failed (some "EACCES")), .resume 1, .resume 2, .finish 0 true, .settleChain 0,
    .start 1]

/-- The second function runs after the first one threw. -/
theorem withFileMutationQueue_serialized_sample :
    (Machine.run step init sampleActions).map (fun s => [s.stage 0, s.stage 1, s.stage 2]) =
        some [.settled, .running, .settled] ∧
      ∃ s, Machine.run step init sampleActions = some s ∧ Serialized s := by
  have hsome : (Machine.run step init sampleActions).isSome = true := by decide
  obtain ⟨s, hs⟩ := Option.isSome_iff_exists.mp hsome
  exact ⟨by decide, s, hs, withFileMutationQueue_serialized hs⟩

end CodingAgent.MutationQueue
