import Mathlib

/-!
# Machines

A machine takes actions one after the other; an action may be impossible where it is tried. What
every possible step keeps holds wherever a run ends, and so does what is only kept by the steps of
which a condition holds.
-/

namespace Lib.Machine

variable {σ α : Type*}

/-- The state after the actions, if each of them is possible where it is taken. -/
def run (step : σ → α → Option σ) (s : σ) (actions : List α) : Option σ := actions.foldlM step s

/-- Each action is taken in a state in which it is allowed. -/
def Keeps (step : σ → α → Option σ) (Allowed : σ → α → Prop) : σ → List α → Prop
  | _, [] => True
  | s, a :: actions => Allowed s a ∧ ∀ s', step s a = some s' → Keeps step Allowed s' actions

variable {step : σ → α → Option σ} {Allowed : σ → α → Prop} {Inv : σ → Prop}

@[simp] theorem run_nil (s : σ) : run step s [] = some s := rfl

@[simp] theorem run_cons (s : σ) (a : α) (actions : List α) :
    run step s (a :: actions) = (step s a).bind fun s' => run step s' actions := by
  simp [run, List.foldlM_cons]

theorem run_append (s : σ) (first second : List α) :
    run step s (first ++ second) = (run step s first).bind fun s' => run step s' second := by
  simp [run, List.foldlM_append]

/-- What every allowed step keeps holds after a run of allowed steps. -/
theorem run_keeps (hstep : ∀ s a s', Inv s → Allowed s a → step s a = some s' → Inv s')
    {actions : List α} {s s' : σ} (hinit : Inv s) (hallowed : Keeps step Allowed s actions)
    (hrun : run step s actions = some s') : Inv s' := by
  induction actions generalizing s with
  | nil =>
    obtain rfl : s = s' := by simpa using hrun
    exact hinit
  | cons a actions ih =>
    rw [run_cons, Option.bind_eq_some_iff] at hrun
    obtain ⟨next, hnext, hrun⟩ := hrun
    exact ih (hstep s a next hinit hallowed.1 hnext) (hallowed.2 next hnext) hrun

theorem run_invariant (hstep : ∀ s a s', Inv s → step s a = some s' → Inv s')
    {actions : List α} {s s' : σ} (hinit : Inv s) (hrun : run step s actions = some s') : Inv s' := by
  induction actions generalizing s with
  | nil =>
    obtain rfl : s = s' := by simpa using hrun
    exact hinit
  | cons a actions ih =>
    rw [run_cons, Option.bind_eq_some_iff] at hrun
    obtain ⟨next, hnext, hrun⟩ := hrun
    exact ih (hstep s a next hinit hnext) hrun

/-- What holds of no actions and the first state, and goes on from one action to the next, holds of
the actions of a run and the state where it ends. -/
theorem run_history {History : List α → σ → Prop} {init : σ} (hinit : History [] init)
    (hstep : ∀ actions s a s', History actions s → step s a = some s' → History (actions ++ [a]) s')
    {actions : List α} {s : σ} (hrun : run step init actions = some s) : History actions s := by
  induction actions using List.reverseRecOn generalizing s with
  | nil =>
    obtain rfl : init = s := by simpa using hrun
    exact hinit
  | append_singleton actions a ih =>
    rw [run_append, Option.bind_eq_some_iff] at hrun
    obtain ⟨before, hbefore, hlast⟩ := hrun
    have hnext : step before a = some s := by simpa using hlast
    exact hstep actions before a s (ih hbefore) hnext

end Lib.Machine

/-!
# Programs that can be interrupted

A program works on a state in atomic steps. The environment decides for each step whether it takes
effect, throws, or is the last one of the process; a step that does not go through may have had a
part of its effect. A triple says what holds when the program returns, and what holds when it does
not: a program that throws can still clean up, a program that has ended cannot.
-/

namespace Lib

/-- What the environment does with a step. A step that throws or ends the process has got as far as
`progress` says. -/
inductive Fate
  | goes
  | throws (progress : Nat)
  | ends (progress : Nat)

/-- How a program comes to its end. -/
inductive Outcome (ε α : Type)
  | returned (value : α)
  | thrown (error : ε)
  | ended

/-- A program over the states `σ`. It takes the fates of its steps from a list; after the list every
step goes through. -/
def Program (σ ε α : Type) : Type := List Fate → σ → Outcome ε α × σ × List Fate

namespace Program

variable {σ ε α β : Type}

/-- What follows on an outcome. -/
def continueWith (f : α → Program σ ε β) :
    Outcome ε α × σ × List Fate → Outcome ε β × σ × List Fate
  | (.returned value, s, fates) => f value fates s
  | (.thrown error, s, fates) => (.thrown error, s, fates)
  | (.ended, s, fates) => (.ended, s, fates)

instance : Monad (Program σ ε) where
  pure value := fun fates s => (.returned value, s, fates)
  bind p f := fun fates s => continueWith f (p fates s)

/-- `throw error`. -/
def throw (error : ε) : Program σ ε α := fun fates s => (.thrown error, s, fates)

/-- Throws unless the condition holds. -/
def require (condition : Bool) (error : ε) : Program σ ε Unit :=
  if condition then pure () else throw error

/-- A value, or a throw. -/
def ofExcept : Except ε α → Program σ ε α
  | .ok value => pure value
  | .error error => throw error

/-- Looking at the state, which is neither refused nor interrupted. -/
def look (f : σ → α) : Program σ ε α := fun fates s => (.returned (f s), s, fates)

/-- The outcome of a step that goes through: it may still be refused. -/
def settle (s : σ) (fates : List Fate) : Except ε (α × σ) → Outcome ε α × σ × List Fate
  | .ok (value, s') => (.returned value, s', fates)
  | .error error => (.thrown error, s, fates)

/-- A step. The environment makes it fail with `fault`; `halfway` is the state when it does not go
through. -/
def step (fault : ε) (f : σ → Except ε (α × σ)) (halfway : Nat → σ → σ) : Program σ ε α :=
  fun fates s =>
    match fates with
    | [] => settle s [] (f s)
    | .goes :: fates => settle s fates (f s)
    | .throws progress :: fates => (.thrown fault, halfway progress s, fates)
    | .ends progress :: fates => (.ended, halfway progress s, fates)

/-- The state after an interrupted atomic step: the one before it, or the one after it. -/
def eitherSide (f : σ → Except ε (α × σ)) (progress : Nat) (s : σ) : σ :=
  match progress, f s with
  | _ + 1, .ok (_, s') => s'
  | _, _ => s

/-- A step that has its whole effect or none. -/
def atomic (fault : ε) (f : σ → Except ε (α × σ)) : Program σ ε α :=
  step fault f (eitherSide f)

/-- A step without an effect on the state. -/
def idle (fault : ε) : Program σ ε Unit := atomic fault fun s => .ok ((), s)

/-- `try { body } finally { cleanup }`. -/
def tryFinally (body : Program σ ε α) (cleanup : Program σ ε Unit) : Program σ ε α :=
  fun fates s =>
    match body fates s with
    | (.returned value, s, fates) => (cleanup >>= fun _ => pure value) fates s
    | (.thrown error, s, fates) => (cleanup >>= fun _ => throw error) fates s
    | (.ended, s, fates) => (.ended, s, fates)

/-- `try { body } catch (error) { handler }`. -/
def tryCatch (body : Program σ ε α) (handler : ε → Program σ ε α) : Program σ ε α :=
  fun fates s =>
    match body fates s with
    | (.thrown error, s, fates) => handler error fates s
    | other => other

/-! ## Triples -/

/-- A run with these fates has returned a value with `Q`, or it has not returned, which it may not do
undisturbed when `live`, and left a state with `R`. -/
def Meets (live : Prop) (Q : α → σ → Prop) (R : σ → Prop) (fates : List Fate) :
    Outcome ε α × σ × List Fate → Prop
  | (.returned value, s, rest) => (fates = [] → rest = []) ∧ Q value s
  | (.thrown _, s, rest) => (fates = [] → rest = [] ∧ ¬ live) ∧ R s
  | (.ended, s, rest) => (fates = [] → rest = [] ∧ ¬ live) ∧ R s

/-- From a state with `P` the program returns a value with `Q`, or it throws or ends in a state with
`R`, whatever the fates of its steps. When `live`, it returns if every step goes through. -/
def Triple (live : Prop) (P : σ → Prop) (p : Program σ ε α) (Q : α → σ → Prop) (R : σ → Prop) :
    Prop :=
  ∀ fates s, P s → Meets live Q R fates (p fates s)

variable {live : Prop} {P P' : σ → Prop} {Q Q' : α → σ → Prop} {R R' : σ → Prop}
  {p : Program σ ε α}

theorem Meets.earlier {fates rest : List Fate} {result : Outcome ε α × σ × List Fate}
    (h : Meets live Q R rest result) (hrest : fates = [] → rest = []) :
    Meets live Q R fates result := by
  obtain ⟨outcome, s, rest'⟩ := result
  cases outcome with
  | returned value => exact ⟨fun hnil => h.1 (hrest hnil), h.2⟩
  | thrown error => exact ⟨fun hnil => h.1 (hrest hnil), h.2⟩
  | ended => exact ⟨fun hnil => h.1 (hrest hnil), h.2⟩

theorem Triple.returns (h : Triple live P p Q R) (hlive : live) {s : σ} (hs : P s) :
    ∃ value s', p [] s = (.returned value, s', []) ∧ Q value s' := by
  have hmeets := h [] s hs
  generalize p [] s = result at hmeets ⊢
  obtain ⟨outcome, s', rest⟩ := result
  cases outcome with
  | returned value =>
    obtain rfl := hmeets.1 rfl
    exact ⟨value, s', rfl, hmeets.2⟩
  | thrown error => exact absurd hlive (hmeets.1 rfl).2
  | ended => exact absurd hlive (hmeets.1 rfl).2

theorem Triple.pure (value : α) (h : ∀ s, P s → Q value s) :
    Triple live P (Pure.pure value : Program σ ε α) Q R := fun _ s hs => ⟨id, h s hs⟩

theorem Triple.throw {error : ε} (h : ∀ s, P s → ¬ live ∧ R s) :
    Triple live P (Program.throw error : Program σ ε α) Q R :=
  fun _ s hs => ⟨fun hnil => ⟨hnil, (h s hs).1⟩, (h s hs).2⟩

theorem Triple.consequence (h : Triple live P' p Q' R') (hpre : ∀ s, P s → P' s)
    (hpost : ∀ value s, Q' value s → Q value s) (hexit : ∀ s, R' s → R s) :
    Triple live P p Q R := by
  intro fates s hs
  have hmeets := h fates s (hpre s hs)
  generalize p fates s = result at hmeets ⊢
  obtain ⟨outcome, s', rest⟩ := result
  cases outcome with
  | returned value => exact ⟨hmeets.1, hpost value s' hmeets.2⟩
  | thrown error => exact ⟨hmeets.1, hexit s' hmeets.2⟩
  | ended => exact ⟨hmeets.1, hexit s' hmeets.2⟩

theorem Triple.exit (h : Triple live P p Q R') (hexit : ∀ s, R' s → R s) : Triple live P p Q R :=
  h.consequence (fun _ hp => hp) (fun _ _ hq => hq) hexit

theorem Triple.bind {f : α → Program σ ε β} {Q₂ : β → σ → Prop} (h : Triple live P p Q R)
    (hf : ∀ value, Triple live (Q value) (f value) Q₂ R) : Triple live P (p >>= f) Q₂ R := by
  intro fates s hs
  have hfirst := h fates s hs
  show Meets live Q₂ R fates (continueWith f (p fates s))
  generalize p fates s = result at hfirst ⊢
  obtain ⟨outcome, s', rest⟩ := result
  cases outcome with
  | returned value =>
    obtain ⟨hrest, hq⟩ := hfirst
    exact (hf value rest s' hq).earlier hrest
  | thrown error => exact hfirst
  | ended => exact hfirst

/-- The first program returns a known value. -/
theorem Triple.bind_known {f : α → Program σ ε β} {Q₂ : β → σ → Prop} {value : α} {M : σ → Prop}
    (h : Triple live P p (fun v s => v = value ∧ M s) R) (hf : Triple live M (f value) Q₂ R) :
    Triple live P (p >>= f) Q₂ R := by
  refine h.bind fun v fates s hs => ?_
  obtain ⟨rfl, hm⟩ := hs
  exact hf fates s hm

theorem Triple.of_exists {ι : Sort*} {φ : ι → σ → Prop} (h : ∀ i, Triple live (φ i) p Q R) :
    Triple live (fun s => ∃ i, φ i s) p Q R :=
  fun fates s ⟨i, hs⟩ => h i fates s hs

theorem Triple.require {condition : Bool} {error : ε} {Q : Unit → σ → Prop}
    (hpost : ∀ s, P s → condition = true → Q () s)
    (hexit : ∀ s, P s → condition = false → ¬ live ∧ R s) :
    Triple live P (Program.require condition error) Q R := by
  cases hc : condition with
  | true => exact .pure () fun s hs => hpost s hs hc
  | false => exact .throw fun s hs => hexit s hs hc

theorem Triple.require_true {condition : Bool} {error : ε} (hc : condition = true) :
    Triple live P (Program.require condition error) (fun _ => P) R :=
  .require (fun _ hs _ => hs) fun _ _ hfalse => absurd (hc.symm.trans hfalse) (by simp)

theorem Triple.ofExcept {result : Except ε α}
    (hpost : ∀ s value, P s → result = .ok value → Q value s)
    (hexit : ∀ s error, P s → result = .error error → ¬ live ∧ R s) :
    Triple live P (Program.ofExcept result : Program σ ε α) Q R := by
  cases result with
  | ok value => exact .pure value fun s hs => hpost s value hs rfl
  | error error => exact .throw fun s hs => hexit s error hs rfl

theorem Triple.look {f : σ → α} (h : ∀ s, P s → Q (f s) s) :
    Triple live P (Program.look f : Program σ ε α) Q R := fun _ s hs => ⟨id, h s hs⟩

theorem Triple.step {fault : ε} {f : σ → Except ε (α × σ)} {halfway : Nat → σ → σ}
    (hok : ∀ s value s', P s → f s = .ok (value, s') → Q value s')
    (herror : ∀ s error, P s → f s = .error error → ¬ live ∧ R s)
    (hhalf : ∀ s progress, P s → R (halfway progress s)) :
    Triple live P (Program.step fault f halfway) Q R := by
  intro fates s hs
  have hsettle : ∀ rest, (fates = [] → rest = []) →
      Meets live Q R fates (settle s rest (f s)) := by
    intro rest hrest
    cases hf : f s with
    | ok result => exact ⟨hrest, hok s result.1 result.2 hs hf⟩
    | error error =>
      obtain ⟨hdead, hr⟩ := herror s error hs hf
      exact ⟨fun hnil => ⟨hrest hnil, hdead⟩, hr⟩
  cases fates with
  | nil => exact hsettle [] id
  | cons fate fates =>
    cases fate with
    | goes => exact hsettle fates (by simp)
    | throws progress => exact ⟨by simp, hhalf s progress hs⟩
    | ends progress => exact ⟨by simp, hhalf s progress hs⟩

/-- An atomic step leaves the state before it or the one after it. -/
theorem Triple.atomic {fault : ε} {f : σ → Except ε (α × σ)}
    (hok : ∀ s value s', P s → f s = .ok (value, s') → Q value s' ∧ R s')
    (herror : ∀ s error, P s → f s = .error error → ¬ live) (hstay : ∀ s, P s → R s) :
    Triple live P (Program.atomic fault f) Q R := by
  refine .step (fun s value s' hs hf => (hok s value s' hs hf).1)
    (fun s error hs hf => ⟨herror s error hs hf, hstay s hs⟩) ?_
  intro s progress hs
  cases progress with
  | zero => exact hstay s hs
  | succ progress =>
    unfold eitherSide
    cases hf : f s with
    | ok result => exact (hok s result.1 result.2 hs hf).2
    | error error => exact hstay s hs

theorem Triple.idle {fault : ε} {Q : Unit → σ → Prop} (hpost : ∀ s, P s → Q () s)
    (hexit : ∀ s, P s → R s) : Triple live P (Program.idle fault) Q R := by
  refine .atomic ?_ (by simp) hexit
  intro s value s' hs hf
  obtain ⟨rfl, rfl⟩ : value = () ∧ s = s' := by simpa using hf
  exact ⟨hpost s hs, hexit s hs⟩

/-- The cleanup keeps what the body has established. -/
theorem Triple.tryFinally {cleanup : Program σ ε Unit} (h : Triple live P p Q R)
    (hreturned : ∀ value, Triple live (Q value) cleanup (fun _ => Q value) R)
    (hthrown : Triple live R cleanup (fun _ => R) R) :
    Triple live P (tryFinally p cleanup) Q R := by
  intro fates s hs
  have hbody := h fates s hs
  unfold Program.tryFinally
  generalize p fates s = result at hbody ⊢
  obtain ⟨outcome, s', rest⟩ := result
  cases outcome with
  | returned value =>
    obtain ⟨hrest, hq⟩ := hbody
    have hclean : Triple live (Q value) (cleanup >>= fun _ => Pure.pure value) Q R :=
      (hreturned value).bind fun _ => .pure value fun _ hq => hq
    exact (hclean rest s' hq).earlier hrest
  | thrown error =>
    obtain ⟨hrest, hr⟩ := hbody
    have hmeets := hthrown rest s' hr
    show Meets live Q R fates (continueWith (fun _ => Program.throw error) (cleanup rest s'))
    generalize cleanup rest s' = result at hmeets ⊢
    obtain ⟨outcome, s'', rest'⟩ := result
    cases outcome with
    | returned value =>
      exact ⟨fun hnil => ⟨hmeets.1 (hrest hnil).1, (hrest hnil).2⟩, hmeets.2⟩
    | thrown error => exact ⟨fun hnil => hmeets.1 (hrest hnil).1, hmeets.2⟩
    | ended => exact ⟨fun hnil => hmeets.1 (hrest hnil).1, hmeets.2⟩
  | ended => exact hbody

theorem Triple.tryCatch {handler : ε → Program σ ε α} (h : Triple live P p Q R)
    (hhandler : ∀ error, Triple live R (handler error) Q R') (hexit : ∀ s, R s → R' s) :
    Triple live P (tryCatch p handler) Q R' := by
  intro fates s hs
  have hbody := h fates s hs
  unfold Program.tryCatch
  generalize p fates s = result at hbody ⊢
  obtain ⟨outcome, s', rest⟩ := result
  cases outcome with
  | returned value => exact hbody
  | thrown error =>
    obtain ⟨hrest, hr⟩ := hbody
    exact (hhandler error rest s' hr).earlier fun hnil => (hrest hnil).1
  | ended => exact ⟨hbody.1, hexit s' hbody.2⟩

end Program

end Lib
