import OmkVerified.Lib.FilePath
import OmkVerified.CodingAgent.Tools.Proofs.FileMutationQueueProofs

/-!
# The keys of mutated files

Calls of `withFileMutationQueue` on a file system with symbolic links, which anything may change at
any time. `realpath` answers from the file system as it is when the call is registered.
-/

namespace CodingAgent.MutationQueue

open Lib
open FileSystem (Location)

/-- `realpath(path)`; at most `links` symbolic links are followed. -/
def realpath (fs : FileSystem FileName) (links : Nat) (path : Location FileName) : Realpath (List Char) :=
  match fs.lookup links path with
  | .found location _ => .resolved (pathText location)
  | .missing _ _ => .failed (some "ENOENT")
  | .failed .notDirectory => .failed (some "ENOTDIR")
  | .failed .denied => .failed (some "EACCES")
  | .failed .tooManyLinks => .failed (some "ELOOP")

/-- The file system and the path that the key of a call was resolved with. -/
structure Origin where
  files : FileSystem FileName
  path : Location FileName

structure World where
  files : FileSystem FileName
  queue : State (List Char)
  /-- `resolve(filePath)` of the calls that have begun to register. -/
  path : Nat → Option (Location FileName)
  origin : Nat → Option Origin

inductive Event
  /-- A function of the queue or another program changes the file system. -/
  | change (files : FileSystem FileName)
  | call
  | beginRegistration (call : Nat) (cwd : Location FileName) (filePath : List Char)
  | settleRealpath (call : Nat)
  | settleRegistrationQueue (call : Nat)
  | resume (call : Nat)
  | start (call : Nat)
  | finish (call : Nat) (threw : Bool)
  | settleChain (call : Nat)

namespace World

def init (files : FileSystem FileName) : World :=
  ⟨files, MutationQueue.init, fun _ => none, fun _ => none⟩

variable (links : Nat) (w : World)

/-- The queue takes a step. -/
def take (action : Action (List Char)) : Option World :=
  (step w.queue action).map fun queue => { w with queue }

def step : Event → Option World
  | .change files => some { w with files }
  | .call => w.take .call
  | .beginRegistration call cwd filePath =>
    let path := resolveLocation cwd filePath
    (w.take (.beginRegistration call (pathText path))).map fun w =>
      { w with path := Function.update w.path call (some path) }
  | .settleRealpath call =>
    match w.path call with
    | none => none
    | some path =>
      (w.take (.settleRealpath call (realpath w.files links path))).map fun w =>
        { w with origin := Function.update w.origin call (some ⟨w.files, path⟩) }
  | .settleRegistrationQueue call => w.take (.settleRegistrationQueue call)
  | .resume call => w.take (.resume call)
  | .start call => w.take (.start call)
  | .finish call threw => w.take (.finish call threw)
  | .settleChain call => w.take (.settleChain call)

end World

/-- The paths of two calls get the same key: both files are there, or neither is and the paths are
spelled alike, or one is there and the other call comes without links to where it is. -/
def Origin.KeysAgree (links : Nat) (first second : Origin) : Prop :=
  (first.files.Exists links first.path ∧ second.files.Exists links second.path) ∨
    (¬ first.files.Exists links first.path ∧ ¬ second.files.Exists links second.path ∧
      first.path = second.path) ∨
    (first.files.Exists links first.path ∧ ¬ second.files.Exists links second.path ∧
      second.files.Direct second.path) ∨
    (¬ first.files.Exists links first.path ∧ second.files.Exists links second.path ∧
      first.files.Direct first.path)

/-- The functions of the calls never run at the same time, and the earlier one is through when the
later one starts. -/
def State.InTurn {Path : Type} (s : State Path) (first second : Nat) : Prop :=
  (s.stage first = .running → s.stage second = .running → first = second) ∧
    (first < second → s.Started second → s.stage first = .settled) ∧
    (second < first → s.Started first → s.stage second = .settled)

end CodingAgent.MutationQueue

/-!
# When two calls on one file take turns

The queue keeps the calls of one key apart. Two calls that name the same file have one key if and only
if both find it, or both miss it under one path, or the one that misses it comes without links.
-/

namespace CodingAgent.MutationQueue

open Lib
open FileSystem (Location)

/-! ## The key of a file -/

section Keys

variable {fs : FileSystem FileName} {links : Nat} {path location : Location FileName}

theorem getMutationQueueKey_found (h : fs.Names links path location) (hexists : fs.Exists links path) :
    getMutationQueueKey (pathText path) (realpath fs links path) = some (pathText location) := by
  obtain ⟨reached, left, hfound⟩ := hexists
  rw [h.eq_of_found hfound, realpath, hfound, getMutationQueueKey]

theorem getMutationQueueKey_missing (h : fs.Names links path location)
    (hexists : ¬ fs.Exists links path) :
    getMutationQueueKey (pathText path) (realpath fs links path) = some (pathText path) := by
  unfold realpath
  cases hlookup : fs.lookup links path with
  | found reached left => exact absurd ⟨reached, left, hlookup⟩ hexists
  | missing missed rest => rfl
  | failed error => exact absurd hlookup (h.ne_failed error)

end Keys

/-- The keys of two calls that name the same file. -/
theorem keys_eq_iff {links : Nat} {first second : Origin} {location : Location FileName}
    (hfirst : first.files.Names links first.path location)
    (hsecond : second.files.Names links second.path location) :
    getMutationQueueKey (pathText first.path) (realpath first.files links first.path) =
        getMutationQueueKey (pathText second.path) (realpath second.files links second.path) ↔
      first.KeysAgree links second := by
  unfold Origin.KeysAgree
  by_cases hone : first.files.Exists links first.path
  · rw [getMutationQueueKey_found hfirst hone]
    by_cases htwo : second.files.Exists links second.path
    · rw [getMutationQueueKey_found hsecond htwo]
      simp [hone, htwo]
    · rw [getMutationQueueKey_missing hsecond htwo, Option.some.injEq, pathText_injective.eq_iff,
        hsecond.eq_iff_direct]
      simp [hone, htwo]
  · rw [getMutationQueueKey_missing hfirst hone]
    by_cases htwo : second.files.Exists links second.path
    · rw [getMutationQueueKey_found hsecond htwo, Option.some.injEq, pathText_injective.eq_iff, eq_comm,
        hfirst.eq_iff_direct]
      simp [hone, htwo]
    · rw [getMutationQueueKey_missing hsecond htwo, Option.some.injEq, pathText_injective.eq_iff]
      simp [hone, htwo]

/-! ## Steps of the queue -/

section Steps

variable {Path : Type} [DecidableEq Path] {s s' : State Path}

/-- Only a settled `realpath` gives a call its key. -/
theorem keyOf_step {action : Action Path} (h : step s action = some s')
    (hother : ∀ call result, action ≠ .settleRealpath call result) (call : Nat) :
    s'.keyOf call = s.keyOf call := by
  cases step_cases h with
  | register hstage => exact absurd rfl (hother _ _)
  | refuse hstage => exact absurd rfl (hother _ _)
  | _ => rfl

theorem keyOf_settleRealpath {call : Nat} {result : Realpath Path} (horder : InOrder s)
    (h : step s (.settleRealpath call result) = some s') :
    ∃ resolvedPath, s.stage call = .resolving resolvedPath ∧
      s'.keyOf call = getMutationQueueKey resolvedPath result ∧
      ∀ other, other ≠ call → s'.keyOf other = s.keyOf other := by
  simp only [step] at h
  split at h
  · next resolvedPath hstage =>
    refine ⟨resolvedPath, hstage, ?_⟩
    split at h
    · next key hkey =>
      obtain rfl := Option.some.inj h
      rw [hkey]
      refine ⟨by simp [State.keyOf, State.register], fun other hother => ?_⟩
      simp [State.keyOf, State.register, Function.update_of_ne hother]
    · next hkey =>
      obtain rfl := Option.some.inj h
      rw [hkey]
      refine ⟨?_, fun other hother => rfl⟩
      have hnone : s.registration call = none := by
        rw [Option.eq_none_iff_forall_ne_some]
        intro registration hregistration
        have hbeyond := horder.entered call registration hregistration
        rw [hstage] at hbeyond
        simp [Stage.Beyond] at hbeyond
      rw [keyOf_withStage, State.keyOf, hnone, Option.map_none]
  · cases h

theorem called_of_beginRegistration {call : Nat} {resolvedPath : Path}
    (h : step s (.beginRegistration call resolvedPath) = some s') : s.stage call = .called := by
  cases step_cases h with
  | beginRegistration hcalled _ => exact hcalled

omit [DecidableEq Path] in
/-- Another stage of a call does not show that a path is resolved. -/
theorem resolving_of_update {call other : Nat} {stage : Stage Path} {resolvedPath : Path}
    (hstage : ∀ resolvedPath, stage ≠ .resolving resolvedPath)
    (h : Function.update s.stage call stage other = .resolving resolvedPath) :
    s.stage other = .resolving resolvedPath := by
  by_cases heq : other = call
  · subst heq
    rw [Function.update_self] at h
    exact absurd h (hstage resolvedPath)
  · rwa [Function.update_of_ne heq] at h

/-- A path is resolved from the beginning of the registration on. -/
theorem resolving_step {action : Action Path} (h : step s action = some s') {call : Nat}
    {resolvedPath : Path} (hstage : s'.stage call = .resolving resolvedPath) :
    s.stage call = .resolving resolvedPath ∨ action = .beginRegistration call resolvedPath := by
  cases step_cases h with
  | call => exact .inl (resolving_of_update (by simp) hstage)
  | @beginRegistration begun path hcalled hprevious =>
    by_cases heq : call = begun
    · subst heq
      rw [stage_withStage, Function.update_self, Stage.resolving.injEq] at hstage
      rw [hstage]
      exact .inr rfl
    · rw [stage_withStage, Function.update_of_ne heq] at hstage
      exact .inl hstage
  | register _ => exact .inl (resolving_of_update (by simp) hstage)
  | refuse _ => exact .inl (resolving_of_update (by simp) hstage)
  | settleRegistrationQueue _ _ => exact .inl hstage
  | resume _ => exact .inl (resolving_of_update (by simp) hstage)
  | reject _ => exact .inl (resolving_of_update (by simp) hstage)
  | start _ _ _ => exact .inl (resolving_of_update (by simp) hstage)
  | finish _ _ => exact .inl (resolving_of_update (by simp) hstage)
  | settleChain _ _ _ _ => exact .inl hstage

end Steps

/-! ## The origins of the keys -/

/-- Every key comes from the file system and the path of its origin. -/
structure Tracked (links : Nat) (w : World) : Prop where
  order : InOrder w.queue
  chained : Chained w.queue
  resolving : ∀ call resolvedPath, w.queue.stage call = .resolving resolvedPath →
    ∃ path, w.path call = some path ∧ resolvedPath = pathText path
  keys : ∀ call origin, w.origin call = some origin →
    w.queue.keyOf call =
      getMutationQueueKey (pathText origin.path) (realpath origin.files links origin.path)

theorem Tracked.init (links : Nat) (files : FileSystem FileName) : Tracked links (World.init files) where
  order := InOrder.init
  chained := Chained.init
  resolving call resolvedPath h := by cases h
  keys call origin h := by cases h

section Tracking

variable {links : Nat} {w w' : World}

theorem take_eq_some {action : Action (List Char)} (h : w.take action = some w') :
    step w.queue action = some w'.queue ∧ w'.path = w.path ∧ w'.origin = w.origin ∧
      w'.files = w.files := by
  obtain ⟨queue, hqueue, rfl⟩ := Option.map_eq_some_iff.mp h
  exact ⟨hqueue, rfl, rfl, rfl⟩

/-- A step of the queue that neither begins nor ends a registration. -/
theorem Tracked.take {action : Action (List Char)} (h : Tracked links w)
    (htake : w.take action = some w')
    (hbegin : ∀ call path, action ≠ .beginRegistration call path)
    (hsettle : ∀ call result, action ≠ .settleRealpath call result) : Tracked links w' := by
  obtain ⟨hstep, hpath, horigin, -⟩ := take_eq_some htake
  refine ⟨h.order.step (step_cases hstep), h.chained.step h.order (step_cases hstep), ?_, ?_⟩
  · intro call resolvedPath hstage
    rw [hpath]
    rcases resolving_step hstep hstage with hbefore | heq
    · exact h.resolving call resolvedPath hbefore
    · exact absurd heq (hbegin call resolvedPath)
  · intro call origin hcall
    rw [keyOf_step hstep hsettle call]
    exact h.keys call origin (horigin ▸ hcall)

theorem Tracked.step {event : Event} (h : Tracked links w) (hstep : w.step links event = some w') :
    Tracked links w' := by
  cases event with
  | change files =>
    obtain rfl := Option.some.inj hstep
    exact ⟨h.order, h.chained, h.resolving, h.keys⟩
  | call => exact h.take hstep (by simp) (by simp)
  | beginRegistration call cwd filePath =>
    obtain ⟨next, htake, rfl⟩ := Option.map_eq_some_iff.mp hstep
    obtain ⟨hqueue, hpath, horigin, -⟩ := take_eq_some htake
    refine ⟨h.order.step (step_cases hqueue), h.chained.step h.order (step_cases hqueue), ?_, ?_⟩
    · intro other resolvedPath hstage
      dsimp only
      rcases resolving_step hqueue hstage with hbefore | heq
      · have hne : other ≠ call := by
          rintro rfl
          rw [called_of_beginRegistration hqueue] at hbefore
          cases hbefore
        rw [Function.update_of_ne hne, hpath]
        exact h.resolving other resolvedPath hbefore
      · cases heq
        exact ⟨_, Function.update_self _ _ _, rfl⟩
    · intro other origin hother
      dsimp only at hother ⊢
      rw [keyOf_step hqueue (by simp) other]
      exact h.keys other origin (horigin ▸ hother)
  | settleRealpath call =>
    simp only [World.step] at hstep
    split at hstep
    · cases hstep
    · next path hcall =>
      obtain ⟨next, htake, rfl⟩ := Option.map_eq_some_iff.mp hstep
      obtain ⟨hqueue, hpath, horigin, hfiles⟩ := take_eq_some htake
      refine ⟨h.order.step (step_cases hqueue), h.chained.step h.order (step_cases hqueue), ?_, ?_⟩
      · intro other resolvedPath hstage
        dsimp only at hstage ⊢
        rw [hpath]
        rcases resolving_step hqueue hstage with hbefore | heq
        · exact h.resolving other resolvedPath hbefore
        · cases heq
      · intro other origin hother
        dsimp only at hother ⊢
        obtain ⟨resolvedPath, hstage, hkey, hothers⟩ := keyOf_settleRealpath h.order hqueue
        by_cases heq : other = call
        · subst heq
          rw [Function.update_self, Option.some.injEq] at hother
          subst hother
          obtain ⟨path', hpath', rfl⟩ := h.resolving other resolvedPath hstage
          rw [hcall, Option.some.injEq] at hpath'
          rw [hkey, hpath', ← hfiles]
        · rw [Function.update_of_ne heq] at hother
          rw [hothers other heq]
          exact h.keys other origin (horigin ▸ hother)
  | settleRegistrationQueue call => exact h.take hstep (by simp) (by simp)
  | resume call => exact h.take hstep (by simp) (by simp)
  | start call => exact h.take hstep (by simp) (by simp)
  | finish call threw => exact h.take hstep (by simp) (by simp)
  | settleChain call => exact h.take hstep (by simp) (by simp)

end Tracking

theorem inTurn_of_sameKey {s : State (List Char)} (horder : InOrder s) (h : Chained s)
    {first second : Nat} (hsame : s.SameKey first second) : s.InTurn first second := by
  have hback : s.SameKey second first := ⟨hsame.1.symm, hsame.1 ▸ hsame.2⟩
  have hserial := serialized horder h
  refine ⟨fun hfirst hsecond => hserial.exclusive first second hfirst hsecond hsame, ?_, ?_⟩
  · intro hlt hstarted
    exact hserial.ordered first second hlt hsame hstarted
  · intro hlt hstarted
    exact hserial.ordered second first hlt hback hstarted

/-- Two calls that name the same file when they are registered have the same key exactly when the
condition holds, and take turns then. -/
theorem sameKey_iff_keysAgree {links : Nat} {files : FileSystem FileName} {events : List Event}
    {w : World} (h : Machine.run (World.step links) (World.init files) events = some w)
    {first second : Nat} {firstOrigin secondOrigin : Origin} {location : Location FileName}
    (hfirst : w.origin first = some firstOrigin) (hsecond : w.origin second = some secondOrigin)
    (hfirstNames : firstOrigin.files.Names links firstOrigin.path location)
    (hsecondNames : secondOrigin.files.Names links secondOrigin.path location) :
    (w.queue.SameKey first second ↔ firstOrigin.KeysAgree links secondOrigin) ∧
      (firstOrigin.KeysAgree links secondOrigin → w.queue.InTurn first second) := by
  have htracked : Tracked links w :=
    Machine.run_invariant (fun s a s' hs hstep => hs.step hstep) (Tracked.init links files) h
  have hiff : w.queue.SameKey first second ↔ firstOrigin.KeysAgree links secondOrigin := by
    unfold State.SameKey
    rw [htracked.keys first firstOrigin hfirst, htracked.keys second secondOrigin hsecond,
      keys_eq_iff hfirstNames hsecondNames]
    constructor
    · exact And.left
    · intro hagree
      refine ⟨hagree, ?_⟩
      by_cases hexists : firstOrigin.files.Exists links firstOrigin.path
      · rw [getMutationQueueKey_found hfirstNames hexists]
        exact Option.some_ne_none _
      · rw [getMutationQueueKey_missing hfirstNames hexists]
        exact Option.some_ne_none _
  refine ⟨hiff, fun hagree => ?_⟩
  exact inTurn_of_sameKey htracked.order htracked.chained ((hiff).mpr hagree)

section Sample

def realName : FileName := ⟨['r', 'e', 'a', 'l'], by decide⟩

def linkName : FileName := ⟨['l', 'i', 'n', 'k'], by decide⟩

def newName : FileName := ⟨['n', 'e', 'w'], by decide⟩

/-- A directory `/real` and a link `/link` to it. -/
def sampleFiles : FileSystem FileName :=
  .ofEntries [[], [realName]] [([linkName], ⟨true, [.name realName]⟩)] (by decide) (by decide)

/-- Two calls before `new` is there, one through the link. -/
def sampleEvents : List Event :=
  [.call, .call, .beginRegistration 0 [] ['/', 'l', 'i', 'n', 'k', '/', 'n', 'e', 'w'],
    .settleRealpath 0, .settleRegistrationQueue 0,
    .beginRegistration 1 [] ['/', 'r', 'e', 'a', 'l', '/', 'n', 'e', 'w'], .settleRealpath 1,
    .resume 0, .start 0, .resume 1, .start 1]

def linkOrigin : Origin := ⟨sampleFiles, [linkName, newName]⟩

def realOrigin : Origin := ⟨sampleFiles, [realName, newName]⟩

theorem names_link : sampleFiles.Names 40 [linkName, newName] [realName, newName] := .new rfl

theorem names_real : sampleFiles.Names 40 [realName, newName] [realName, newName] := .new rfl

/-- The two functions run at the same time although they change one file. -/
theorem sameKey_of_names_fails :
    ¬ ∀ (events : List Event) (w : World) (first second : Nat) (one two : Origin)
        (location : Location FileName),
      Machine.run (World.step 40) (World.init sampleFiles) events = some w → w.origin first = some one →
      w.origin second = some two → one.files.Names 40 one.path location →
      two.files.Names 40 two.path location →
      w.queue.SameKey first second ∧ w.queue.InTurn first second := by
  intro hall
  obtain ⟨w, hrun, hfirst, hsecond, hzero, hone⟩ :
      ∃ w, Machine.run (World.step 40) (World.init sampleFiles) sampleEvents = some w ∧
        w.origin 0 = some linkOrigin ∧ w.origin 1 = some realOrigin ∧ w.queue.stage 0 = .running ∧
          w.queue.stage 1 = .running := ⟨_, rfl, rfl, rfl, rfl, rfl⟩
  have hturn := (hall sampleEvents w 0 1 linkOrigin realOrigin [realName, newName] hrun hfirst hsecond
    names_link names_real).2
  exact Nat.zero_ne_one (hturn.1 hzero hone)

/-- Two calls by the path without a link. -/
def directEvents : List Event :=
  [.call, .call, .beginRegistration 0 [] ['/', 'r', 'e', 'a', 'l', '/', 'n', 'e', 'w'],
    .settleRealpath 0, .settleRegistrationQueue 0,
    .beginRegistration 1 [] ['/', 'r', 'e', 'a', 'l', '/', 'n', 'e', 'w'], .settleRealpath 1,
    .resume 0, .start 0, .resume 1]

theorem not_exists_real : ¬ sampleFiles.Exists 40 [realName, newName] := by
  rintro ⟨location, left, h⟩
  cases h

theorem sameKey_iff_keysAgree_sample :
    ∃ w, Machine.run (World.step 40) (World.init sampleFiles) directEvents = some w ∧
      w.queue.SameKey 0 1 ∧ w.queue.InTurn 0 1 ∧ w.queue.stage 0 = .running ∧
        w.queue.stage 1 = .waiting := by
  obtain ⟨w, hrun, hfirst, hsecond, hzero, hone⟩ :
      ∃ w, Machine.run (World.step 40) (World.init sampleFiles) directEvents = some w ∧
        w.origin 0 = some realOrigin ∧ w.origin 1 = some realOrigin ∧ w.queue.stage 0 = .running ∧
          w.queue.stage 1 = .waiting := ⟨_, rfl, rfl, rfl, rfl, rfl⟩
  have hagree : realOrigin.KeysAgree 40 realOrigin :=
    .inr (.inl ⟨not_exists_real, not_exists_real, rfl⟩)
  have hkeys := sameKey_iff_keysAgree hrun hfirst hsecond names_real names_real
  exact ⟨w, hrun, (hkeys.1).mpr hagree, hkeys.2 hagree, hzero, hone⟩

end Sample

end CodingAgent.MutationQueue
