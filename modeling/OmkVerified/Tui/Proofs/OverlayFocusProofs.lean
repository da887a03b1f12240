import OmkVerified.Tui.OverlayFocus

/-!
# Setting the focus of the overlays

Where the focus lands when it is set, and what else of the interface that changes.
-/

namespace Tui.Overlay

variable {Component World : Type}

namespace TUI

variable {tui : TUI Component World} {entry : OverlayStackEntry Component World}

/-! ## Reading the stack -/

theorem topmost_mem (h : tui.getTopmostVisibleOverlay = some entry) :
    entry ∈ tui.overlayStack ∧ tui.isOverlayVisible entry = true := by
  refine List.foldlRecOn (motive := fun topmost => ∀ e, topmost = some e →
    e ∈ tui.overlayStack ∧ tui.isOverlayVisible e = true) tui.overlayStack tui.frontmost
    (fun e he => by cases he) (fun topmost htop overlay hmem e he => ?_) entry h
  unfold frontmost at he
  split at he
  · exact htop e he
  · rename_i hvisible
    have hoverlay : tui.isOverlayVisible overlay = true := by
      simp only [Bool.or_eq_true, not_or] at hvisible
      simpa using hvisible.2
    split at he
    · cases he
      exact ⟨hmem, hoverlay⟩
    · split at he
      · cases he
        exact ⟨hmem, hoverlay⟩
      · cases he
        exact htop _ rfl

theorem visibleEntry_mem {overlay : Nat} (h : tui.visibleEntry overlay = some entry) :
    entry ∈ tui.overlayStack ∧ entry.id = overlay ∧ tui.isOverlayVisible entry = true := by
  obtain ⟨hfind, hvisible⟩ := Option.filter_eq_some_iff.mp h
  exact ⟨List.mem_of_find?_eq_some hfind, by simpa using List.find?_some hfind, hvisible⟩

/-- The focus is to go to the target when the state that blocks it ends. -/
def Resumes {Overlay : Type} (state : OverlayFocusRestoreState Overlay Component)
    (target : Option Component) : Prop :=
  ∃ blocked, state = .blocked blocked ∧ blocked.resume = .focusTarget target

theorem visibleRestore_eligible (h : tui.getVisibleOverlayFocusRestore = .eligible entry) :
    entry ∈ tui.overlayStack ∧ tui.isOverlayVisible entry = true := by
  unfold getVisibleOverlayFocusRestore at h
  split at h
  · cases h
  · split at h
    · rename_i found hfound
      cases h
      exact ⟨(visibleEntry_mem hfound).1, (visibleEntry_mem hfound).2.2⟩
    · cases h
  · split at h <;> cases h

theorem visibleRestore_blocked
    {state : BlockedOverlayFocusRestore (OverlayStackEntry Component World) Component}
    (h : tui.getVisibleOverlayFocusRestore = .blocked state) :
    state.overlay ∈ tui.overlayStack ∧ tui.isOverlayVisible state.overlay = true ∧
      tui.overlayFocusRestore = .blocked ⟨state.overlay.id, state.blockedBy, state.resume⟩ := by
  unfold getVisibleOverlayFocusRestore at h
  split at h
  · cases h
  · split at h <;> cases h
  · rename_i stored hstored
    split at h
    · rename_i found hfound
      cases h
      obtain ⟨hmem, hid, hvisible⟩ := visibleEntry_mem hfound
      refine ⟨hmem, hvisible, ?_⟩
      dsimp only
      rw [hstored, hid]
    · cases h

variable [DecidableEq Component]

theorem overlayOf_mem {c : Component} (h : tui.overlayOf c = some entry) :
    entry ∈ tui.overlayStack ∧ entry.component = c :=
  ⟨List.mem_of_find?_eq_some h, by simpa using List.find?_some h⟩

theorem overlayOf_eq_none {c : Component} :
    tui.overlayOf c = none ↔ ∀ entry ∈ tui.overlayStack, entry.component ≠ c := by
  simp [overlayOf]

theorem blockedAt_eq_some {Overlay : Type} {previousFocus : Option Component}
    {restore : OverlayFocusRestoreState Overlay Component}
    {state : BlockedOverlayFocusRestore Overlay Component}
    (h : restore.blockedAt previousFocus = some state) :
    restore = .blocked state ∧ previousFocus = some state.blockedBy := by
  cases restore with
  | blocked stored =>
    simp only [OverlayFocusRestoreState.blockedAt, Option.ite_none_right_eq_some,
      Option.some.injEq] at h
    obtain ⟨hprevious, rfl⟩ := h
    exact ⟨rfl, hprevious⟩
  | inactive => cases h
  | eligible overlay => cases h

/-! ## Setting the focus -/

/-- Where the focus may go when it is set to `component`: there, to a visible overlay of the stack, or to
the target that the caller gave. -/
def Lands (tui : TUI Component World) (component focused : Option Component) : Prop :=
  focused = component ∨
    (∃ entry ∈ tui.overlayStack, tui.isOverlayVisible entry = true ∧ focused = some entry.component) ∨
    Resumes tui.overlayFocusRestore focused

/-- `tui'` differs from `tui` at most in the focus, which lands, and in the state of its restoration, which
has no new target. -/
def Moves (tui : TUI Component World) (component : Option Component) (tui' : TUI Component World)
    (focused : Option Component) : Prop :=
  Lands tui component focused ∧
    ∃ restore, tui' = { tui with focusedComponent := tui'.focusedComponent, overlayFocusRestore := restore } ∧
      ∀ target, Resumes restore target → Resumes tui.overlayFocusRestore target

theorem resolveBlocked_moves {component : Option Component}
    {state : BlockedOverlayFocusRestore (OverlayStackEntry Component World) Component}
    (h : tui.getVisibleOverlayFocusRestore.blockedAt tui.focusedComponent = some state) :
    Moves tui component (tui.resolveBlockedOverlayFocusResume state).1
      (tui.resolveBlockedOverlayFocusResume state).2 := by
  obtain ⟨hmem, hvisible, hstored⟩ := visibleRestore_blocked (blockedAt_eq_some h).1
  unfold resolveBlockedOverlayFocusResume
  split
  · exact ⟨.inr (.inl ⟨_, hmem, hvisible, rfl⟩), tui.overlayFocusRestore, rfl, fun _ h => h⟩
  · rename_i target hresume
    refine ⟨.inr (.inr ⟨_, hstored, hresume⟩), .inactive, rfl, fun _ h => ?_⟩
    obtain ⟨_, h, _⟩ := h
    cases h

theorem resolveFocus_moves (component : Option Component) (policy : OverlayFocusRestorePolicy) :
    Moves tui component (tui.resolveFocus component policy).1 (tui.resolveFocus component policy).2 := by
  have hstay : Moves tui component tui component :=
    ⟨.inl rfl, tui.overlayFocusRestore, rfl, fun _ h => h⟩
  unfold resolveFocus
  dsimp only
  split
  · rename_i next
    split
    · exact hstay
    · split
      · rename_i state hblocked
        split
        · exact resolveBlocked_moves hblocked
        · rename_i hresume
          push Not at hresume
          refine ⟨.inl rfl, _, rfl, fun target htarget => ?_⟩
          obtain ⟨_, h, htarget⟩ := htarget
          cases h
          rw [show state.resume = .restoreOverlay from hresume.1] at htarget
          cases htarget
      · split
        · split
          · refine ⟨.inl rfl, _, rfl, fun target htarget => ?_⟩
            obtain ⟨_, h, htarget⟩ := htarget
            cases h
            cases htarget
          · exact hstay
        · exact hstay
  · split
    · rename_i state hblocked
      exact resolveBlocked_moves hblocked
    · split
      · refine ⟨.inl rfl, .inactive, rfl, fun _ h => ?_⟩
        obtain ⟨_, h, _⟩ := h
        cases h
      · exact hstay

theorem setFocusInternal_moves (component : Option Component) (policy : OverlayFocusRestorePolicy) :
    Moves tui component (tui.setFocusInternal component policy)
      (tui.setFocusInternal component policy).focusedComponent := by
  obtain ⟨hlands, restore, hframe, htargets⟩ := resolveFocus_moves component policy
  unfold setFocusInternal takeFocus
  dsimp only
  rw [hframe]
  split
  · refine ⟨hlands, _, rfl, fun target htarget => ?_⟩
    obtain ⟨_, h, _⟩ := htarget
    cases h
  · exact ⟨hlands, restore, rfl, htargets⟩

end TUI

end Tui.Overlay

/-!
# Runs of the overlays

The focus is on an overlay of the stack or where the caller put it, and what an overlay of the stack gives
the focus back to is another one of the stack or named by the caller.
-/

namespace Tui.Overlay

open Lib.Machine

variable {Component World : Type}

/-! ## What is kept -/

/-- What holds of the stack and of the focus while no removed overlay has got the focus. -/
structure Kept (session : Session Component World) : Prop where
  fresh : ∀ entry ∈ session.tui.overlayStack, entry.id ≤ session.tui.focusOrderCounter
  unique : ∀ entry ∈ session.tui.overlayStack, ∀ other ∈ session.tui.overlayStack,
    entry.id = other.id ∨ entry.component = other.component → entry = other
  apart : ∀ entry ∈ session.tui.overlayStack, ∀ other ∈ session.tui.removed,
    entry.component ≠ other.component
  focused : session.Offers session.tui.focusedComponent
  preFocus : ∀ entry ∈ session.tui.overlayStack, ∀ c, entry.preFocus = some c →
    c ∈ session.named ∨ ∃ other ∈ session.tui.overlayStack, other.id ≠ entry.id ∧ other.component = c
  resumes : ∀ c, TUI.Resumes session.tui.overlayFocusRestore (some c) → c ∈ session.named

variable {tui : TUI Component World} {named : List Component} {entry : OverlayStackEntry Component World}

theorem Session.Offers.overlay (hmem : entry ∈ tui.overlayStack) :
    Session.Offers ⟨tui, named⟩ (some entry.component) := by
  rintro c ⟨⟩
  exact .inr ⟨entry, hmem, rfl⟩

theorem Kept.offers_preFocus (hkept : Kept ⟨tui, named⟩) (hmem : entry ∈ tui.overlayStack) :
    Session.Offers ⟨tui, named⟩ entry.preFocus := by
  intro c hc
  rcases hkept.preFocus entry hmem c hc with hnamed | ⟨other, hother, -, hcomponent⟩
  · exact .inl hnamed
  · exact .inr ⟨other, hother, hcomponent⟩

/-- The focus goes to the topmost visible overlay, or to what is offered instead. -/
theorem Kept.offers_fallback {preFocus : Option Component}
    (hoffers : tui.getTopmostVisibleOverlay = none → Session.Offers ⟨tui, named⟩ preFocus) :
    Session.Offers ⟨tui, named⟩ (tui.fallbackFocus preFocus) := by
  unfold TUI.fallbackFocus
  cases htop : tui.getTopmostVisibleOverlay with
  | none => exact hoffers htop
  | some top => exact .overlay (TUI.topmost_mem htop).1

theorem Kept.start (columns rows : Nat) (world : World) (children : List (Node Component)) :
    Kept (Session.start columns rows world children) where
  fresh := by rintro e ⟨⟩
  unique := by rintro e ⟨⟩
  apart := by rintro e ⟨⟩
  focused := by rintro c ⟨⟩
  preFocus := by rintro e ⟨⟩
  resumes := by
    intro c hc
    obtain ⟨_, h, _⟩ := hc
    cases h

/-- Clearing the restoration, and naming further components, keeps the invariant. -/
theorem Kept.weaken (hkept : Kept ⟨tui, named⟩) (more : List Component)
    {restore : OverlayFocusRestoreState Nat Component}
    (hresumes : ∀ c, TUI.Resumes restore (some c) → c ∈ more ++ named) :
    Kept ⟨{ tui with overlayFocusRestore := restore }, more ++ named⟩ where
  fresh := hkept.fresh
  unique := hkept.unique
  apart := hkept.apart
  focused := fun c hc => (hkept.focused c hc).imp_left (List.mem_append_right _)
  preFocus := fun entry hmem c hc =>
    (hkept.preFocus entry hmem c hc).imp_left (List.mem_append_right _)
  resumes := hresumes

theorem Kept.clear (hkept : Kept ⟨tui, named⟩) : Kept ⟨tui.clearOverlayFocusRestore, named⟩ :=
  hkept.weaken [] fun c hc => by
    obtain ⟨_, h, _⟩ := hc
    cases h

theorem Kept.name (hkept : Kept ⟨tui, named⟩) (more : List Component) : Kept ⟨tui, more ++ named⟩ :=
  hkept.weaken more fun c hc => List.mem_append_right _ (hkept.resumes c hc)

variable {f : OverlayStackEntry Component World → OverlayStackEntry Component World}
  {component : Option Component} {handle : Nat}

/-- The fields of the entries that the handles write are of no account. -/
theorem Kept.updateEntry (hkept : Kept ⟨tui, named⟩) (handle counter : Nat)
    (hid : ∀ e, (f e).id = e.id) (hcomponent : ∀ e, (f e).component = e.component)
    (hpreFocus : ∀ e, (f e).preFocus = e.preFocus) (hcounter : tui.focusOrderCounter ≤ counter) :
    Kept ⟨{ tui.updateEntry handle f with focusOrderCounter := counter }, named⟩ := by
  set g : OverlayStackEntry Component World → OverlayStackEntry Component World :=
    fun e => if e.id = handle then f e else e with hg
  have hgid : ∀ e, (g e).id = e.id := fun e => by simp only [hg]; split <;> simp [hid]
  have hgcomponent : ∀ e, (g e).component = e.component := fun e => by
    simp only [hg]; split <;> simp [hcomponent]
  have hgpreFocus : ∀ e, (g e).preFocus = e.preFocus := fun e => by
    simp only [hg]; split <;> simp [hpreFocus]
  have hof : ∀ e' ∈ tui.overlayStack.map g, ∃ e ∈ tui.overlayStack, g e = e' := fun e' he' =>
    List.mem_map.mp he'
  constructor
  · intro e' he'
    obtain ⟨e, he, rfl⟩ := hof e' he'
    rw [hgid]
    exact (hkept.fresh e he).trans hcounter
  · intro e' he' other' hother' heq
    obtain ⟨e, he, rfl⟩ := hof e' he'
    obtain ⟨other, hother, rfl⟩ := hof other' hother'
    rw [hgid, hgid, hgcomponent, hgcomponent] at heq
    rw [hkept.unique e he other hother heq]
  · intro e' he' other' hother'
    obtain ⟨e, he, rfl⟩ := hof e' he'
    obtain ⟨other, hother, rfl⟩ := List.mem_map.mp hother'
    rw [hgcomponent]
    exact (hgcomponent other).symm ▸ hkept.apart e he other hother
  · intro c hc
    rcases hkept.focused c hc with hnamed | ⟨e, he, rfl⟩
    · exact .inl hnamed
    · exact .inr ⟨g e, List.mem_map_of_mem he, hgcomponent e⟩
  · intro e' he' c hc
    obtain ⟨e, he, rfl⟩ := hof e' he'
    rw [hgpreFocus] at hc
    rcases hkept.preFocus e he c hc with hnamed | ⟨other, hother, hne, rfl⟩
    · exact .inl hnamed
    · exact .inr ⟨g other, List.mem_map_of_mem hother, by rwa [hgid, hgid], hgcomponent other⟩
  · exact hkept.resumes

theorem Kept.unfocused (hkept : Kept ⟨tui, named⟩) :
    Kept ⟨{ tui with focusedComponent := none }, named⟩ where
  fresh := hkept.fresh
  unique := hkept.unique
  apart := hkept.apart
  focused := by rintro c ⟨⟩
  preFocus := hkept.preFocus
  resumes := hkept.resumes

theorem Kept.refocus (hkept : Kept ⟨{ tui with focusedComponent := none }, named⟩)
    (hfocused : Session.Offers ⟨tui, named⟩ tui.focusedComponent) : Kept ⟨tui, named⟩ where
  fresh := hkept.fresh
  unique := hkept.unique
  apart := hkept.apart
  focused := hfocused
  preFocus := hkept.preFocus
  resumes := hkept.resumes

@[simp] theorem TUI.clearFor_stack (overlay : Nat) :
    (tui.clearOverlayFocusRestoreFor overlay).overlayStack = tui.overlayStack := by
  unfold TUI.clearOverlayFocusRestoreFor
  split <;> rfl

@[simp] theorem TUI.clearFor_focused (overlay : Nat) :
    (tui.clearOverlayFocusRestoreFor overlay).focusedComponent = tui.focusedComponent := by
  unfold TUI.clearOverlayFocusRestoreFor
  split <;> rfl

@[simp] theorem TUI.clearFor_topmost (overlay : Nat) :
    (tui.clearOverlayFocusRestoreFor overlay).getTopmostVisibleOverlay = tui.getTopmostVisibleOverlay := by
  unfold TUI.clearOverlayFocusRestoreFor
  split <;> rfl

theorem Session.Offers.clearFor (hoffers : Session.Offers ⟨tui, named⟩ component) (overlay : Nat) :
    Session.Offers ⟨tui.clearOverlayFocusRestoreFor overlay, named⟩ component := by
  intro c hc
  rw [TUI.clearFor_stack]
  exact hoffers c hc

theorem Kept.clearFor (hkept : Kept ⟨tui, named⟩) (overlay : Nat) :
    Kept ⟨tui.clearOverlayFocusRestoreFor overlay, named⟩ := by
  unfold TUI.clearOverlayFocusRestoreFor
  split
  · exact hkept.clear
  · exact hkept

theorem TUI.entryOf_mem (h : tui.entryOf handle = some entry) :
    entry.id = handle ∧ (entry ∈ tui.overlayStack ∨
      entry ∈ tui.removed ∧ ∀ other ∈ tui.overlayStack, other.id ≠ handle) := by
  unfold TUI.entryOf at h
  rw [List.find?_append, Option.or_eq_some_iff] at h
  rcases h with hstack | ⟨hnone, hremoved⟩
  · exact ⟨by simpa using List.find?_some hstack, .inl (List.mem_of_find?_eq_some hstack)⟩
  · refine ⟨by simpa using List.find?_some hremoved, .inr ⟨List.mem_of_find?_eq_some hremoved, ?_⟩⟩
    simpa using hnone

theorem TUI.updateEntry_stack (h : ∀ other ∈ tui.overlayStack, other.id ≠ handle) :
    (tui.updateEntry handle f).overlayStack = tui.overlayStack :=
  (List.map_congr_left fun other hother => if_neg (h other hother)).trans (List.map_id _)

theorem TUI.updateEntry_topmost (h : ∀ other ∈ tui.overlayStack, other.id ≠ handle) :
    (tui.updateEntry handle f).getTopmostVisibleOverlay = tui.getTopmostVisibleOverlay := by
  unfold TUI.getTopmostVisibleOverlay
  rw [TUI.updateEntry_stack h]
  rfl

theorem Session.Offers.updateEntry (hoffers : Session.Offers ⟨tui, named⟩ component)
    (hcomponent : ∀ e, (f e).component = e.component) :
    Session.Offers ⟨tui.updateEntry handle f, named⟩ component := by
  intro c hc
  rcases hoffers c hc with hnamed | ⟨e, he, rfl⟩
  · exact .inl hnamed
  · refine .inr ⟨_, List.mem_map_of_mem he, ?_⟩
    split
    · exact hcomponent e
    · rfl

/-- The target of `unfocus` is among the components that the caller names. -/
theorem mem_named_unfocus {target : Option Component} {c : Component} (h : target = some c) :
    c ∈ (@Operation.unfocus Component World handle (some target)).named := by
  subst h
  exact List.mem_singleton_self c

/-- The component is that of a visible overlay, or the caller has set the focus to it. -/
def Session.Shows (session : Session Component World) (component : Option Component) : Prop :=
  ∀ c, component = some c → c ∈ session.named ∨
    ∃ entry ∈ session.tui.overlayStack, session.tui.isOverlayVisible entry = true ∧ entry.component = c

theorem Session.Shows.overlay (hmem : entry ∈ tui.overlayStack)
    (hvisible : tui.isOverlayVisible entry = true) : Session.Shows ⟨tui, named⟩ (some entry.component) := by
  rintro c ⟨⟩
  exact .inr ⟨entry, hmem, hvisible, rfl⟩

/-- The overlays and their surroundings are the same, and the restoration has no new target. -/
def TUI.SameOverlays (tui tui' : TUI Component World) : Prop :=
  ∃ focused restore, tui' = { tui with focusedComponent := focused, overlayFocusRestore := restore } ∧
    ∀ target, TUI.Resumes restore target → TUI.Resumes tui.overlayFocusRestore target

theorem TUI.SameOverlays.refl (tui : TUI Component World) : tui.SameOverlays tui :=
  ⟨_, _, rfl, fun _ h => h⟩

theorem TUI.SameOverlays.clear (tui : TUI Component World) :
    tui.SameOverlays tui.clearOverlayFocusRestore := by
  refine ⟨_, .inactive, rfl, fun _ h => ?_⟩
  obtain ⟨_, h, _⟩ := h
  cases h

variable {tui' : TUI Component World} {device : Device Component} {data : List Char}

theorem TUI.SameOverlays.trans {tui tui'' : TUI Component World} (h : tui.SameOverlays tui')
    (h' : tui'.SameOverlays tui'') : tui.SameOverlays tui'' := by
  obtain ⟨_, _, rfl, htargets⟩ := h
  obtain ⟨focused, restore, rfl, htargets'⟩ := h'
  exact ⟨focused, restore, rfl, fun target ht => htargets target (htargets' target ht)⟩

theorem Kept.settle (hkept : Kept ⟨tui, named⟩) (hsame : tui.SameOverlays tui')
    (hshows : Session.Shows ⟨tui, named⟩ tui'.focusedComponent) : Kept ⟨tui', named⟩ := by
  obtain ⟨focused, restore, rfl, htargets⟩ := hsame
  exact
    { fresh := hkept.fresh
      unique := hkept.unique
      apart := hkept.apart
      focused := fun c hc => (hshows c hc).imp_right fun ⟨e, he, _, h⟩ => ⟨e, he, h⟩
      preFocus := hkept.preFocus
      resumes := fun c hc => hkept.resumes c (htargets _ hc) }

theorem Session.Shows.same (hsame : tui.SameOverlays tui') :
    Session.Shows ⟨tui', named⟩ component ↔ Session.Shows ⟨tui, named⟩ component := by
  obtain ⟨focused, restore, rfl, -⟩ := hsame
  exact Iff.rfl

variable [DecidableEq Component]

theorem Kept.setFocusInternal (hkept : Kept ⟨{ tui with focusedComponent := none }, named⟩)
    (hoffers : Session.Offers ⟨tui, named⟩ component) (policy : OverlayFocusRestorePolicy) :
    Kept ⟨tui.setFocusInternal component policy, named⟩ := by
  obtain ⟨hlands, restore, hframe, htargets⟩ := TUI.setFocusInternal_moves component policy
  have hfocused : Session.Offers ⟨tui, named⟩ (tui.setFocusInternal component policy).focusedComponent := by
    rcases hlands with h | ⟨overlay, hmem, -, h⟩ | h
    · rw [h]
      exact hoffers
    · rw [h]
      exact .overlay hmem
    · intro c hc
      rw [hc] at h
      exact .inl (hkept.resumes c h)
  rw [hframe]
  exact
    { fresh := hkept.fresh
      unique := hkept.unique
      apart := hkept.apart
      focused := hfocused
      preFocus := hkept.preFocus
      resumes := fun c hc => hkept.resumes c (htargets _ hc) }

/-! ## One operation -/

theorem Kept.splice (hkept : Kept ⟨tui, named⟩) (hmem : entry ∈ tui.overlayStack)
    (hloop : Session.Unlooped ⟨tui, named⟩ entry) :
    Kept ⟨{ tui.retargetOverlayPreFocus entry with
      overlayStack := (tui.retargetOverlayPreFocus entry).overlayStack.filter
        fun overlay => overlay.id ≠ entry.id
      removed := entry :: tui.removed
      focusedComponent := none }, named⟩ := by
  set retarget : OverlayStackEntry Component World → OverlayStackEntry Component World := fun overlay =>
    if overlay.id ≠ entry.id ∧ overlay.preFocus = some entry.component then
      { overlay with preFocus := entry.preFocus }
    else overlay with hretarget
  set stack := (tui.retargetOverlayPreFocus entry).overlayStack.filter
    fun overlay => overlay.id ≠ entry.id with hstack
  have hid : ∀ e, (retarget e).id = e.id := fun e => by simp only [hretarget]; split <;> rfl
  have hcomponent : ∀ e, (retarget e).component = e.component := fun e => by
    simp only [hretarget]; split <;> rfl
  have hof : ∀ e' ∈ stack, ∃ e ∈ tui.overlayStack, e.id ≠ entry.id ∧ retarget e = e' := by
    intro e' he'
    obtain ⟨he', hne⟩ := List.mem_filter.mp he'
    obtain ⟨e, he, rfl⟩ := List.mem_map.mp he'
    exact ⟨e, he, (hid e).symm ▸ of_decide_eq_true hne, rfl⟩
  have hto : ∀ e ∈ tui.overlayStack, e.id ≠ entry.id → retarget e ∈ stack := fun e he hne =>
    List.mem_filter.mpr ⟨List.mem_map_of_mem he, by simpa only [hid, decide_eq_true_eq] using hne⟩
  constructor
  · intro e' he'
    obtain ⟨e, he, -, rfl⟩ := hof e' he'
    rw [hid]
    exact hkept.fresh e he
  · intro e' he' other' hother' heq
    obtain ⟨e, he, -, rfl⟩ := hof e' he'
    obtain ⟨other, hother, -, rfl⟩ := hof other' hother'
    rw [hid, hid, hcomponent, hcomponent] at heq
    rw [hkept.unique e he other hother heq]
  · intro e' he' other hother
    obtain ⟨e, he, hne, rfl⟩ := hof e' he'
    rw [hcomponent]
    rcases List.mem_cons.mp hother with rfl | hother
    · exact fun h => hne (congrArg _ (hkept.unique e he other hmem (.inr h)))
    · exact hkept.apart e he other hother
  · rintro c ⟨⟩
  · intro e' he' c hc
    obtain ⟨e, he, hne, rfl⟩ := hof e' he'
    have hoffer : ∀ other ∈ tui.overlayStack, other.id ≠ entry.id → other.id ≠ e.id →
        other.component = c →
        c ∈ named ∨ ∃ other ∈ stack, other.id ≠ (retarget e).id ∧ other.component = c :=
      fun other hother hne hne' h =>
        .inr ⟨retarget other, hto other hother hne, by rwa [hid, hid], (hcomponent other).trans h⟩
    by_cases hback : e.preFocus = some entry.component
    · -- the focus goes on to where the removed overlay gives it back to
      have hpre : entry.preFocus = some c := by
        rw [← hc]
        simp only [hretarget]
        rw [if_pos ⟨hne, hback⟩]
      rcases hkept.preFocus entry hmem c hpre with hnamed | ⟨other, hother, hne', hother'⟩
      · exact .inl hnamed
      · by_cases hself : other.id = e.id
        · obtain rfl := hkept.unique other hother e he (.inl hself)
          exact .inl (hother' ▸ hloop other hother hne hback (hother' ▸ hpre))
        · exact hoffer other hother hne' hself hother'
    · have hpre : e.preFocus = some c := by
        rw [← hc]
        simp only [hretarget]
        rw [if_neg fun h => hback h.2]
      rcases hkept.preFocus e he c hpre with hnamed | ⟨other, hother, hne', rfl⟩
      · exact .inl hnamed
      · refine hoffer other hother (fun h => hback ?_) hne' rfl
        rw [hpre, hkept.unique other hother entry hmem (.inl h)]
  · exact hkept.resumes

theorem Kept.removeOverlay (hkept : Kept ⟨tui, named⟩) (hmem : entry ∈ tui.overlayStack)
    (hloop : Session.Unlooped ⟨tui, named⟩ entry) : Kept ⟨tui.removeOverlay entry, named⟩ := by
  obtain ⟨restore, hframe⟩ : ∃ restore, tui.clearOverlayFocusRestoreFor entry.id =
      { tui with overlayFocusRestore := restore } := by
    unfold TUI.clearOverlayFocusRestoreFor
    split
    · exact ⟨.inactive, rfl⟩
    · exact ⟨tui.overlayFocusRestore, rfl⟩
  have hcleared := hkept.clearFor entry.id
  rw [hframe] at hcleared
  have hsplice := hcleared.splice hmem hloop
  have hin : ∀ {c : Component} {other : OverlayStackEntry Component World}, other ∈ tui.overlayStack →
      other.id ≠ entry.id → other.component = c →
      ∃ e ∈ (tui.retargetOverlayPreFocus entry).overlayStack.filter fun overlay => overlay.id ≠ entry.id,
        e.component = c := by
    intro c other hother hne hcomponent
    refine ⟨_, List.mem_filter.mpr ⟨List.mem_map_of_mem hother, ?_⟩, ?_⟩
    · split <;> simpa using hne
    · split <;> exact hcomponent
  unfold TUI.removeOverlay
  dsimp only
  rw [hframe]
  split
  · refine hsplice.setFocusInternal (Kept.offers_fallback fun _ c hc => ?_) .clear
    rcases hkept.preFocus entry hmem c hc with hnamed | ⟨other, hother, hne, hcomponent⟩
    · exact .inl hnamed
    · exact .inr (hin hother hne hcomponent)
  · rename_i hother
    refine hsplice.refocus fun c hc => ?_
    rcases hkept.focused c hc with hnamed | ⟨e, he, hcomponent⟩
    · exact .inl hnamed
    · refine .inr (hin he (fun h => hother (hc.trans ?_)) hcomponent)
      rw [← hcomponent, hkept.unique e he entry hmem (.inl h)]

theorem Kept.showOverlay (hkept : Kept ⟨tui, named⟩) {component : Component}
    (hdistinct : ∀ entry ∈ tui.overlayStack ++ tui.removed, entry.component ≠ component)
    (options : OverlayOptions World) : Kept ⟨tui.showOverlay component options, named⟩ := by
  set entry : OverlayStackEntry Component World :=
    ⟨tui.focusOrderCounter + 1, component, options, tui.focusedComponent, false,
      tui.focusOrderCounter + 1⟩ with hentry
  have hold : ∀ e ∈ tui.overlayStack, ¬(e.id = entry.id ∨ e.component = entry.component) := by
    rintro e he (h | h)
    · have := hkept.fresh e he
      rw [h] at this
      exact Nat.not_succ_le_self _ this
    · exact hdistinct e (List.mem_append_left _ he) h
  have hgrow : ∀ {c : Component}, (∃ e ∈ tui.overlayStack, e.component = c) →
      ∃ e ∈ tui.overlayStack ++ [entry], e.component = c := fun ⟨e, he, h⟩ =>
    ⟨e, List.mem_append_left _ he, h⟩
  have hshown : Kept ⟨{ tui with
      overlayStack := tui.overlayStack ++ [entry]
      focusOrderCounter := tui.focusOrderCounter + 1 }, named⟩ := by
    constructor
    · intro e he
      rcases List.mem_append.mp he with he | he
      · exact (hkept.fresh e he).trans (Nat.le_succ _)
      · rw [List.mem_singleton.mp he]
    · intro e he other hother heq
      rcases List.mem_append.mp he with he | he <;> rcases List.mem_append.mp hother with hother | hother
      · exact hkept.unique e he other hother heq
      · rw [List.mem_singleton.mp hother] at heq
        exact absurd heq (hold e he)
      · rw [List.mem_singleton.mp he] at heq
        exact absurd (heq.imp Eq.symm Eq.symm) (hold other hother)
      · rw [List.mem_singleton.mp he, List.mem_singleton.mp hother]
    · intro e he other hother
      rcases List.mem_append.mp he with he | he
      · exact hkept.apart e he other hother
      · rw [List.mem_singleton.mp he]
        exact (hdistinct other (List.mem_append_right _ hother)).symm
    · exact fun c hc => (hkept.focused c hc).imp_right hgrow
    · intro e he c hc
      rcases List.mem_append.mp he with he | he
      · rcases hkept.preFocus e he c hc with hnamed | ⟨other, hother, hne, h⟩
        · exact .inl hnamed
        · exact .inr ⟨other, List.mem_append_left _ hother, hne, h⟩
      · obtain rfl := List.mem_singleton.mp he
        rcases hkept.focused c hc with hnamed | ⟨other, hother, h⟩
        · exact .inl hnamed
        · exact .inr ⟨other, List.mem_append_left _ hother, fun hid => hold other hother (.inl hid), h⟩
    · exact hkept.resumes
  unfold TUI.showOverlay
  dsimp only
  split
  · exact hshown.unfocused.setFocusInternal (.overlay (List.mem_append_right _ List.mem_cons_self)) .clear
  · exact hshown

theorem Kept.bringToFront (hkept : Kept ⟨tui, named⟩)
    (hoffers : Session.Offers ⟨tui, named⟩ (some entry.component)) :
    Kept ⟨(tui.bringToFront handle).setFocus (some entry.component), named⟩ := by
  have hfront : Kept ⟨tui.bringToFront handle, named⟩ :=
    hkept.updateEntry handle _ (fun _ => rfl) (fun _ => rfl) (fun _ => rfl) (Nat.le_succ _)
  exact hfront.unfocused.setFocusInternal (hoffers.updateEntry fun _ => rfl) .clear

theorem Kept.focus (hkept : Kept ⟨tui, named⟩) (handle : Nat) : Kept ⟨tui.focus handle, named⟩ := by
  unfold TUI.focus
  split
  · rename_i entry hentry
    exact hkept.bringToFront (.overlay (TUI.visibleEntry_mem hentry).1)
  · exact hkept

theorem Kept.setHidden (hkept : Kept ⟨tui, named⟩) {hidden : Bool}
    (haway : KeepsAway ⟨tui, named⟩ (.setHidden handle hidden)) :
    Kept ⟨tui.setHidden handle hidden, named⟩ := by
  unfold TUI.setHidden
  split
  · exact hkept
  · rename_i entry hentry
    obtain ⟨hid, hmem⟩ := TUI.entryOf_mem hentry
    split
    · exact hkept
    · rename_i hchange
      have hupdated : Kept ⟨tui.updateEntry handle fun entry => { entry with hidden := hidden }, named⟩ :=
        hkept.updateEntry handle _ (fun _ => rfl) (fun _ => rfl) (fun _ => rfl) le_rfl
      split
      · obtain rfl : hidden = true := ‹_›
        have hcleared := hupdated.clearFor handle
        dsimp only
        split
        · rename_i hfocused
          refine hcleared.unfocused.setFocusInternal (Kept.offers_fallback fun htop => ?_) .clear
          rw [TUI.clearFor_topmost] at htop
          rw [TUI.clearFor_focused] at hfocused
          have hoffers : Session.Offers ⟨tui, named⟩ entry.preFocus := by
            rcases hmem with hmem | ⟨hmem, hnone⟩
            · exact hkept.offers_preFocus hmem
            · rw [TUI.updateEntry_topmost hnone] at htop
              exact haway entry hmem hid hchange hfocused htop
          refine Session.Offers.clearFor ?_ handle
          exact hoffers.updateEntry fun _ => rfl
        · exact hcleared
      · obtain rfl : hidden = false := by simpa using ‹¬hidden = true›
        dsimp only
        split
        · rename_i hshown
          simp only [Bool.and_eq_true, Bool.not_eq_true'] at hshown
          refine hupdated.bringToFront ?_
          rcases hmem with hmem | ⟨hmem, -⟩
          · exact (Session.Offers.overlay hmem).updateEntry fun _ => rfl
          · rintro c ⟨⟩
            exact .inl (haway entry hmem hid hchange hshown.1 hshown.2)
        · exact hupdated

theorem Kept.unfocus (hkept : Kept ⟨tui, named⟩) {handle : Nat} {options : Option (Option Component)}
    (haway : KeepsAway ⟨tui, named⟩ (.unfocus handle options)) :
    Kept ⟨tui.unfocus handle options, (@Operation.named _ World (.unfocus handle options)) ++ named⟩ := by
  unfold TUI.unfocus
  split
  · exact hkept.name _
  · rename_i entry hentry
    obtain ⟨hid, hmem⟩ := TUI.entryOf_mem hentry
    dsimp only
    split
    · exact hkept.name _
    · split
      · split
        · rename_i target
          refine hkept.weaken _ fun c hc => List.mem_append_left _ ?_
          obtain ⟨_, h, htarget⟩ := hc
          cases h
          cases htarget
          exact mem_named_unfocus rfl
        · exact hkept.clear.name _
      · have hcleared := hkept.clearFor handle
        split
        · rename_i target
          exact (hcleared.name _).unfocused.setFocusInternal
            (fun c hc => .inl (List.mem_append_left _ (mem_named_unfocus hc))) .clear
        · split
          · rename_i hfocused
            refine (hcleared.unfocused.setFocusInternal ?_ .clear).name _
            refine Session.Offers.clearFor ?_ handle
            unfold TUI.fallbackTarget
            rw [TUI.clearFor_topmost]
            cases htop : tui.getTopmostVisibleOverlay with
            | none =>
              rcases hmem with hmem | ⟨hmem, -⟩
              · exact hkept.offers_preFocus hmem
              · exact haway entry hmem hid hfocused htop
            | some top =>
              have htop := (TUI.topmost_mem htop).1
              dsimp only
              split
              · exact .overlay htop
              · rename_i hself
                rcases hmem with hmem | ⟨-, hnone⟩
                · exact hkept.offers_preFocus hmem
                · exact absurd ((not_not.mp hself).trans hid) (hnone top htop)
          · exact hcleared.name _

/-! ## Keys -/

/-- Setting the focus to what the session shows leaves it on what the session shows. -/
theorem Kept.setFocusInternal_shows (hkept : Kept ⟨tui, named⟩) {component : Option Component}
    (hshows : Session.Shows ⟨tui, named⟩ component) (policy : OverlayFocusRestorePolicy) :
    tui.SameOverlays (tui.setFocusInternal component policy) ∧
      Session.Shows ⟨tui, named⟩ (tui.setFocusInternal component policy).focusedComponent := by
  obtain ⟨hlands, restore, hframe, htargets⟩ := TUI.setFocusInternal_moves component policy
  refine ⟨⟨_, restore, hframe, htargets⟩, ?_⟩
  rcases hlands with h | ⟨overlay, hmem, hvisible, h⟩ | h
  · rw [h]
    exact hshows
  · rw [h]
    exact .overlay hmem hvisible
  · intro c hc
    rw [hc] at h
    exact .inl (hkept.resumes c h)

theorem Kept.leaveInvisible_shows (hkept : Kept ⟨tui, named⟩)
    (haway : KeepsAway ⟨tui, named⟩ (.input device data)) :
    tui.SameOverlays tui.leaveInvisible ∧
      Session.Shows ⟨tui, named⟩ tui.leaveInvisible.focusedComponent := by
  have hsame := TUI.SameOverlays.refl tui
  unfold TUI.leaveInvisible
  cases hfocused : tui.focusedComponent with
  | none => exact ⟨hsame, fun c hc => by simp [hfocused] at hc⟩
  | some focused =>
    cases hoverlay : tui.overlayOf focused with
    | none =>
      simp only [Option.bind_some, hoverlay]
      refine ⟨hsame, fun c hc => ?_⟩
      rcases hkept.focused c hc with hnamed | ⟨e, he, hcomponent⟩
      · exact .inl hnamed
      · obtain rfl : focused = c := Option.some.inj (hfocused.symm.trans hc)
        exact absurd hcomponent (TUI.overlayOf_eq_none.mp hoverlay e he)
    | some overlay =>
      obtain ⟨hmem, rfl⟩ := TUI.overlayOf_mem hoverlay
      simp only [Option.bind_some, hoverlay]
      split
      · rename_i hvisible
        rw [hfocused]
        exact ⟨hsame, .overlay hmem hvisible⟩
      · rename_i hvisible
        split
        · rename_i top htop
          obtain ⟨htop, hvisible⟩ := TUI.topmost_mem htop
          exact hkept.setFocusInternal_shows (.overlay htop hvisible) .clear
        · rename_i htop
          refine hkept.setFocusInternal_shows (fun c hc => ?_) .preserve
          rcases hkept.preFocus overlay hmem c hc with hnamed | ⟨under, hunder, -, rfl⟩
          · exact .inl hnamed
          · rcases haway overlay hmem hfocused (by simpa using hvisible) htop under hunder hc with h | h
            · exact .inr ⟨under, hunder, h, rfl⟩
            · exact .inl h

theorem Kept.restoreFocus_shows (hkept : Kept ⟨tui, named⟩)
    (hshows : Session.Shows ⟨tui, named⟩ tui.focusedComponent) :
    tui.SameOverlays tui.restoreFocus ∧
      Session.Shows ⟨tui, named⟩ tui.restoreFocus.focusedComponent := by
  have hsame := TUI.SameOverlays.refl tui
  unfold TUI.restoreFocus
  split
  · exact ⟨hsame, hshows⟩
  · split
    · exact ⟨hsame, hshows⟩
    · rename_i overlay hrestore
      obtain ⟨hmem, hvisible⟩ := TUI.visibleRestore_eligible hrestore
      exact hkept.setFocusInternal_shows (.overlay hmem hvisible) .clear
    · rename_i state hrestore
      obtain ⟨hmem, hvisible, hstored⟩ := TUI.visibleRestore_blocked hrestore
      split
      · exact ⟨hsame, hshows⟩
      · split
        · exact hkept.setFocusInternal_shows (.overlay hmem hvisible) .clear
        · rename_i target hresume
          obtain ⟨h, h'⟩ := @Kept.setFocusInternal_shows _ _ _ _ _ hkept.clear target
            (fun c hc => .inl (hkept.resumes c ⟨_, hstored, hc ▸ hresume⟩)) .clear
          exact ⟨(TUI.SameOverlays.clear tui).trans h, h'⟩

theorem Kept.settled (hkept : Kept ⟨tui, named⟩)
    (haway : KeepsAway ⟨tui, named⟩ (.input device data)) :
    tui.SameOverlays tui.leaveInvisible.restoreFocus ∧
      Session.Shows ⟨tui, named⟩ tui.leaveInvisible.restoreFocus.focusedComponent := by
  obtain ⟨hsame, hshows⟩ := hkept.leaveInvisible_shows haway
  obtain ⟨hsame', hshows'⟩ :=
    (hkept.settle hsame hshows).restoreFocus_shows ((Session.Shows.same hsame).mpr hshows)
  exact ⟨hsame.trans hsame', (Session.Shows.same hsame).mp hshows'⟩

theorem TUI.handleInput_fst (tui : TUI Component World) (device : Device Component) (data : List Char) :
    (tui.handleInput device data).1 = tui ∨
      (tui.handleInput device data).1 = tui.leaveInvisible.restoreFocus := by
  unfold TUI.handleInput
  split
  · exact .inl rfl
  · split_ifs
    · exact .inl rfl
    · exact .inl rfl
    · exact .inl rfl
    · dsimp only
      split
      · split <;> exact .inr rfl
      · exact .inr rfl

/-- A key that is given to a component is given to the one on which the focus has settled. -/
theorem TUI.handleInput_snd {tui : TUI Component World} {text : List Char} {c : Component}
    (h : (tui.handleInput device data).2 = some (c, text)) :
    (tui.handleInput device data).1 = tui.leaveInvisible.restoreFocus ∧
      tui.leaveInvisible.restoreFocus.focusedComponent = some c := by
  unfold TUI.handleInput at h ⊢
  split at h
  · cases h
  · split_ifs at h with h₁ h₂ h₃
    dsimp only at h
    split at h
    · rename_i component hfocused
      split at h
      · cases h
      · rename_i hrelease
        cases h
        rw [if_neg h₁, if_neg h₂, if_neg h₃]
        simp only [hfocused]
        rw [if_neg hrelease]
        exact ⟨rfl, trivial⟩
    · cases h

/-! ## Runs -/

theorem Kept.step {session session' : Session Component World} (hkept : Kept session)
    {operation : Operation Component World}
    (hallowed : Distinct session operation ∧ KeepsAway session operation)
    (hstep : session.step operation = some session') : Kept session' := by
  obtain ⟨tui, named⟩ := session
  obtain ⟨hdistinct, haway⟩ := hallowed
  obtain rfl := Option.some.inj hstep
  cases operation with
  | setFocus component =>
    refine (hkept.name _).unfocused.setFocusInternal (fun c hc => .inl (List.mem_append_left _ ?_)) .clear
    subst hc
    exact List.mem_singleton_self c
  | showOverlay component options => exact hkept.showOverlay hdistinct options
  | hide handle =>
    show Kept ⟨tui.hide handle, named⟩
    unfold TUI.hide
    split
    · rename_i entry hentry
      have hmem := List.mem_of_find?_eq_some hentry
      exact hkept.removeOverlay hmem (haway entry hmem (by simpa using List.find?_some hentry))
    · exact hkept
  | setHidden handle hidden => exact hkept.setHidden haway
  | focus handle => exact hkept.focus handle
  | unfocus handle options => exact hkept.unfocus haway
  | hideOverlay =>
    show Kept ⟨tui.hideOverlay, named⟩
    unfold TUI.hideOverlay
    split
    · rename_i entry hentry
      exact hkept.removeOverlay (List.mem_of_getLast? hentry) (haway entry hentry)
    · exact hkept
  | surround columns rows world children => exact ⟨hkept.1, hkept.2, hkept.3, hkept.4, hkept.5, hkept.6⟩
  | input device data =>
    show Kept ⟨(tui.handleInput device data).1, named⟩
    rcases TUI.handleInput_fst tui device data with h | h
    · rw [h]
      exact hkept
    · rw [h]
      obtain ⟨hsame, hshows⟩ := hkept.settled haway
      exact hkept.settle hsame hshows

/-- In a run that keeps the focus away from hidden and removed overlays, no key is given to the component
of one unless the caller has set the focus to it. -/
theorem handleInput_keepsAway {columns rows : Nat} {world : World} {children : List (Node Component)}
    {operations : List (Operation Component World)} {session : Session Component World}
    (hallowed : Keeps Session.step (fun session operation => Distinct session operation ∧
      KeepsAway session operation) (.start columns rows world children) operations)
    (hrun : run Session.step (.start columns rows world children) operations = some session)
    {device : Device Component} {data : List Char} (haway : KeepsAway session (.input device data))
    {c : Component} {text : List Char} (hinput : (session.tui.handleInput device data).2 = some (c, text)) :
    ¬(session.tui.handleInput device data).1.IsAway c ∨ c ∈ session.named := by
  have hkept : Kept session :=
    run_keeps (fun _ _ _ hkept hallowed hstep => hkept.step hallowed hstep)
      (Kept.start columns rows world children) hallowed hrun
  obtain ⟨tui, named⟩ := session
  obtain ⟨hsettled, hfocused⟩ := TUI.handleInput_snd hinput
  obtain ⟨hsame, hshows⟩ := hkept.settled haway
  rcases hshows c hfocused with hnamed | ⟨entry, hmem, hvisible, hcomponent⟩
  · exact .inr hnamed
  · refine .inl ?_
    rw [hsettled]
    obtain ⟨focused, restore, hframe, -⟩ := hsame
    rw [hframe]
    rintro (⟨other, hother, hother', hhidden⟩ | ⟨other, hother, hother'⟩)
    · obtain rfl := hkept.unique entry hmem other hother (.inr (hcomponent.trans hother'.symm))
      exact Bool.false_ne_true (hhidden.symm.trans hvisible)
    · exact hkept.apart entry hmem other hother (hcomponent.trans hother'.symm)

/-- Three overlays that capture the focus are shown one over the other. -/
def threeShown : List (Operation Nat Unit) :=
  [.showOverlay 0 ⟨none, false⟩, .showOverlay 1 ⟨none, false⟩, .showOverlay 2 ⟨none, false⟩]

theorem Session.keeps_cons {Allowed : Session Component World → Operation Component World → Prop}
    {session : Session Component World} {operation : Operation Component World}
    {operations : List (Operation Component World)} :
    Keeps Session.step Allowed session (operation :: operations) ↔
      Allowed session operation ∧ Keeps Session.step Allowed
        ⟨session.tui.apply operation, operation.named ++ session.named⟩ operations := by
  simp [Keeps, Session.step]

def keyboard : Device Nat := ⟨[], false, fun _ => false, fun _ => true, fun _ => false⟩

/-- A run that hides the topmost of three overlays: the key goes to the one below it. -/
theorem handleInput_keepsAway_hide :
    ∃ session, run Session.step (.start 80 24 () []) (threeShown ++ [.setHidden 3 true]) = some session ∧
      (session.tui.handleInput keyboard ['x']).2 = some (1, ['x']) ∧
      (¬(session.tui.handleInput keyboard ['x']).1.IsAway 1 ∨ 1 ∈ session.named) := by
  refine ⟨_, rfl, rfl, @handleInput_keepsAway _ _ _ 80 24 () [] (threeShown ++ [.setHidden 3 true]) _ ?_ rfl _ _ ?_
    _ _ rfl⟩
  · refine Session.keeps_cons.mpr ⟨⟨by decide, trivial⟩, Session.keeps_cons.mpr ⟨⟨by decide, trivial⟩,
      Session.keeps_cons.mpr ⟨⟨by decide, trivial⟩, Session.keeps_cons.mpr ⟨⟨trivial, ?_⟩, trivial⟩⟩⟩⟩
    rintro e ⟨⟩
  · -- the focus is on an overlay that is visible
    intro entry hmem hfocused hvisible
    exfalso
    revert entry
    decide

/-- Three overlays are hidden from the bottom up: the key goes to the first, which the focus was never set
to. -/
theorem handleInput_hidden :
    ∃ session, Keeps Session.step Distinct (.start 80 24 () [])
        (threeShown ++ [.setHidden 1 true, .setHidden 2 true, .setHidden 3 true]) ∧
      run Session.step (.start 80 24 () [])
        (threeShown ++ [.setHidden 1 true, .setHidden 2 true, .setHidden 3 true]) = some session ∧
      (session.tui.handleInput keyboard ['x']).2 = some (0, ['x']) ∧
      (session.tui.handleInput keyboard ['x']).1.IsAway 0 ∧ 0 ∉ session.named := by
  refine ⟨_, ?_, rfl, rfl, ?_, ?_⟩
  · exact Session.keeps_cons.mpr ⟨by decide, Session.keeps_cons.mpr ⟨by decide, Session.keeps_cons.mpr
      ⟨by decide, Session.keeps_cons.mpr ⟨trivial, Session.keeps_cons.mpr ⟨trivial,
      Session.keeps_cons.mpr ⟨trivial, trivial⟩⟩⟩⟩⟩⟩
  · exact .inl ⟨_, List.mem_cons_self, rfl, rfl⟩
  · decide

end Tui.Overlay
