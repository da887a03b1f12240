import OmkVerified.Lib.Interruptible
import OmkVerified.Tui.Render

/-!
# The focus of the overlays

The stack of overlays of the terminal interface, the component that has the focus, the overlay to which the
focus is to return, and the component to which a key goes.
-/

namespace Tui.Overlay

variable {Component World : Type} [DecidableEq Component]

/-! ## Components and overlays -/

/-- A component of the tree, or a container with its children. -/
inductive Node (Component : Type)
  | component (component : Component)
  | container (component : Component) (children : List (Node Component))

mutual

/-- The component is the root or below it. -/
def containsComponent (target : Component) : Node Component → Bool
  | .component root => root = target
  | .container root children => root = target || anyContains target children

/-- The component is one of the nodes or below one. -/
def anyContains (target : Component) : List (Node Component) → Bool
  | [] => false
  | child :: children => containsComponent target child || anyContains target children

end

/-- The callback `visible` is asked with the columns and the rows of the terminal, and reads what it likes
of the application. -/
structure OverlayOptions (World : Type) where
  visible : Option (World → Nat → Nat → Bool)
  nonCapturing : Bool

/-- `id` is the focus order with which the overlay was shown: it tells the entries apart, as their
identity does in the source. -/
structure OverlayStackEntry (Component World : Type) where
  id : Nat
  component : Component
  options : OverlayOptions World
  preFocus : Option Component
  hidden : Bool
  focusOrder : Nat

inductive OverlayBlockedFocusResume (Component : Type)
  | restoreOverlay
  | focusTarget (target : Option Component)
  deriving DecidableEq

structure BlockedOverlayFocusRestore (Overlay Component : Type) where
  overlay : Overlay
  blockedBy : Component
  resume : OverlayBlockedFocusResume Component

inductive OverlayFocusRestoreState (Overlay Component : Type)
  | inactive
  | eligible (overlay : Overlay)
  | blocked (state : BlockedOverlayFocusRestore Overlay Component)

/-- `restoreState.overlay`, where there is one. -/
def OverlayFocusRestoreState.overlay? {Overlay : Type} :
    OverlayFocusRestoreState Overlay Component → Option Overlay
  | .inactive => none
  | .eligible overlay => some overlay
  | .blocked state => some state.overlay

/-- The blocked state, if it is blocked by the component that has the focus. -/
def OverlayFocusRestoreState.blockedAt {Overlay : Type} (previousFocus : Option Component) :
    OverlayFocusRestoreState Overlay Component → Option (BlockedOverlayFocusRestore Overlay Component)
  | .blocked state => if previousFocus = some state.blockedBy then some state else none
  | .inactive | .eligible _ => none

inductive OverlayFocusRestorePolicy
  | clear
  | preserve
  deriving DecidableEq

/-- What `TUI` keeps for its overlays. `removed` are the entries that left the stack and are still held by
their handles; `world` is what the callbacks of the overlays read of the application. -/
structure TUI (Component World : Type) where
  focusedComponent : Option Component
  overlayStack : List (OverlayStackEntry Component World)
  removed : List (OverlayStackEntry Component World)
  overlayFocusRestore : OverlayFocusRestoreState Nat Component
  focusOrderCounter : Nat
  columns : Nat
  rows : Nat
  world : World
  children : List (Node Component)

namespace TUI

variable (tui : TUI Component World)

def isComponentMounted (component : Component) : Bool := anyContains component tui.children

def isOverlayVisible (entry : OverlayStackEntry Component World) : Bool :=
  !entry.hidden &&
    match entry.options.visible with
    | some visible => visible tui.world tui.columns tui.rows
    | none => true

/-- The body of the loop of `getTopmostVisibleOverlay`. -/
def frontmost (topmost : Option (OverlayStackEntry Component World))
    (overlay : OverlayStackEntry Component World) : Option (OverlayStackEntry Component World) :=
  if overlay.options.nonCapturing || !tui.isOverlayVisible overlay then topmost
  else
    match topmost with
    | none => some overlay
    | some top => if top.focusOrder < overlay.focusOrder then some overlay else some top

def getTopmostVisibleOverlay : Option (OverlayStackEntry Component World) :=
  tui.overlayStack.foldl tui.frontmost none

/-- The first overlay of the stack with the component. -/
def overlayOf (component : Component) : Option (OverlayStackEntry Component World) :=
  tui.overlayStack.find? fun entry => entry.component = component

/-- The first visible overlay of the stack with the component. -/
def visibleOverlayOf (component : Component) : Option (OverlayStackEntry Component World) :=
  tui.overlayStack.find? fun entry => entry.component = component && tui.isOverlayVisible entry

def clearOverlayFocusRestore : TUI Component World := { tui with overlayFocusRestore := .inactive }

def clearOverlayFocusRestoreFor (overlay : Nat) : TUI Component World :=
  if tui.overlayFocusRestore.overlay? = some overlay then tui.clearOverlayFocusRestore else tui

def resolveBlockedOverlayFocusResume
    (state : BlockedOverlayFocusRestore (OverlayStackEntry Component World) Component) :
    TUI Component World × Option Component :=
  match state.resume with
  | .restoreOverlay => (tui, some state.overlay.component)
  | .focusTarget target => (tui.clearOverlayFocusRestore, target)

/-- The entry in the stack, if it is visible. -/
def visibleEntry (overlay : Nat) : Option (OverlayStackEntry Component World) :=
  (tui.overlayStack.find? fun entry => entry.id = overlay).filter tui.isOverlayVisible

def getVisibleOverlayFocusRestore :
    OverlayFocusRestoreState (OverlayStackEntry Component World) Component :=
  match tui.overlayFocusRestore with
  | .inactive => .inactive
  | .eligible overlay =>
    match tui.visibleEntry overlay with
    | some entry => .eligible entry
    | none => .inactive
  | .blocked state =>
    match tui.visibleEntry state.overlay with
    | some entry => .blocked ⟨entry, state.blockedBy, state.resume⟩
    | none => .inactive

/-- The loop of `isOverlayFocusAncestor`. Every component it goes on from is that of an overlay and is met
once, so there are at most one more turns than overlays. -/
def focusAncestor (component : Component) : Nat → List Component → Option Component → Bool
  | 0, _, _ | _, _, none => false
  | fuel + 1, visited, some current =>
    if current ∈ visited then false
    else if current = component then true
    else focusAncestor component fuel (current :: visited)
      ((tui.overlayOf current).bind OverlayStackEntry.preFocus)

def isOverlayFocusAncestor (entry : OverlayStackEntry Component World) (component : Component) : Bool :=
  tui.focusAncestor component (tui.overlayStack.length + 1) [] entry.preFocus

def retargetOverlayPreFocus (removed : OverlayStackEntry Component World) : TUI Component World :=
  { tui with
    overlayStack := tui.overlayStack.map fun overlay =>
      if overlay.id ≠ removed.id ∧ overlay.preFocus = some removed.component then
        { overlay with preFocus := removed.preFocus }
      else overlay }

/-! ## Setting the focus -/

/-- The first half of `setFocusInternal`: the component that gets the focus in place of the one asked for. -/
def resolveFocus (component : Option Component) (overlayFocusRestore : OverlayFocusRestorePolicy) :
    TUI Component World × Option Component :=
  let previousFocus := tui.focusedComponent
  let restoreState := tui.getVisibleOverlayFocusRestore
  match component with
  | some next =>
    if tui.overlayStack.any fun entry => entry.component = next then (tui, some next)
    else
      match restoreState.blockedAt previousFocus with
      | some state =>
        if state.resume ≠ .restoreOverlay ∨ !tui.isComponentMounted state.blockedBy then
          tui.resolveBlockedOverlayFocusResume state
        else
          ({ tui with overlayFocusRestore := .blocked ⟨state.overlay.id, next, state.resume⟩ }, some next)
      | none =>
        match previousFocus.bind tui.visibleOverlayOf with
        | some overlay =>
          if (restoreState.overlay?.map OverlayStackEntry.id) = some overlay.id ∧
              !tui.isOverlayFocusAncestor overlay next then
            ({ tui with overlayFocusRestore := .blocked ⟨overlay.id, next, .restoreOverlay⟩ }, some next)
          else (tui, some next)
        | none => (tui, some next)
  | none =>
    match restoreState.blockedAt previousFocus with
    | some state => tui.resolveBlockedOverlayFocusResume state
    | none =>
      if overlayFocusRestore = .clear then (tui.clearOverlayFocusRestore, none) else (tui, none)

/-- The second half of `setFocusInternal`: the component has the focus from now on. -/
def takeFocus (nextFocus : Option Component) : TUI Component World :=
  match nextFocus.bind tui.visibleOverlayOf with
  | some overlay =>
    { tui with focusedComponent := nextFocus, overlayFocusRestore := .eligible overlay.id }
  | none => { tui with focusedComponent := nextFocus }

def setFocusInternal (component : Option Component) (overlayFocusRestore : OverlayFocusRestorePolicy) :
    TUI Component World :=
  let (tui, nextFocus) := tui.resolveFocus component overlayFocusRestore
  tui.takeFocus nextFocus

def setFocus (component : Option Component) : TUI Component World := tui.setFocusInternal component .clear

/-- `topVisible?.component ?? preFocus`. -/
def fallbackFocus (preFocus : Option Component) : Option Component :=
  match tui.getTopmostVisibleOverlay with
  | some topVisible => some topVisible.component
  | none => preFocus

/-! ## Overlays and their handles -/

def showOverlay (component : Component) (options : OverlayOptions World) : TUI Component World :=
  let entry : OverlayStackEntry Component World :=
    ⟨tui.focusOrderCounter + 1, component, options, tui.focusedComponent, false, tui.focusOrderCounter + 1⟩
  let shown : TUI Component World :=
    { tui with
      overlayStack := tui.overlayStack ++ [entry]
      focusOrderCounter := tui.focusOrderCounter + 1 }
  if !options.nonCapturing && shown.isOverlayVisible entry then shown.setFocus (some component) else shown

/-- What `hide` and `hideOverlay` do with an entry of the stack. -/
def removeOverlay (entry : OverlayStackEntry Component World) : TUI Component World :=
  let retargeted := (tui.clearOverlayFocusRestoreFor entry.id).retargetOverlayPreFocus entry
  let spliced : TUI Component World :=
    { retargeted with
      overlayStack := retargeted.overlayStack.filter fun overlay => overlay.id ≠ entry.id
      removed := entry :: retargeted.removed }
  if spliced.focusedComponent = some entry.component then
    spliced.setFocus (spliced.fallbackFocus entry.preFocus)
  else spliced

def hide (handle : Nat) : TUI Component World :=
  match tui.overlayStack.find? fun entry => entry.id = handle with
  | some entry => tui.removeOverlay entry
  | none => tui

def hideOverlay : TUI Component World :=
  match tui.overlayStack.getLast? with
  | some overlay => tui.removeOverlay overlay
  | none => tui

/-- The entry that a handle holds, in the stack or removed from it. -/
def entryOf (handle : Nat) : Option (OverlayStackEntry Component World) :=
  (tui.overlayStack ++ tui.removed).find? fun entry => entry.id = handle

/-- A field of the entry is written. -/
def updateEntry (handle : Nat)
    (f : OverlayStackEntry Component World → OverlayStackEntry Component World) : TUI Component World :=
  { tui with
    overlayStack := tui.overlayStack.map fun entry => if entry.id = handle then f entry else entry
    removed := tui.removed.map fun entry => if entry.id = handle then f entry else entry }

/-- `entry.focusOrder = ++this.focusOrderCounter`. -/
def bringToFront (handle : Nat) : TUI Component World :=
  { tui.updateEntry handle (fun entry => { entry with focusOrder := tui.focusOrderCounter + 1 }) with
    focusOrderCounter := tui.focusOrderCounter + 1 }

def setHidden (handle : Nat) (hidden : Bool) : TUI Component World :=
  match tui.entryOf handle with
  | none => tui
  | some entry =>
    if entry.hidden = hidden then tui
    else
      let updated := tui.updateEntry handle fun entry => { entry with hidden := hidden }
      if hidden then
        let cleared := updated.clearOverlayFocusRestoreFor handle
        if cleared.focusedComponent = some entry.component then
          cleared.setFocus (cleared.fallbackFocus entry.preFocus)
        else cleared
      else if !entry.options.nonCapturing && updated.isOverlayVisible { entry with hidden := hidden } then
        (updated.bringToFront handle).setFocus (some entry.component)
      else updated

def focus (handle : Nat) : TUI Component World :=
  match tui.visibleEntry handle with
  | some entry => (tui.bringToFront handle).setFocus (some entry.component)
  | none => tui

/-- Where `unfocus` goes without a target. -/
def fallbackTarget (entry : OverlayStackEntry Component World) : Option Component :=
  match tui.getTopmostVisibleOverlay with
  | some topVisible => if topVisible.id ≠ entry.id then some topVisible.component else entry.preFocus
  | none => entry.preFocus

/-- `unfocusOptions` is the target of the call, if it has one. -/
def unfocus (handle : Nat) (unfocusOptions : Option (Option Component)) : TUI Component World :=
  match tui.entryOf handle with
  | none => tui
  | some entry =>
    let isFocused := tui.focusedComponent = some entry.component
    if ¬isFocused ∧ tui.overlayFocusRestore.overlay? ≠ some handle then tui
    else
      match (tui.overlayFocusRestore.blockedAt tui.focusedComponent).filter
        (fun state => state.overlay = handle) with
      | some state =>
        match unfocusOptions with
        | some target =>
          { tui with overlayFocusRestore := .blocked ⟨handle, state.blockedBy, .focusTarget target⟩ }
        | none => tui.clearOverlayFocusRestore
      | none =>
        let cleared := tui.clearOverlayFocusRestoreFor handle
        match unfocusOptions with
        | some target => cleared.setFocus target
        | none => if isFocused then cleared.setFocus (cleared.fallbackTarget entry) else cleared

end TUI

/-! ## Keys -/

structure InputListenerResult where
  consume : Bool
  data : Option (List Char)

/-- What `handleInput` asks of its listeners, of the keyboard and of the components. -/
structure Device (Component : Type) where
  inputListeners : List (List Char → Option InputListenerResult)
  onDebug : Bool
  isDebugKey : List Char → Bool
  handlesInput : Component → Bool
  wantsKeyRelease : Component → Bool

/-- The loop over the listeners; `none` where one of them consumes the input. -/
def listen : List (List Char → Option InputListenerResult) → List Char → Option (List Char)
  | [], current => some current
  | listener :: listeners, current =>
    match listener current with
    | some ⟨true, _⟩ => none
    | some ⟨false, some data⟩ => listen listeners data
    | some ⟨false, none⟩ | none => listen listeners current

/-- `/^\x1b\[6;(\d+);(\d+)t$/`. -/
def isCellSizeResponse (data : List Char) : Bool :=
  match "\x1b[6;".toList.isPrefixOf data, data.drop 4 with
  | true, text =>
    let height := text.takeWhile Char.isDigit
    match text.drop height.length with
    | ';' :: text =>
      let width := text.takeWhile Char.isDigit
      height ≠ [] && width ≠ [] && text.drop width.length = ['t']
    | _ => false
  | false, _ => false

/-- `keys.ts`: a pasted text is no release. -/
def isKeyRelease (data : List Char) : Bool :=
  !includes data "\x1b[200~".toList &&
    [":3u", ":3~", ":3A", ":3B", ":3C", ":3D", ":3H", ":3F"].any fun mark => includes data mark.toList

namespace TUI

variable (tui : TUI Component World)

/-- An overlay that has the focus and is not visible gives it up. -/
def leaveInvisible : TUI Component World :=
  match tui.focusedComponent.bind tui.overlayOf with
  | some focusedOverlay =>
    if tui.isOverlayVisible focusedOverlay then tui
    else
      match tui.getTopmostVisibleOverlay with
      | some topVisible => tui.setFocus (some topVisible.component)
      | none => tui.setFocusInternal focusedOverlay.preFocus .preserve
  | none => tui

/-- The focus goes back to the overlay that is to have it. -/
def restoreFocus : TUI Component World :=
  if (tui.focusedComponent.bind tui.overlayOf).isSome then tui
  else
    match tui.getVisibleOverlayFocusRestore with
    | .inactive => tui
    | .eligible overlay => tui.setFocus (some overlay.component)
    | .blocked state =>
      if tui.focusedComponent = some state.blockedBy then tui
      else
        match state.resume with
        | .restoreOverlay => tui.setFocus (some state.overlay.component)
        | .focusTarget target => tui.clearOverlayFocusRestore.setFocus target

/-- `handleInput`, with the component that the input is given to and what it is given. -/
def handleInput (device : Device Component) (data : List Char) :
    TUI Component World × Option (Component × List Char) :=
  match listen device.inputListeners data with
  | none => (tui, none)
  | some data =>
    if device.inputListeners ≠ [] ∧ data = [] then (tui, none)
    else if isCellSizeResponse data then (tui, none)
    else if device.isDebugKey data && device.onDebug then (tui, none)
    else
      let settled := tui.leaveInvisible.restoreFocus
      match settled.focusedComponent with
      | some component =>
        if !device.handlesInput component || (isKeyRelease data && !device.wantsKeyRelease component) then
          (settled, none)
        else (settled, some (component, data))
      | none => (settled, none)

end TUI

/-! ## Runs -/

/-- What the application does with the interface; a handle is the `id` of its entry. `surround` is a
change of the terminal's size, of the component tree or of what the overlays' callbacks read. -/
inductive Operation (Component World : Type)
  | setFocus (component : Option Component)
  | showOverlay (component : Component) (options : OverlayOptions World)
  | hide (handle : Nat)
  | setHidden (handle : Nat) (hidden : Bool)
  | focus (handle : Nat)
  | unfocus (handle : Nat) (options : Option (Option Component))
  | hideOverlay
  | surround (columns rows : Nat) (world : World) (children : List (Node Component))
  | input (device : Device Component) (data : List Char)

def TUI.apply (tui : TUI Component World) : Operation Component World → TUI Component World
  | .setFocus component => tui.setFocus component
  | .showOverlay component options => tui.showOverlay component options
  | .hide handle => tui.hide handle
  | .setHidden handle hidden => tui.setHidden handle hidden
  | .focus handle => tui.focus handle
  | .unfocus handle options => tui.unfocus handle options
  | .hideOverlay => tui.hideOverlay
  | .surround columns rows world children =>
    { tui with columns := columns, rows := rows, world := world, children := children }
  | .input device data => (tui.handleInput device data).1

/-- The component that the caller itself sets the focus to. -/
def Operation.named : Operation Component World → List Component
  | .setFocus (some component) | .unfocus _ (some (some component)) => [component]
  | _ => []

/-- The interface, with the components that the caller has set the focus to itself. -/
structure Session (Component World : Type) where
  tui : TUI Component World
  named : List Component

def Session.step (session : Session Component World) (operation : Operation Component World) :
    Option (Session Component World) :=
  some ⟨session.tui.apply operation, operation.named ++ session.named⟩

/-- No overlay and no focus. -/
def Session.start (columns rows : Nat) (world : World) (children : List (Node Component)) :
    Session Component World :=
  ⟨⟨none, [], [], .inactive, 0, columns, rows, world, children⟩, []⟩

/-- The component is that of an overlay that is hidden or has been removed. -/
def TUI.IsAway (tui : TUI Component World) (component : Component) : Prop :=
  (∃ entry ∈ tui.overlayStack, entry.component = component ∧ tui.isOverlayVisible entry = false) ∨
    ∃ entry ∈ tui.removed, entry.component = component

/-- Every overlay that is shown has a component of its own. -/
def Distinct (session : Session Component World) : Operation Component World → Prop
  | .showOverlay component _ =>
    ∀ entry ∈ session.tui.overlayStack ++ session.tui.removed, entry.component ≠ component
  | _ => True

instance (session : Session Component World) (operation : Operation Component World) :
    Decidable (Distinct session operation) :=
  match operation with
  | .showOverlay component _ =>
    inferInstanceAs (Decidable (∀ entry ∈ session.tui.overlayStack ++ session.tui.removed,
      entry.component ≠ component))
  | .setFocus _ | .hide _ | .setHidden _ _ | .focus _ | .unfocus _ _ | .hideOverlay | .surround _ _ _ _
  | .input _ _ => .isTrue trivial

/-- The component is in the stack or the caller has set the focus to it. -/
def Session.Offers (session : Session Component World) (component : Option Component) : Prop :=
  ∀ c, component = some c →
    c ∈ session.named ∨ ∃ entry ∈ session.tui.overlayStack, entry.component = c

/-- No overlay that gives the focus back to the one removed is where that one gives it back to. -/
def Session.Unlooped (session : Session Component World) (removed : OverlayStackEntry Component World) :
    Prop :=
  ∀ entry ∈ session.tui.overlayStack, entry.id ≠ removed.id → entry.preFocus = some removed.component →
    removed.preFocus = some entry.component → entry.component ∈ session.named

/-- The steps that keep the focus away from hidden and removed overlays. A key does not find the focus on
an invisible overlay that was shown over another invisible one while no overlay is left to go to; no removal
makes an overlay give the focus back to itself; and no handle of a removed overlay moves the focus to a
removed overlay. -/
def KeepsAway (session : Session Component World) : Operation Component World → Prop
  | .input _ _ =>
    ∀ entry ∈ session.tui.overlayStack, session.tui.focusedComponent = some entry.component →
      session.tui.isOverlayVisible entry = false → session.tui.getTopmostVisibleOverlay = none →
      ∀ under ∈ session.tui.overlayStack, entry.preFocus = some under.component →
        session.tui.isOverlayVisible under = true ∨ under.component ∈ session.named
  | .hide handle =>
    ∀ entry ∈ session.tui.overlayStack, entry.id = handle → session.Unlooped entry
  | .hideOverlay => ∀ entry ∈ session.tui.overlayStack.getLast?, session.Unlooped entry
  | .setHidden handle hidden =>
    ∀ entry ∈ session.tui.removed, entry.id = handle → entry.hidden ≠ hidden →
      if hidden then
        session.tui.focusedComponent = some entry.component →
          session.tui.getTopmostVisibleOverlay = none → session.Offers entry.preFocus
      else
        entry.options.nonCapturing = false →
          session.tui.isOverlayVisible { entry with hidden := false } = true →
          entry.component ∈ session.named
  | .unfocus handle none =>
    ∀ entry ∈ session.tui.removed, entry.id = handle →
      session.tui.focusedComponent = some entry.component →
      session.tui.getTopmostVisibleOverlay = none → session.Offers entry.preFocus
  | _ => True

end Tui.Overlay
