import OmkVerified.Tui.PasteMarkers
import OmkVerified.Tui.Render

/-!
# Word wrapping

`wordWrapLine` of `packages/tui/src/components/editor.ts`: a line cut into segments is wrapped at word
boundaries where possible. A segment wider than the width that consists of several graphemes, such as a paste
marker, is wrapped by itself.
-/

namespace Tui.Components

open StdinBuffer

structure TextChunk where
  text : Text
  startIndex : Nat
  endIndex : Nat
deriving DecidableEq

/-- The measure of texts and the grapheme segmenter. -/
structure TextEnv where
  visibleWidth : Text → Nat
  graphemes : Segmenter

/-- White space at which a line may be wrapped. -/
def isBreakable (seg : Segment) : Bool := !isPasteMarker seg.segment && isWhitespaceChar seg.segment

/-- The chunks so far and the chunk that is being filled. -/
structure WrapState where
  chunks : List TextChunk
  currentWidth : Nat
  chunkStart : Nat
  /-- `wrapOppIndex` and `wrapOppWidth`. -/
  wrapOpp : Option (Nat × Nat)

/-- `line.slice(startIndex, endIndex)`. -/
def slice (line : Text) (startIndex endIndex : Nat) : Text := (line.take endIndex).drop startIndex

namespace WrapState

/-- `chunks.push` of the line from the start of the chunk; the next chunk starts there. -/
def pushChunk (state : WrapState) (line : Text) (endIndex currentWidth : Nat) : WrapState where
  chunks := state.chunks ++ [⟨slice line state.chunkStart endIndex, state.chunkStart, endIndex⟩]
  currentWidth := currentWidth
  chunkStart := endIndex
  wrapOpp := none

/-- The overflow check before a segment of width `gWidth` at `charIndex` is taken in. -/
def overflow (state : WrapState) (line : Text) (maxWidth gWidth charIndex : Nat) : WrapState :=
  if state.currentWidth + gWidth > maxWidth then
    match state.wrapOpp with
    | some (wrapOppIndex, wrapOppWidth) =>
      if state.currentWidth - wrapOppWidth + gWidth ≤ maxWidth then
        state.pushChunk line wrapOppIndex (state.currentWidth - wrapOppWidth)
      else if state.chunkStart < charIndex then state.pushChunk line charIndex 0
      else { state with wrapOpp := none }
    | none =>
      if state.chunkStart < charIndex then state.pushChunk line charIndex 0 else { state with wrapOpp := none }
  else state

/-- The segment is taken into the chunk, and a wrap opportunity before `next` is recorded. -/
def advance (state : WrapState) (seg : Segment) (gWidth : Nat) (next : Option Segment) : WrapState :=
  let state := { state with currentWidth := state.currentWidth + gWidth }
  match next with
  | some next =>
    if isBreakable seg ∧ (isPasteMarker next.segment ∨ ¬ isWhitespaceChar next.segment) then
      { state with wrapOpp := some (next.index, state.currentWidth) }
    else state
  | none => state

/-- The chunks of a segment that was wrapped by itself; its last chunk is filled further. -/
def takeSubChunks (env : TextEnv) (state : WrapState) (charIndex : Nat) (subChunks : List TextChunk) : WrapState where
  chunks := state.chunks ++
    subChunks.dropLast.map fun sc => ⟨sc.text, charIndex + sc.startIndex, charIndex + sc.endIndex⟩
  currentWidth := (subChunks.getLast?.map fun last => env.visibleWidth last.text).getD 0
  chunkStart := charIndex + (subChunks.getLast?.map TextChunk.startIndex).getD 0
  wrapOpp := none

end WrapState

variable (env : TextEnv)

/-- One segment of the loop; `rewrap` is the call of `wordWrapLine` for a segment. -/
def wrapStep (rewrap : Text → List Segment → Option (List TextChunk)) (line : Text) (maxWidth : Nat)
    (state : WrapState) (seg : Segment) (next : Option Segment) : Option WrapState :=
  let gWidth := env.visibleWidth seg.segment
  let state := state.overflow line maxWidth gWidth seg.index
  if gWidth > maxWidth ∧ (env.graphemes seg.segment).length > 1 then
    (rewrap seg.segment (env.graphemes seg.segment)).map (state.takeSubChunks env seg.index)
  else some (state.advance seg gWidth next)

def wrapLoop (rewrap : Text → List Segment → Option (List TextChunk)) (line : Text) (maxWidth : Nat) :
    WrapState → List Segment → Option WrapState
  | state, [] => some state
  | state, seg :: rest =>
    (wrapStep env rewrap line maxWidth state seg rest.head?).bind fun state =>
      wrapLoop rewrap line maxWidth state rest

/-- `wordWrapLine` with calls nested at most `fuel` deep. -/
def wordWrapWithin : (fuel : Nat) → (line : Text) → (maxWidth : Nat) → List Segment → Option (List TextChunk)
  | 0, _, _, _ => none
  | fuel + 1, line, maxWidth, segments =>
    if line = [] ∨ maxWidth ≤ 0 then some [⟨[], 0, 0⟩]
    else if env.visibleWidth line ≤ maxWidth then some [⟨line, 0, line.length⟩]
    else
      (wrapLoop env (fun grapheme subSegments => wordWrapWithin fuel grapheme maxWidth subSegments) line maxWidth
        ⟨[], 0, 0, none⟩ segments).map fun state =>
          state.chunks ++ [⟨line.drop state.chunkStart, state.chunkStart, line.length⟩]

/-- `wordWrapLine`; the calls are nested at most as deep as the line is long. -/
def wordWrapLine (line : Text) (maxWidth : Nat) (segments : List Segment) : Option (List TextChunk) :=
  wordWrapWithin env (line.length + 1) line maxWidth segments

end Tui.Components

/-!
# The row of the hardware cursor

Runs of the renderer in which the row of the line list is kept that is at the top of the screen, and when
the renderer knows the row of the terminal's cursor.
-/

namespace Tui

open Lib

variable {Cell : Type}

/-- `runActions`, with the row of the line list at the top of the screen. -/
def runTracked (env : Env) (blank : Cell) (paint : Line → List Cell) (columns rows : Nat)
    (tui : Renderer) (screen : Terminal.Screen Cell) (top : Nat) :
    List Action → Option (Renderer × Terminal.Screen Cell × Nat)
  | [] => some (tui, screen, top)
  | action :: actions =>
    match act env tui action with
    | .error _ => none
    | .ok (next, ops) =>
      (screen.runFrom blank paint rows columns top ops).bind fun (shown, origin) =>
        runTracked env blank paint columns rows next shown origin actions

/-- The size of the terminal is fixed. -/
def HasSize (columns rows : Nat) : Action → Prop
  | .render frame => frame.columns = columns ∧ frame.rows = rows
  | .setClearOnShrink _ | .setShowHardwareCursor _ => True

/-- A render at a fixed size writes every line anew. -/
def redrawsAll (env : Env) (tui : Renderer) (frame : Frame) : Bool :=
  let newLines := applyLineResets (extractCursorPosition env frame.lines frame.rows).2
  tui.previousLines = [] ||
    (tui.clearOnShrink && newLines.length < tui.maxLinesRendered && !frame.overlays) ||
    match changedRange tui.previousLines newLines with
    | none => false
    | some (firstChanged, _) =>
      if newLines.length ≤ firstChanged then
        newLines.length - 1 < tui.previousViewportTop ||
          frame.rows < tui.previousLines.length - newLines.length
      else firstChanged < tui.previousViewportTop

/-- The marker of a frame is not above the rows that the terminal still shows, unless every line is
written anew. -/
def Follows (env : Env) (tui : Renderer) : Action → Prop
  | .render frame =>
    ∀ row col, (extractCursorPosition env frame.lines frame.rows).1 = some (row, col) →
      redrawsAll env tui frame = true ∨ tui.previousViewportTop ≤ row
  | .setClearOnShrink _ | .setShowHardwareCursor _ => True

/-- Every action of a run follows the viewport of the state before it. -/
def Followed (env : Env) : Renderer → List Action → Prop
  | _, [] => True
  | tui, action :: actions =>
    Follows env tui action ∧
      ∀ next ops, act env tui action = .ok (next, ops) → Followed env next actions

end Tui
