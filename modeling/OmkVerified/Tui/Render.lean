import OmkVerified.Lib.JsNumber
import OmkVerified.Lib.Terminal

/-!
# Differential rendering

`TUI.doRender` of `tui.ts`: a frame is compared with the one before it, and what changed is written
with relative moves of the cursor.
-/

namespace Tui

open Lib

abbrev Line := List Char

abbrev Op := Terminal.Op Line

/-- What the renderer takes from its surroundings: the columns that a line takes, and the
identifier that the value of a Kitty parameter holds. -/
structure Env where
  visibleWidth : Line → Nat
  toImageId : List Char → Option Nat

/-- The state of the renderer. -/
structure Renderer where
  previousLines : List Line := []
  previousKittyImageIds : List Nat := []
  previousWidth : Nat := 0
  previousHeight : Nat := 0
  cursorRow : Nat := 0
  hardwareCursorRow : Nat := 0
  showHardwareCursor : Bool := false
  clearOnShrink : Bool := false
  maxLinesRendered : Nat := 0
  previousViewportTop : Nat := 0
  fullRedrawCount : Nat := 0
  stopped : Bool := false

/-- What one call renders: the size of the terminal, the lines with the overlays composited into
them, and whether there are overlays and whether the session runs in Termux. -/
structure Frame where
  columns : Nat
  rows : Nat
  lines : List Line
  overlays : Bool := false
  termux : Bool := false

/-- The error for a line that is wider than the terminal. -/
structure LineOverflow where
  row : Nat
  lineWidth : Nat
  width : Nat

/-! ## Texts -/

/-- `text.indexOf(part)`. -/
def indexOf (part : List Char) : List Char → Option Nat
  | [] => if part = [] then some 0 else none
  | c :: rest => if part.isPrefixOf (c :: rest) then some 0 else (indexOf part rest).map (· + 1)

/-- `text.includes(part)`. -/
def includes (text part : List Char) : Bool := (indexOf part text).isSome

def cursorMarker : List Char := "\x1b_pi:c\x07".toList

def kittyPrefix : List Char := "\x1b_G".toList

def iterm2Prefix : List Char := "\x1b]1337;File=".toList

def segmentReset : List Char := "\x1b[0m\x1b]8;;\x07".toList

def isImageLine (line : Line) : Bool := includes line kittyPrefix || includes line iterm2Prefix

def normalizeChar (c : Char) : List Char :=
  if c = '\u0e33' then ['\u0e4d', '\u0e32']
  else if c = '\u0eb3' then ['\u0ecd', '\u0eb2']
  else [c]

def normalizeTerminalOutput (line : Line) : Line := line.flatMap normalizeChar

def applyLineReset (line : Line) : Line :=
  if isImageLine line then line else normalizeTerminalOutput line ++ segmentReset

def applyLineResets (lines : List Line) : List Line := lines.map applyLineReset

def lineAt (lines : List Line) (row : Nat) : Line := lines.getD row []

/-! ## Kitty images -/

/-- The first identifier among the parameters of the first Kitty sequence. -/
def extractKittyImageIds (env : Env) (line : Line) : List Nat :=
  match indexOf kittyPrefix line with
  | none => []
  | some sequenceStart =>
    let params := line.drop (sequenceStart + kittyPrefix.length)
    if ';' ∈ params then
      let ids := ((params.takeWhile (· ≠ ';')).splitOn ',').filterMap fun param =>
        match param.splitOn '=' with
        | key :: value :: _ => if key = ['i'] then env.toImageId value else none
        | _ => none
      ids.take 1
    else []

def collectKittyImageIds (env : Env) (lines : List Line) : List Nat :=
  (lines.flatMap (extractKittyImageIds env)).eraseDups

def deleteKittyImage (imageId : Nat) : Op := .control s!"\x1b_Ga=d,d=I,i={imageId},q=2\x1b\\"

def deleteKittyImages (ids : List Nat) : List Op := ids.map deleteKittyImage

def expandLastChangedForKittyImages (env : Env) (previousLines : List Line)
    (firstChanged lastChanged : Nat) : Nat :=
  ((List.range previousLines.length).drop firstChanged).foldl
    (fun last row =>
      if extractKittyImageIds env (lineAt previousLines row) = [] then last else max last row)
    lastChanged

def deleteChangedKittyImages (env : Env) (previousLines : List Line)
    (firstChanged lastChanged : Nat) : List Op :=
  if lastChanged < firstChanged then []
  else
    deleteKittyImages
      (collectKittyImageIds env
        ((previousLines.take (lastChanged + 1)).drop firstChanged))

/-! ## The cursor -/

/-- The marker nearest to the bottom of the viewport, and the lines without it. -/
def extractCursorPosition (env : Env) (lines : List Line) (height : Nat) :
    Option (Nat × Nat) × List Line :=
  let viewportTop := lines.length - height
  let rows := ((List.range lines.length).drop viewportTop).reverse
  match rows.find? fun row => includes (lineAt lines row) cursorMarker with
  | none => (none, lines)
  | some row =>
    let line := lineAt lines row
    let markerIndex := (indexOf cursorMarker line).getD 0
    let beforeMarker := line.take markerIndex
    (some (row, env.visibleWidth beforeMarker),
      lines.set row (beforeMarker ++ line.drop (markerIndex + cursorMarker.length)))

/-- The relative move over a number of rows. -/
def moveRows (delta : Int) : List Op :=
  if 0 < delta then [.down delta.toNat] else if delta < 0 then [.up (-delta).toNat] else []

def hideCursor : Op := .control "\x1b[?25l"

def showCursor : Op := .control "\x1b[?25h"

def positionHardwareCursor (tui : Renderer) (cursorPos : Option (Nat × Nat)) (totalLines : Nat) :
    Renderer × List Op :=
  match cursorPos with
  | none => (tui, [hideCursor])
  | some (row, col) =>
    if totalLines = 0 then (tui, [hideCursor])
    else
      let targetRow := min row (totalLines - 1)
      ({ tui with hardwareCursorRow := targetRow },
        moveRows (targetRow - tui.hardwareCursorRow) ++
          [.column (col + 1), if tui.showHardwareCursor then showCursor else hideCursor])

/-! ## Full redraw -/

def beginSynchronizedOutput : Op := .control "\x1b[?2026h"

def endSynchronizedOutput : Op := .control "\x1b[?2026l"

def newline : List Op := [.carriageReturn, .lineFeed]

/-- Lines one below the other. -/
def joinLines (lines : List Line) : List Op :=
  lines.zipIdx.flatMap fun (line, i) => (if 0 < i then newline else []) ++ [.text line]

def fullRender (env : Env) (tui : Renderer) (frame : Frame) (newLines : List Line)
    (cursorPos : Option (Nat × Nat)) (clear : Bool) : Renderer × List Op :=
  let buffer :=
    beginSynchronizedOutput ::
      (if clear then
        deleteKittyImages tui.previousKittyImageIds ++ [.clearScreen, .home, .clearScrollback]
       else []) ++
      joinLines newLines ++ [endSynchronizedOutput]
  let drawn :=
    { tui with
      fullRedrawCount := tui.fullRedrawCount + 1
      cursorRow := newLines.length - 1
      hardwareCursorRow := newLines.length - 1
      maxLinesRendered :=
        if clear then newLines.length else max tui.maxLinesRendered newLines.length
      previousViewportTop := max frame.rows newLines.length - frame.rows }
  let (positioned, moves) := positionHardwareCursor drawn cursorPos newLines.length
  ({ positioned with
     previousLines := newLines
     previousKittyImageIds := collectKittyImageIds env newLines
     previousWidth := frame.columns
     previousHeight := frame.rows }, buffer ++ moves)

/-! ## The rows that changed -/

/-- The rows in which the lines differ, where there are none beyond the last. -/
def changedRows (previousLines newLines : List Line) : List Nat :=
  (List.range (max newLines.length previousLines.length)).filter fun row =>
    lineAt previousLines row ≠ lineAt newLines row

/-- The first and the last row to write, if there is one. -/
def changedRange (previousLines newLines : List Line) : Option (Nat × Nat) :=
  let changed := changedRows previousLines newLines
  if previousLines.length < newLines.length then
    some (changed.head?.getD previousLines.length, newLines.length - 1)
  else
    changed.head?.map fun first => (first, changed.getLast?.getD first)

/-- All changes are in deleted lines: nothing to write, only rows to clear. -/
def clearDeletedLines (env : Env) (tui : Renderer) (frame : Frame) (newLines : List Line)
    (cursorPos : Option (Nat × Nat)) (prevViewportTop firstChanged lastChanged : Nat) :
    Renderer × List Op :=
  let targetRow := newLines.length - 1
  let extraLines := tui.previousLines.length - newLines.length
  let finish (cleared : Renderer) (buffer : List Op) : Renderer × List Op :=
    let (positioned, moves) := positionHardwareCursor cleared cursorPos newLines.length
    ({ positioned with
       previousLines := newLines
       previousKittyImageIds := collectKittyImageIds env newLines
       previousWidth := frame.columns
       previousHeight := frame.rows
       previousViewportTop := prevViewportTop }, buffer ++ moves)
  if newLines.length < tui.previousLines.length then
    if targetRow < prevViewportTop then fullRender env tui frame newLines cursorPos true
    else if frame.rows < extraLines then fullRender env tui frame newLines cursorPos true
    else
      finish { tui with cursorRow := targetRow, hardwareCursorRow := targetRow }
        (beginSynchronizedOutput ::
          (deleteChangedKittyImages env tui.previousLines firstChanged lastChanged ++
            moveRows (targetRow - tui.hardwareCursorRow) ++ [.carriageReturn] ++
            (if 0 < extraLines then [.down 1] else []) ++
            (List.range extraLines).flatMap (fun i =>
              [.carriageReturn, .eraseLine] ++ if i + 1 < extraLines then [.down 1] else []) ++
            (if 0 < extraLines then [.up extraLines] else []) ++
            [endSynchronizedOutput]))
  else finish tui []

/-- The changed lines, each written over what its row held. -/
def rewriteLines (env : Env) (width firstChanged : Nat) :
    Nat → List Line → Except LineOverflow (List Op)
  | _, [] => .ok []
  | row, line :: rest =>
    if !isImageLine line && width < env.visibleWidth line then
      .error ⟨row, env.visibleWidth line, width⟩
    else
      (rewriteLines env width firstChanged (row + 1) rest).map fun ops =>
        (if firstChanged < row then newline else []) ++ [.eraseLine, .text line] ++ ops

def rewriteChangedLines (env : Env) (tui : Renderer) (frame : Frame) (newLines : List Line)
    (cursorPos : Option (Nat × Nat)) (prevViewportTop firstChanged lastChanged : Nat) :
    Except LineOverflow (Renderer × List Op) :=
  let previousLength := tui.previousLines.length
  let appendStart := previousLength < newLines.length && firstChanged = previousLength &&
    0 < firstChanged
  let moveTargetRow := if appendStart then firstChanged - 1 else firstChanged
  let beyond := prevViewportTop + frame.rows ≤ moveTargetRow
  let moveToBottom := frame.rows - 1 - min (frame.rows - 1) (tui.hardwareCursorRow - prevViewportTop)
  let scroll := if beyond then moveTargetRow + 1 - (prevViewportTop + frame.rows) else 0
  let hardwareCursorRow := if beyond then moveTargetRow else tui.hardwareCursorRow
  let viewportTop := prevViewportTop + scroll
  let lineDiff : Int := (moveTargetRow - viewportTop) - (hardwareCursorRow - viewportTop)
  let renderEnd := min lastChanged (newLines.length - 1)
  let moveDown := newLines.length - 1 - renderEnd
  let extraLines := previousLength - newLines.length
  let finalCursorRow := if 0 < extraLines then newLines.length - 1 else renderEnd
  (rewriteLines env frame.columns firstChanged firstChanged
    ((newLines.take (renderEnd + 1)).drop firstChanged)).map fun rewritten =>
    let buffer :=
      beginSynchronizedOutput ::
        (deleteChangedKittyImages env tui.previousLines firstChanged lastChanged ++
          (if beyond then
            (if 0 < moveToBottom then [.down moveToBottom] else []) ++
              (List.replicate scroll newline).flatten
           else []) ++
          moveRows lineDiff ++ (if appendStart then newline else [.carriageReturn]) ++ rewritten ++
          (if 0 < extraLines then
            (if renderEnd + 1 < newLines.length then [.down moveDown] else []) ++
              (List.replicate extraLines (newline ++ [.eraseLine])).flatten ++ [.up extraLines]
           else []) ++
          [endSynchronizedOutput])
    let drawn :=
      { tui with
        cursorRow := newLines.length - 1
        hardwareCursorRow := finalCursorRow
        maxLinesRendered := max tui.maxLinesRendered newLines.length
        previousViewportTop := max viewportTop (finalCursorRow + 1 - frame.rows) }
    let (positioned, moves) := positionHardwareCursor drawn cursorPos newLines.length
    ({ positioned with
       previousLines := newLines
       previousKittyImageIds := collectKittyImageIds env newLines
       previousWidth := frame.columns
       previousHeight := frame.rows }, buffer ++ moves)

/-! ## One render -/

def doRender (env : Env) (tui : Renderer) (frame : Frame) :
    Except LineOverflow (Renderer × List Op) :=
  if tui.stopped then .ok (tui, [])
  else
    let widthChanged := tui.previousWidth ≠ 0 && tui.previousWidth ≠ frame.columns
    let heightChanged := tui.previousHeight ≠ 0 && tui.previousHeight ≠ frame.rows
    let previousBufferLength :=
      if 0 < tui.previousHeight then tui.previousViewportTop + tui.previousHeight else frame.rows
    let prevViewportTop :=
      if heightChanged then previousBufferLength - frame.rows else tui.previousViewportTop
    let (cursorPos, lines) := extractCursorPosition env frame.lines frame.rows
    let newLines := applyLineResets lines
    if tui.previousLines = [] && !widthChanged && !heightChanged then
      .ok (fullRender env tui frame newLines cursorPos false)
    else if widthChanged then .ok (fullRender env tui frame newLines cursorPos true)
    else if heightChanged && !frame.termux then
      .ok (fullRender env tui frame newLines cursorPos true)
    else if tui.clearOnShrink && newLines.length < tui.maxLinesRendered && !frame.overlays then
      .ok (fullRender env tui frame newLines cursorPos true)
    else
      match changedRange tui.previousLines newLines with
      | none =>
        let (positioned, moves) := positionHardwareCursor tui cursorPos newLines.length
        .ok
          ({ positioned with
             previousViewportTop := prevViewportTop, previousHeight := frame.rows }, moves)
      | some (firstChanged, changed) =>
        let lastChanged :=
          expandLastChangedForKittyImages env tui.previousLines firstChanged changed
        if newLines.length ≤ firstChanged then
          .ok (clearDeletedLines env tui frame newLines cursorPos prevViewportTop firstChanged
            lastChanged)
        else if firstChanged < prevViewportTop then
          .ok (fullRender env tui frame newLines cursorPos true)
        else
          rewriteChangedLines env tui frame newLines cursorPos prevViewportTop firstChanged
            lastChanged

/-! ## A run -/

/-- What is done with the renderer. -/
inductive Action
  | render (frame : Frame)
  | setClearOnShrink (enabled : Bool)
  | setShowHardwareCursor (enabled : Bool)

def act (env : Env) (tui : Renderer) : Action → Except LineOverflow (Renderer × List Op)
  | .render frame => doRender env tui frame
  | .setClearOnShrink enabled => .ok ({ tui with clearOnShrink := enabled }, [])
  | .setShowHardwareCursor enabled =>
    if tui.showHardwareCursor = enabled then .ok (tui, [])
    else
      .ok ({ tui with showHardwareCursor := enabled }, if enabled then [] else [hideCursor])

variable {Cell : Type}

/-- Actions one after the other, each buffer written to a terminal of this size. Nothing is left
where a render throws. -/
def runActions (env : Env) (blank : Cell) (paint : Line → List Cell) (columns rows : Nat)
    (tui : Renderer) (screen : Terminal.Screen Cell) :
    List Action → Option (Renderer × Terminal.Screen Cell)
  | [] => some (tui, screen)
  | action :: actions =>
    match act env tui action with
    | .error _ => none
    | .ok (next, ops) =>
      (screen.run blank paint rows columns ops).bind fun shown =>
        runActions env blank paint columns rows next shown actions

end Tui
