import OmkVerified.Tui.WordNavigation

/-!
# The editor

The text operations of `packages/tui/src/components/editor.ts` with the kill ring (`kill-ring.ts`) and the
undo stack (`undo-stack.ts`). The undo stack and the kill ring are lists with the latest entry first.
Completion requests, scrolling and `onChange` are left out.
-/

namespace Tui.Components

open Lib StdinBuffer

def newline : CodeUnit := 0x0a

structure EditorState where
  lines : List Text
  cursorLine : Nat
  cursorCol : Nat
deriving DecidableEq

inductive Action
  | kill
  | yank
  | typeWord
deriving DecidableEq

inductive Direction
  | forward
  | backward
deriving DecidableEq

structure Editor where
  state : EditorState
  /-- The latest snapshot first. -/
  undoStack : List EditorState
  /-- The most recent entry first. -/
  killRing : List Text
  lastAction : Option Action
  pastes : OrderedMap Nat Text
  pasteCounter : Nat
  history : List Text
  historyIndex : Int

/-- A new editor. -/
def Editor.initial : Editor where
  state := ⟨[[]], 0, 0⟩
  undoStack := []
  killRing := []
  lastAction := none
  pastes := .empty
  pasteCounter := 0
  history := []
  historyIndex := -1

/-- The segmenters of `Intl.Segmenter`. -/
structure Segmenters where
  word : Segmenter
  grapheme : Segmenter

/-- `lines[index] || ""`. -/
def EditorState.lineAt (state : EditorState) (index : Nat) : Text := state.lines.getD index []

def EditorState.currentLine (state : EditorState) : Text := state.lineAt state.cursorLine

/-- The cursor stands in a line of the text. -/
structure EditorState.Valid (state : EditorState) : Prop where
  line : state.cursorLine < state.lines.length
  col : state.cursorCol ≤ state.currentLine.length

/-- The current line up to the cursor. -/
def EditorState.beforeCursor (state : EditorState) : Text := state.currentLine.take state.cursorCol

/-- The current line from the cursor on. -/
def EditorState.afterCursor (state : EditorState) : Text := state.currentLine.drop state.cursorCol

/-- `lines.join("\n")`. -/
def joinLines (lines : List Text) : Text := [newline].intercalate lines

/-- `text.split("\n")`. -/
def splitLines (text : Text) : List Text := text.splitOn newline

def EditorState.getText (state : EditorState) : Text := joinLines state.lines

/-- `lines[cursorLine] = line`, and the cursor goes to the column `col`. -/
def EditorState.setCurrentLine (state : EditorState) (line : Text) (col : Nat) : EditorState :=
  { state with lines := state.lines.set state.cursorLine line, cursorCol := col }

/-- The line before the current one takes up the current one; the cursor stands where they meet. -/
def EditorState.mergeWithPrevious (state : EditorState) : EditorState where
  lines := (state.lines.set (state.cursorLine - 1)
    (state.lineAt (state.cursorLine - 1) ++ state.currentLine)).eraseIdx state.cursorLine
  cursorLine := state.cursorLine - 1
  cursorCol := (state.lineAt (state.cursorLine - 1)).length

/-- The current line takes up the line after it. -/
def EditorState.mergeWithNext (state : EditorState) : EditorState :=
  { state with
    lines := (state.lines.set state.cursorLine
      (state.currentLine ++ state.lineAt (state.cursorLine + 1))).eraseIdx (state.cursorLine + 1) }

/-! ## Normalizing -/

/-- `normalizeText`: `\r\n` and `\r` become `\n`, a tab becomes four spaces. -/
def normalizeText : Text → Text
  | 0x0d :: 0x0a :: text => newline :: normalizeText text
  | 0x0d :: text => newline :: normalizeText text
  | 0x09 :: text => 0x20 :: 0x20 :: 0x20 :: 0x20 :: normalizeText text
  | unit :: text => unit :: normalizeText text
  | [] => []

/-- `\x1b\[(\d+);5u` at the front. -/
def csiControl (text : Text) : Option ((Text × Nat) × Text) :=
  match after (esc :: ascii "[") text with
  | some rest =>
    match readNumber rest with
    | some (digits, rest) =>
      (after (ascii ";5u") rest).map fun back =>
        ((text.take (text.length - back.length), readDigits digits), back)
    | none => none
  | none => none

/-- The control byte that a sequence stands for, or the sequence. -/
def decodeControl (found : Text × Nat) : Text :=
  if 97 ≤ found.2 ∧ found.2 ≤ 122 then [found.2 - 96]
  else if 65 ≤ found.2 ∧ found.2 ≤ 90 then [found.2 - 64]
  else found.1

/-! ## Snapshots and inserting -/

namespace Editor

def pushUndoSnapshot (editor : Editor) : Editor :=
  { editor with undoStack := editor.state :: editor.undoStack }

def undo (editor : Editor) : Editor :=
  match editor.undoStack with
  | [] => { editor with historyIndex := -1 }
  | snapshot :: older =>
    { editor with state := snapshot, undoStack := older, lastAction := none, historyIndex := -1 }

def validPasteIds (editor : Editor) : List Nat := editor.pastes.keys

/-- `segment(text, mode)`. -/
def segment (editor : Editor) (base : Segmenter) (text : Text) : List Segment :=
  segmentWithMarkers text base editor.validPasteIds

end Editor

def EditorState.setTextInternal (text : Text) : EditorState :=
  let lines := splitLines text
  ⟨lines, lines.length - 1, (lines.getD (lines.length - 1) []).length⟩

/-- The lines `inserted` at the cursor, which goes behind them. -/
def EditorState.insertLines (state : EditorState) (inserted : List Text) : EditorState :=
  match inserted with
  | [] => state
  | [single] =>
    state.setCurrentLine (state.beforeCursor ++ single ++ state.afterCursor) (state.cursorCol + single.length)
  | first :: rest =>
    { lines := state.lines.take state.cursorLine ++ (state.beforeCursor ++ first) :: rest.dropLast ++
        (rest.getLastD [] ++ state.afterCursor) :: state.lines.drop (state.cursorLine + 1)
      cursorLine := state.cursorLine + rest.length
      cursorCol := (rest.getLastD []).length }

/-- `insertTextAtCursorInternal`. -/
def EditorState.insertTextInternal (state : EditorState) (text : Text) : EditorState :=
  if text = [] then state else state.insertLines (splitLines (normalizeText text))

namespace Editor

def setText (editor : Editor) (text : Text) : Editor :=
  let editor := { editor with lastAction := none, historyIndex := -1 }
  let normalized := normalizeText text
  let editor := if editor.state.getText ≠ normalized then editor.pushUndoSnapshot else editor
  { editor with state := .setTextInternal normalized }

def insertTextAtCursor (editor : Editor) (text : Text) : Editor :=
  if text = [] then editor
  else
    let editor := editor.pushUndoSnapshot
    { editor with lastAction := none, historyIndex := -1, state := editor.state.insertTextInternal text }

def insertCharacter (editor : Editor) (char : Text) (skipUndoCoalescing : Bool) : Editor :=
  let editor := { editor with historyIndex := -1 }
  let editor :=
    if skipUndoCoalescing then editor
    else
      let editor :=
        if isWhitespaceChar char ∨ editor.lastAction ≠ some .typeWord then editor.pushUndoSnapshot else editor
      { editor with lastAction := some .typeWord }
  { editor with
    state := editor.state.setCurrentLine
      (editor.state.beforeCursor ++ char ++ editor.state.afterCursor) (editor.state.cursorCol + char.length) }

/-- The text that `handlePaste` inserts or stores: controls decoded, line endings and tabs normalized, other
control units dropped, a space before a path that would touch a word. -/
def filterPaste (editor : Editor) (pastedText : Text) : Text :=
  let decodedText := Scan.replaceAll csiControl decodeControl pastedText
  let filteredText := (normalizeText decodedText).filter fun unit => unit = newline || 32 ≤ unit
  let isPath := filteredText.head?.any fun unit => unit ∈ ascii "/~."
  let state := editor.state
  let charBeforeCursor := if state.cursorCol > 0 then state.currentLine[state.cursorCol - 1]? else none
  if isPath ∧ charBeforeCursor.any isWordUnit then 0x20 :: filteredText else filteredText

def handlePaste (editor : Editor) (pastedText : Text) : Editor :=
  let editor := { editor with lastAction := none, historyIndex := -1 }.pushUndoSnapshot
  let filteredText := editor.filterPaste pastedText
  let lineCount := (splitLines filteredText).length
  if lineCount > 10 ∨ filteredText.length > 1000 then
    let pasteId := editor.pasteCounter + 1
    let marker :=
      if lineCount > 10 then
        ascii "[paste #" ++ decimal pasteId ++ ascii " +" ++ decimal lineCount ++ ascii " lines]"
      else ascii "[paste #" ++ decimal pasteId ++ ascii " " ++ decimal filteredText.length ++ ascii " chars]"
    { editor with
      pasteCounter := pasteId
      pastes := editor.pastes.set pasteId filteredText
      state := editor.state.insertTextInternal marker }
  else { editor with state := editor.state.insertTextInternal filteredText }

def addNewLine (editor : Editor) : Editor :=
  let editor := { editor with lastAction := none, historyIndex := -1 }.pushUndoSnapshot
  { editor with
    state :=
      { lines := (editor.state.lines.set editor.state.cursorLine editor.state.beforeCursor).insertIdx
          (editor.state.cursorLine + 1) editor.state.afterCursor
        cursorLine := editor.state.cursorLine + 1
        cursorCol := 0 } }

/-! ## Deleting -/

variable (segmenters : Segmenters)

/-- The length of the last grapheme of a text, 1 without one. -/
def lastGraphemeLength (editor : Editor) (text : Text) : Nat :=
  ((editor.segment segmenters.grapheme text).getLast?.map fun seg => seg.segment.length).getD 1

/-- The length of the first grapheme of a text, 1 without one. -/
def firstGraphemeLength (editor : Editor) (text : Text) : Nat :=
  ((editor.segment segmenters.grapheme text).head?.map fun seg => seg.segment.length).getD 1

def handleBackspace (editor : Editor) : Editor :=
  let editor := { editor with historyIndex := -1, lastAction := none }
  let state := editor.state
  if state.cursorCol > 0 then
    let length := editor.lastGraphemeLength segmenters state.beforeCursor
    { editor.pushUndoSnapshot with
      state := state.setCurrentLine (state.currentLine.take (state.cursorCol - length) ++ state.afterCursor)
        (state.cursorCol - length) }
  else if state.cursorLine > 0 then { editor.pushUndoSnapshot with state := state.mergeWithPrevious }
  else editor

def handleForwardDelete (editor : Editor) : Editor :=
  let editor := { editor with historyIndex := -1, lastAction := none }
  let state := editor.state
  if state.cursorCol < state.currentLine.length then
    let length := editor.firstGraphemeLength segmenters state.afterCursor
    { editor.pushUndoSnapshot with
      state := state.setCurrentLine (state.beforeCursor ++ state.currentLine.drop (state.cursorCol + length))
        state.cursorCol }
  else if state.cursorLine < state.lines.length - 1 then
    { editor.pushUndoSnapshot with state := state.mergeWithNext }
  else editor

/-- `killRing.push`. -/
def pushKill (ring : List Text) (text : Text) (toFront accumulate : Bool) : List Text :=
  if text = [] then ring
  else
    match accumulate, ring with
    | true, last :: older => (if toFront then text ++ last else last ++ text) :: older
    | _, _ => text :: ring

/-- A snapshot is pushed, `deletedText` goes to the kill ring, and the state becomes `state`. -/
def kill (editor : Editor) (deletedText : Text) (toFront : Bool) (state : EditorState) : Editor :=
  { editor.pushUndoSnapshot with
    killRing := pushKill editor.killRing deletedText toFront (editor.lastAction = some .kill)
    lastAction := some .kill
    state := state }

def deleteToStartOfLine (editor : Editor) : Editor :=
  let editor := { editor with historyIndex := -1 }
  let state := editor.state
  if state.cursorCol > 0 then editor.kill state.beforeCursor true (state.setCurrentLine state.afterCursor 0)
  else if state.cursorLine > 0 then editor.kill [newline] true state.mergeWithPrevious
  else editor

def deleteToEndOfLine (editor : Editor) : Editor :=
  let editor := { editor with historyIndex := -1 }
  let state := editor.state
  if state.cursorCol < state.currentLine.length then
    editor.kill state.afterCursor false (state.setCurrentLine state.beforeCursor state.cursorCol)
  else if state.cursorLine < state.lines.length - 1 then editor.kill [newline] false state.mergeWithNext
  else editor

def deleteWordBackwards (editor : Editor) : Editor :=
  let editor := { editor with historyIndex := -1 }
  let state := editor.state
  if state.cursorCol = 0 then
    if state.cursorLine > 0 then editor.kill [newline] true state.mergeWithPrevious else editor
  else
    let deleteFrom := findWordBackward (editor.segment segmenters.word) state.currentLine state.cursorCol
    editor.kill (state.beforeCursor.drop deleteFrom) true
      (state.setCurrentLine (state.currentLine.take deleteFrom ++ state.afterCursor) deleteFrom)

def deleteWordForward (editor : Editor) : Editor :=
  let editor := { editor with historyIndex := -1 }
  let state := editor.state
  if state.cursorCol ≥ state.currentLine.length then
    if state.cursorLine < state.lines.length - 1 then editor.kill [newline] false state.mergeWithNext else editor
  else
    let deleteTo := findWordForward (editor.segment segmenters.word) state.currentLine state.cursorCol
    editor.kill ((state.currentLine.take deleteTo).drop state.cursorCol) false
      (state.setCurrentLine (state.beforeCursor ++ state.currentLine.drop deleteTo) state.cursorCol)

end Editor

/-! ## Yanking and jumping -/

/-- `insertYankedText`. -/
def EditorState.insertYankedText (state : EditorState) (text : Text) : EditorState :=
  state.insertLines (splitLines text)

/-- `deleteYankedText`. -/
def EditorState.deleteYankedText (state : EditorState) (yankedText : Text) : EditorState :=
  if yankedText = [] then state
  else
    match splitLines yankedText with
    | [] => state
    | [_] =>
      state.setCurrentLine
        (state.currentLine.take (state.cursorCol - yankedText.length) ++ state.afterCursor)
        (state.cursorCol - yankedText.length)
    | first :: rest =>
      let startLine := state.cursorLine - rest.length
      let startCol := (state.lineAt startLine).length - first.length
      let beforeYank := (state.lineAt startLine).take startCol
      { lines := state.lines.take startLine ++ (beforeYank ++ state.afterCursor) ::
          state.lines.drop (startLine + (rest.length + 1))
        cursorLine := startLine
        cursorCol := startCol }

/-- `text.indexOf(part, from)`. -/
def indexOf (part text : Text) (start : Nat) : Option Nat :=
  (List.range' start (text.length + 1 - start)).find? fun i => part.isPrefixOf (text.drop i)

/-- `text.lastIndexOf(part, start)`; a negative start is taken as zero. -/
def lastIndexOf (part text : Text) (start : Int) : Option Nat :=
  (List.range (start.toNat + 1)).reverse.find? fun i => i ≤ text.length && part.isPrefixOf (text.drop i)

/-- What the loop of `jumpToChar` finds in a line. -/
def EditorState.searchLine (state : EditorState) (char : Text) (direction : Direction) (lineIdx : Nat) : Option Nat :=
  let line := state.lineAt lineIdx
  match direction with
  | .forward => indexOf char line (if lineIdx = state.cursorLine then state.cursorCol + 1 else 0)
  | .backward =>
    lastIndexOf char line (if lineIdx = state.cursorLine then (state.cursorCol : Int) - 1 else line.length)

/-- The lines that the loop of `jumpToChar` visits. -/
def EditorState.visitedLines (state : EditorState) : Direction → List Nat
  | .forward => List.range' state.cursorLine (state.lines.length - state.cursorLine)
  | .backward => (List.range (state.cursorLine + 1)).reverse

/-- Where `jumpToChar` finds the character. -/
def EditorState.jumpTarget (state : EditorState) (char : Text) (direction : Direction) : Option (Nat × Nat) :=
  (state.visitedLines direction).findSome? fun lineIdx =>
    (state.searchLine char direction lineIdx).map fun idx => (lineIdx, idx)

/-- The cursor goes to a match, and stays without one. -/
def EditorState.goTo (state : EditorState) : Option (Nat × Nat) → EditorState
  | some (lineIdx, idx) => { state with cursorLine := lineIdx, cursorCol := idx }
  | none => state

namespace Editor

def yank (editor : Editor) : Editor :=
  match editor.killRing with
  | [] => editor
  | text :: _ =>
    { editor.pushUndoSnapshot with
      historyIndex := -1
      state := editor.state.insertYankedText text
      lastAction := some .yank }

/-- `killRing.rotate`: the latest entry becomes the oldest. -/
def rotate : List Text → List Text
  | [] => []
  | last :: older => older ++ [last]

def yankPop (editor : Editor) : Editor :=
  match editor.killRing with
  | yanked :: text :: older =>
    if editor.lastAction = some .yank then
      { editor.pushUndoSnapshot with
        historyIndex := -1
        killRing := rotate (yanked :: text :: older)
        state := (editor.state.deleteYankedText yanked).insertYankedText text
        lastAction := some .yank }
    else editor
  | _ => editor

/-- A completion was chosen and `applyCompletion` gave `result`. -/
def complete (editor : Editor) (result : EditorState) : Editor :=
  { editor.pushUndoSnapshot with lastAction := none, state := result }

/-- `navigateHistory(direction)`; `forward` is `1`. -/
def navigateHistory (editor : Editor) (direction : Direction) : Editor :=
  let editor := { editor with lastAction := none }
  if editor.history = [] then editor
  else
    let newIndex := editor.historyIndex - (match direction with | .forward => 1 | .backward => -1)
    if newIndex < -1 ∨ newIndex ≥ editor.history.length then editor
    else
      let editor :=
        if editor.historyIndex = -1 ∧ newIndex ≥ 0 then editor.pushUndoSnapshot else editor
      { editor with
        historyIndex := newIndex
        state := .setTextInternal (if newIndex = -1 then [] else editor.history.getD newIndex.toNat []) }

def jumpToChar (editor : Editor) (char : Text) (direction : Direction) : Editor :=
  { editor with lastAction := none, state := editor.state.goTo (editor.state.jumpTarget char direction) }

/-! ## Submitting -/

/-- `expandPasteMarkers`: the pastes in the order in which they were stored. -/
def expandPasteMarkers (editor : Editor) (text : Text) : Text :=
  editor.pastes.entries.foldl
    (fun result paste => Scan.replaceAll (markerFinder paste.1) (fun _ => paste.2) result) text

/-- The text that `submitValue` trims and submits. -/
def submittedText (editor : Editor) : Text := editor.expandPasteMarkers editor.state.getText

/-- What `submitValue` leaves. -/
def submitValue (editor : Editor) : Editor :=
  { editor with
    state := ⟨[[]], 0, 0⟩
    pastes := .empty
    pasteCounter := 0
    historyIndex := -1
    undoStack := []
    lastAction := none }

end Editor

/-! ## Commands -/

inductive KillCommand
  | deleteToStartOfLine
  | deleteToEndOfLine
  | deleteWordBackwards
  | deleteWordForward
deriving DecidableEq

inductive EditCommand
  | setText (text : Text)
  | insertTextAtCursor (text : Text)
  | handlePaste (pastedText : Text)
  | addNewLine
  | handleBackspace
  | handleForwardDelete
  | kill (command : KillCommand)
  | yank
  | yankPop
  | complete (result : EditorState)

inductive Command
  | edit (command : EditCommand)
  | insertCharacter (char : Text)
  | undo
  | submitValue
  | navigateHistory (direction : Direction)
  | jumpToChar (char : Text) (direction : Direction)
  /-- A cursor movement. -/
  | move (cursorLine cursorCol : Nat)

namespace Editor

variable (segmenters : Segmenters)

def applyKill (editor : Editor) : KillCommand → Editor
  | .deleteToStartOfLine => editor.deleteToStartOfLine
  | .deleteToEndOfLine => editor.deleteToEndOfLine
  | .deleteWordBackwards => editor.deleteWordBackwards segmenters
  | .deleteWordForward => editor.deleteWordForward segmenters

def applyEdit (editor : Editor) : EditCommand → Editor
  | .setText text => editor.setText text
  | .insertTextAtCursor text => editor.insertTextAtCursor text
  | .handlePaste pastedText => editor.handlePaste pastedText
  | .addNewLine => editor.addNewLine
  | .handleBackspace => editor.handleBackspace segmenters
  | .handleForwardDelete => editor.handleForwardDelete segmenters
  | .kill command => editor.applyKill segmenters command
  | .yank => editor.yank
  | .yankPop => editor.yankPop
  | .complete result => editor.complete result

def apply (editor : Editor) : Command → Editor
  | .edit command => editor.applyEdit segmenters command
  | .insertCharacter char => editor.insertCharacter char false
  | .undo => editor.undo
  | .submitValue => editor.submitValue
  | .navigateHistory direction => editor.navigateHistory direction
  | .jumpToChar char direction => editor.jumpToChar char direction
  | .move cursorLine cursorCol =>
    { editor with lastAction := none, state := { editor.state with cursorLine := cursorLine, cursorCol := cursorCol } }

def run (editor : Editor) (commands : List Command) : Editor := commands.foldl (apply segmenters) editor

end Editor

end Tui.Components
