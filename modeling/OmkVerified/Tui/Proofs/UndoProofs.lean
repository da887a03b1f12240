import OmkVerified.Lib.Lines
import OmkVerified.Tui.Editor

/-!
# Editor states as zippers

A valid editor state is a zipper of lines. The operations on states are operations on zippers.
-/

namespace Tui.Components

open Lib StdinBuffer
open Lib.Lines (Zipper)

namespace EditorState

/-- The state of a zipper. -/
def ofZipper (z : Zipper CodeUnit) : EditorState := ⟨z.lines, z.above.length, z.left.length⟩

variable {state : EditorState} (z : Zipper CodeUnit)

@[simp] theorem ofZipper_lineAt : (ofZipper z).lineAt z.above.length = z.left ++ z.right := by
  simp [lineAt, ofZipper, Zipper.lines]

@[simp] theorem ofZipper_cursorLine : (ofZipper z).cursorLine = z.above.length := rfl

@[simp] theorem ofZipper_cursorCol : (ofZipper z).cursorCol = z.left.length := rfl

@[simp] theorem ofZipper_lines : (ofZipper z).lines = z.lines := rfl

@[simp] theorem ofZipper_currentLine : (ofZipper z).currentLine = z.left ++ z.right := ofZipper_lineAt z

@[simp] theorem ofZipper_beforeCursor : (ofZipper z).beforeCursor = z.left := by
  rw [beforeCursor, ofZipper_currentLine, ofZipper_cursorCol, List.take_left]

@[simp] theorem ofZipper_afterCursor : (ofZipper z).afterCursor = z.right := by
  rw [afterCursor, ofZipper_currentLine, ofZipper_cursorCol, List.drop_left]

theorem ofZipper_valid : (ofZipper z).Valid where
  line := by simp [Zipper.lines]
  col := by simp

theorem Valid.exists_zipper (h : state.Valid) : ∃ z, state = ofZipper z := by
  obtain ⟨lines, cursorLine, cursorCol⟩ := state
  obtain ⟨hline, hcol⟩ := h
  refine ⟨⟨lines.take cursorLine, lines[cursorLine].take cursorCol, lines[cursorLine].drop cursorCol,
    lines.drop (cursorLine + 1)⟩, ?_⟩
  have hcurrent : (EditorState.mk lines cursorLine cursorCol).currentLine = lines[cursorLine] := by
    simp [currentLine, lineAt, hline]
  rw [hcurrent] at hcol
  have hlines : lines.take cursorLine ++ (lines[cursorLine].take cursorCol ++ lines[cursorLine].drop cursorCol) ::
      lines.drop (cursorLine + 1) = lines := by
    rw [List.take_append_drop, List.getElem_cons_drop, List.take_append_drop]
  simp only [ofZipper, Zipper.lines, hlines, List.length_take, mk.injEq, true_and]
  simp only at hline hcol
  omega

theorem ofZipper_getText : (ofZipper z).getText = z.before newline ++ z.after newline := z.join_lines

theorem ofZipper_setCurrentLine (left right : Text) :
    (ofZipper z).setCurrentLine (left ++ right) left.length =
      ofZipper { z with left := left, right := right } := by
  simp [setCurrentLine, ofZipper, Zipper.lines]

theorem ofZipper_insertLines (inserted : List Text) :
    (ofZipper z).insertLines inserted = ofZipper (z.insert inserted) := by
  rcases inserted with _ | ⟨first, _ | ⟨second, rest⟩⟩
  · rfl
  · have h := ofZipper_setCurrentLine z (z.left ++ first) z.right
    rw [List.length_append] at h
    rw [insertLines, ofZipper_beforeCursor, ofZipper_afterCursor]
    exact h
  · rw [insertLines, ofZipper_beforeCursor, ofZipper_afterCursor]
    · simp [ofZipper, Zipper.insert, Zipper.lines]
    · simp

theorem ofZipper_mergeWithPrevious (above below : List Text) (line right : Text) :
    (ofZipper ⟨above ++ [line], [], right, below⟩).mergeWithPrevious = ofZipper ⟨above, line, right, below⟩ := by
  simp [mergeWithPrevious, currentLine, lineAt, ofZipper, Zipper.lines, List.eraseIdx_append]

theorem ofZipper_mergeWithNext (above below : List Text) (left line : Text) :
    (ofZipper ⟨above, left, [], line :: below⟩).mergeWithNext = ofZipper ⟨above, left, line, below⟩ := by
  simp [mergeWithNext, currentLine, lineAt, ofZipper, Zipper.lines, List.eraseIdx_append]

/-! ## Yanked text -/

theorem splitLines_ne_nil (text : Text) : splitLines text ≠ [] := List.splitOn_ne_nil _ _

theorem join_splitLines (text : Text) : Lines.join newline (splitLines text) = text :=
  List.intercalate_splitOn newline

theorem ofZipper_insertYankedText (text : Text) :
    (ofZipper z).insertYankedText text = ofZipper (z.insert (splitLines text)) :=
  ofZipper_insertLines z _

theorem deleteYankedText_insertYankedText (h : state.Valid) (text : Text) :
    (state.insertYankedText text).deleteYankedText text = state := by
  obtain ⟨z, rfl⟩ := h.exists_zipper
  obtain ⟨above, left, right, below⟩ := z
  rw [ofZipper_insertYankedText]
  have htext := join_splitLines text
  by_cases hempty : text = []
  · subst hempty
    simp [deleteYankedText, splitLines, Zipper.insert]
  · rw [deleteYankedText, if_neg hempty]
    rcases hlines : splitLines text with _ | ⟨first, _ | ⟨second, rest⟩⟩
    · exact absurd hlines (splitLines_ne_nil text)
    · rw [hlines, Lines.join_singleton] at htext
      subst htext
      have h := ofZipper_setCurrentLine ⟨above, left ++ first, right, below⟩ left right
      simpa [Zipper.insert] using h
    · have hafter := ofZipper_afterCursor
        ⟨above ++ (left ++ first) :: (second :: rest).dropLast, (second :: rest).getLastD [], right, below⟩
      have hbelow (line : Text) : ((second :: rest).dropLast ++ line :: below).drop (rest.length + 1) = below := by
        rw [List.drop_append, List.length_dropLast]
        simp
      have hafter' : (ofZipper (Zipper.insert ⟨above, left, right, below⟩ (first :: second :: rest))).afterCursor =
          right := hafter
      simp only [hafter']
      simp [Zipper.insert, ofZipper, Zipper.lines, lineAt, hbelow]

end EditorState

end Tui.Components

/-!
# Undo

Every editing operation that changes the text pushes the state before it, so that one undo takes it back. Typed
characters share a snapshot until white space is typed; the first character of a run pushes one unless the
last action is recorded as typing, which an operation that found nothing to do may have left standing.
-/

namespace Tui.Components

open Lib StdinBuffer

namespace Editor

variable (segmenters : Segmenters) {editor after : Editor} {chars : List Text}

/-- The state was pushed, or the text was left as it is. -/
def Snapshots (editor after : Editor) : Prop :=
  after.undoStack = editor.state :: editor.undoStack ∨
    after.undoStack = editor.undoStack ∧ after.state.getText = editor.state.getText

theorem setTextInternal_getText (text : Text) : (EditorState.setTextInternal text).getText = text :=
  List.intercalate_splitOn newline

theorem snapshots_setText (text : Text) : Snapshots editor (editor.setText text) := by
  unfold setText
  dsimp only
  split_ifs with hchanged
  · exact .inl rfl
  · refine .inr ⟨rfl, ?_⟩
    rw [setTextInternal_getText]
    exact (not_not.mp hchanged).symm

theorem snapshots_insertTextAtCursor (text : Text) : Snapshots editor (editor.insertTextAtCursor text) := by
  unfold insertTextAtCursor
  split_ifs
  · exact .inr ⟨rfl, rfl⟩
  · exact .inl rfl

theorem snapshots_handlePaste (pastedText : Text) : Snapshots editor (editor.handlePaste pastedText) := by
  unfold handlePaste
  dsimp only
  split_ifs <;> exact .inl rfl

theorem snapshots_handleBackspace : Snapshots editor (editor.handleBackspace segmenters) := by
  unfold handleBackspace
  dsimp only
  split_ifs
  · exact .inl rfl
  · exact .inl rfl
  · exact .inr ⟨rfl, rfl⟩

theorem snapshots_handleForwardDelete : Snapshots editor (editor.handleForwardDelete segmenters) := by
  unfold handleForwardDelete
  dsimp only
  split_ifs
  · exact .inl rfl
  · exact .inl rfl
  · exact .inr ⟨rfl, rfl⟩

theorem snapshots_applyKill (command : KillCommand) : Snapshots editor (editor.applyKill segmenters command) := by
  cases command with
  | deleteToStartOfLine =>
    simp only [applyKill, deleteToStartOfLine]
    split_ifs
    · exact .inl rfl
    · exact .inl rfl
    · exact .inr ⟨rfl, rfl⟩
  | deleteToEndOfLine =>
    simp only [applyKill, deleteToEndOfLine]
    split_ifs
    · exact .inl rfl
    · exact .inl rfl
    · exact .inr ⟨rfl, rfl⟩
  | deleteWordBackwards =>
    simp only [applyKill, deleteWordBackwards]
    split_ifs
    · exact .inl rfl
    · exact .inr ⟨rfl, rfl⟩
    · exact .inl rfl
  | deleteWordForward =>
    simp only [applyKill, deleteWordForward]
    split_ifs
    · exact .inl rfl
    · exact .inr ⟨rfl, rfl⟩
    · exact .inl rfl

theorem snapshots_yank : Snapshots editor editor.yank := by
  unfold yank
  cases editor.killRing with
  | nil => exact .inr ⟨rfl, rfl⟩
  | cons text older => exact .inl rfl

theorem snapshots_yankPop : Snapshots editor editor.yankPop := by
  unfold yankPop
  split
  · split_ifs
    · exact .inl rfl
    · exact .inr ⟨rfl, rfl⟩
  · exact .inr ⟨rfl, rfl⟩

theorem snapshots_applyEdit (command : EditCommand) : Snapshots editor (editor.applyEdit segmenters command) := by
  cases command with
  | setText text => exact snapshots_setText text
  | insertTextAtCursor text => exact snapshots_insertTextAtCursor text
  | handlePaste pastedText => exact snapshots_handlePaste pastedText
  | addNewLine => exact .inl rfl
  | handleBackspace => exact snapshots_handleBackspace segmenters
  | handleForwardDelete => exact snapshots_handleForwardDelete segmenters
  | kill command => exact snapshots_applyKill segmenters command
  | yank => exact snapshots_yank
  | yankPop => exact snapshots_yankPop
  | complete result => exact .inl rfl

theorem undo_of_cons {snapshot : EditorState} {older : List EditorState} (h : editor.undoStack = snapshot :: older) :
    editor.undo.state = snapshot ∧ editor.undo.undoStack = older := by
  rw [undo, h]
  exact ⟨rfl, rfl⟩

/-- An undo after an edit that changes the text restores the lines and the cursor. -/
def EditsUndone (editor : Editor) : Prop :=
  ∀ command : EditCommand, (editor.applyEdit segmenters command).state.getText ≠ editor.state.getText →
    (editor.applyEdit segmenters command).undo.state = editor.state

theorem editsUndone : EditsUndone segmenters editor := by
  intro command hchanged
  rcases snapshots_applyEdit segmenters command with hpushed | ⟨-, hsame⟩
  · exact (undo_of_cons hpushed).1
  · exact absurd hsame hchanged

/-- An undo takes the latest snapshot, and every other command but a submit keeps all of them. -/
def KeepsSnapshots (editor : Editor) : Prop :=
  editor.undo.undoStack = editor.undoStack.tail ∧
    ∀ command : Command, command ≠ .undo → command ≠ .submitValue →
      editor.undoStack <:+ (editor.apply segmenters command).undoStack

theorem Snapshots.suffix (h : Snapshots editor after) : editor.undoStack <:+ after.undoStack := by
  rcases h with hpushed | ⟨hsame, -⟩
  · rw [hpushed]
    exact List.suffix_cons _ _
  · rw [hsame]

theorem insertCharacter_undoStack (char : Text) :
    (editor.insertCharacter char false).undoStack =
      if isWhitespaceChar char ∨ editor.lastAction ≠ some .typeWord then editor.state :: editor.undoStack
      else editor.undoStack := by
  unfold insertCharacter
  dsimp only
  rw [if_neg Bool.false_ne_true]
  split_ifs <;> rfl

theorem suffix_navigateHistory (direction : Direction) :
    editor.undoStack <:+ (editor.navigateHistory direction).undoStack := by
  unfold navigateHistory
  dsimp only
  split_ifs <;> first | exact List.suffix_rfl | exact List.suffix_cons _ _

theorem keepsSnapshots : KeepsSnapshots segmenters editor := by
  refine ⟨?_, ?_⟩
  · unfold undo
    cases editor.undoStack <;> rfl
  · intro command hundo hsubmit
    cases command with
    | edit command => exact (snapshots_applyEdit segmenters command).suffix
    | insertCharacter char =>
      rw [apply, insertCharacter_undoStack]
      split_ifs
      · exact List.suffix_cons _ _
      · exact List.suffix_rfl
    | undo => exact absurd rfl hundo
    | submitValue => exact absurd rfl hsubmit
    | navigateHistory direction => exact suffix_navigateHistory direction
    | jumpToChar char direction => exact List.suffix_rfl
    | move cursorLine cursorCol => exact List.suffix_rfl

/-! ## Typed characters -/

def typeRun (editor : Editor) (chars : List Text) : Editor :=
  chars.foldl (fun editor char => editor.insertCharacter char false) editor

/-- The states of a run in which it started, if `first`, or white space was about to be typed, the latest first. -/
def checkpoints (first : Bool) : (editor : Editor) → List Text → List EditorState
  | _, [] => []
  | editor, char :: chars =>
    checkpoints false (editor.insertCharacter char false) chars ++
      if first ∨ isWhitespaceChar char then [editor.state] else []

/-- After a run of typed characters the undos go back through its checkpoints, and then on to what was there
before the run. -/
structure RunUndone (editor : Editor) (chars : List Text) : Prop where
  states : ∀ i (hi : i < (checkpoints true editor chars).length),
    (undo^[i + 1] (editor.typeRun chars)).state = (checkpoints true editor chars)[i]
  undoStack : (undo^[(checkpoints true editor chars).length] (editor.typeRun chars)).undoStack = editor.undoStack

/-- The run starts with a snapshot. -/
def StartsUnit (editor : Editor) : List Text → Prop
  | [] => True
  | char :: _ => editor.lastAction ≠ some .typeWord ∨ isWhitespaceChar char

@[simp] theorem insertCharacter_lastAction (char : Text) :
    (editor.insertCharacter char false).lastAction = some .typeWord := by
  unfold insertCharacter
  dsimp only
  rw [if_neg Bool.false_ne_true]

theorem typeRun_undoStack_of_typeWord (h : editor.lastAction = some .typeWord) (chars : List Text) :
    (editor.typeRun chars).undoStack = checkpoints false editor chars ++ editor.undoStack := by
  induction chars generalizing editor with
  | nil => rfl
  | cons char chars ih =>
    have hstack := @insertCharacter_undoStack editor char
    have hrest := ih (@insertCharacter_lastAction editor char)
    rw [typeRun, List.foldl_cons, ← typeRun, hrest, hstack, checkpoints]
    by_cases hspace : isWhitespaceChar char = true
    · simp [hspace]
    · simp [hspace, h]

theorem typeRun_undoStack (h : editor.StartsUnit chars) :
    (editor.typeRun chars).undoStack = checkpoints true editor chars ++ editor.undoStack := by
  cases chars with
  | nil => rfl
  | cons char chars =>
    have hstack := @insertCharacter_undoStack editor char
    have hrest := typeRun_undoStack_of_typeWord (@insertCharacter_lastAction editor char) chars
    rw [if_pos h.symm] at hstack
    rw [typeRun, List.foldl_cons, ← typeRun, hrest, hstack, checkpoints]
    simp

/-- Undos take the snapshots from the top of the stack. -/
theorem undo_iterate {front older : List EditorState} (h : editor.undoStack = front ++ older) :
    (∀ i (hi : i < front.length), (undo^[i + 1] editor).state = front[i]) ∧
      (undo^[front.length] editor).undoStack = older := by
  induction front generalizing editor with
  | nil => exact ⟨fun i hi => absurd hi (Nat.not_lt_zero i), h⟩
  | cons snapshot front ih =>
    obtain ⟨hstate, hstack⟩ := undo_of_cons h
    obtain ⟨hstates, hend⟩ := ih hstack
    refine ⟨?_, hend⟩
    intro i hi
    cases i with
    | zero => exact hstate
    | succ i => exact hstates i (Nat.lt_of_succ_lt_succ hi)

theorem runUndone_of_startsUnit (h : editor.StartsUnit chars) : RunUndone editor chars := by
  obtain ⟨hstates, hstack⟩ := undo_iterate (typeRun_undoStack h)
  exact ⟨hstates, hstack⟩

/-! ### A run that goes on with the unit before it -/

theorem undo_iterate_mem (k : Nat) : (undo^[k] editor).state ∈ editor.state :: editor.undoStack := by
  induction k generalizing editor with
  | zero => exact List.mem_cons_self
  | succ k ih =>
    rw [Function.iterate_succ_apply]
    have hmem := @ih editor.undo
    unfold undo at hmem ⊢
    cases hstack : editor.undoStack with
    | nil => simp_all
    | cons snapshot older => simp_all

theorem insertCharacter_cursorCol (char : Text) :
    (editor.insertCharacter char false).state.cursorCol = editor.state.cursorCol + char.length := by
  unfold insertCharacter
  dsimp only
  rw [if_neg Bool.false_ne_true]
  split_ifs <;> rfl

/-- The cursor goes to the right as characters are typed. -/
theorem lt_cursorCol_typeRun {col : Nat} (h : col < editor.state.cursorCol) (chars : List Text) :
    col < (editor.typeRun chars).state.cursorCol ∧
      ∀ state ∈ checkpoints false editor chars, col < state.cursorCol := by
  induction chars generalizing editor with
  | nil => exact ⟨h, fun state hstate => absurd hstate List.not_mem_nil⟩
  | cons char chars ih =>
    have hnext : col < (editor.insertCharacter char false).state.cursorCol := by
      rw [insertCharacter_cursorCol]
      omega
    obtain ⟨hrun, hrest⟩ := ih hnext
    refine ⟨hrun, ?_⟩
    intro state hstate
    rw [checkpoints] at hstate
    rcases List.mem_append.mp hstate with hstate | hstate
    · exact hrest state hstate
    · have heq : state = editor.state := by
        by_cases hspace : isWhitespaceChar char = true
        · simpa [hspace] using hstate
        · simp [hspace] at hstate
      rw [heq]
      exact h

theorem not_runUndone {char : Text} (hchar : char ≠ []) (hlast : editor.lastAction = some .typeWord)
    (hspace : ¬ isWhitespaceChar char) : ¬ RunUndone editor (char :: chars) := by
  intro h
  have hstack := @insertCharacter_undoStack editor char
  rw [if_neg (by simp [hlast, hspace])] at hstack
  have hrun := typeRun_undoStack_of_typeWord (@insertCharacter_lastAction editor char) chars
  rw [hstack] at hrun
  have hpoints : checkpoints true editor (char :: chars) =
      checkpoints false (editor.insertCharacter char false) chars ++ [editor.state] := by
    rw [checkpoints]
    simp
  have hlength : (checkpoints true editor (char :: chars)).length =
      (checkpoints false (editor.insertCharacter char false) chars).length + 1 := by
    rw [hpoints, List.length_append, List.length_singleton]
  -- one undo too many is taken: the stack before the run must have been empty
  have hend := h.undoStack
  have hbefore := (undo_iterate hrun).2
  rw [hlength, Function.iterate_succ_apply'] at hend
  have htail : (undo (undo^[(checkpoints false (editor.insertCharacter char false) chars).length]
      ((editor.insertCharacter char false).typeRun chars))).undoStack =
        (undo^[(checkpoints false (editor.insertCharacter char false) chars).length]
          ((editor.insertCharacter char false).typeRun chars)).undoStack.tail :=
    (keepsSnapshots ⟨fun _ => [], fun _ => []⟩).1
  have hnil : editor.undoStack = [] := by
    rw [hbefore] at htail
    have hshort := congrArg List.length (htail.symm.trans hend)
    rw [List.length_tail] at hshort
    exact List.eq_nil_of_length_eq_zero (by omega)
  -- and then no undo leads back to the state before the run
  have hfirst := h.states (checkpoints false (editor.insertCharacter char false) chars).length (by omega)
  have hmem := @undo_iterate_mem ((editor.insertCharacter char false).typeRun chars) ((checkpoints false (editor.insertCharacter char false) chars).length + 1)
  rw [hrun, hnil, List.append_nil] at hmem
  have hcol : editor.state.cursorCol < (editor.insertCharacter char false).state.cursorCol := by
    rw [insertCharacter_cursorCol]
    have hpos := List.length_pos_of_ne_nil hchar
    omega
  obtain ⟨hlt, hall⟩ := lt_cursorCol_typeRun hcol chars
  have hstate : (undo^[(checkpoints false (editor.insertCharacter char false) chars).length + 1]
      ((editor.insertCharacter char false).typeRun chars)).state = editor.state := by
    refine hfirst.trans ?_
    simp [hpoints]
  rw [hstate] at hmem
  rcases List.mem_cons.mp hmem with heq | hmem
  · rw [← heq] at hlt
    exact lt_irrefl _ hlt
  · exact lt_irrefl _ (hall _ hmem)

/-- Undo does what it should after edits, typed runs and all other commands exactly when the run, if there is one,
does not follow an action recorded as typing or starts with white space. -/
theorem undo_iff (hchars : ∀ char ∈ chars, char ≠ []) :
    (EditsUndone segmenters editor ∧ RunUndone editor chars ∧ KeepsSnapshots segmenters editor) ↔
      editor.StartsUnit chars := by
  constructor
  · rintro ⟨-, hrun, -⟩
    cases chars with
    | nil => trivial
    | cons char chars =>
      by_contra hstart
      obtain ⟨hlast, hspace⟩ := not_or.mp hstart
      exact not_runUndone (hchars char List.mem_cons_self) (not_not.mp hlast) hspace hrun
  · intro hstart
    exact ⟨editsUndone segmenters, runUndone_of_startsUnit hstart, keepsSnapshots segmenters⟩

/-- `a` was typed, then a kill to the end of the line found nothing to delete. -/
def typedThenIdle (segmenters : Segmenters) : Editor :=
  Editor.initial.run segmenters [.insertCharacter (ascii "a"), .edit (.kill .deleteToEndOfLine)]

/-- No segmenter is asked. -/
def noSegments : Segmenters := ⟨fun _ => [], fun _ => []⟩

theorem undo_iff_initial :
    (EditsUndone noSegments Editor.initial ∧ RunUndone Editor.initial [ascii "a"] ∧
      KeepsSnapshots noSegments Editor.initial) ↔ Editor.initial.StartsUnit [ascii "a"] :=
  undo_iff noSegments (by decide)

/-- Then `b` is typed: the undo goes back to the empty text, past the state in which the run started. -/
theorem typedThenIdle_not_undone :
    (typedThenIdle noSegments).state.getText = ascii "a" ∧
      ((typedThenIdle noSegments).typeRun [ascii "b"]).undo.state = Editor.initial.state ∧
      ¬ (EditsUndone noSegments (typedThenIdle noSegments) ∧ RunUndone (typedThenIdle noSegments) [ascii "b"] ∧
        KeepsSnapshots noSegments (typedThenIdle noSegments)) := by
  refine ⟨by decide, by decide, ?_⟩
  rintro ⟨-, hrun, -⟩
  exact not_runUndone (by decide) (by decide) (by decide) hrun

end Editor

end Tui.Components
