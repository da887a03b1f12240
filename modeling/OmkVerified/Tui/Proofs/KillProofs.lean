import OmkVerified.Tui.Proofs.UndoProofs

/-!
# Killing and yanking

A run of kill commands gathers what it deletes in one entry of the kill ring, so that a yank puts it back. A
word command that deletes nothing still counts as a kill: a run that begins with one puts what it deletes
into the entry of an earlier run.
-/

namespace Tui.Components

open Lib StdinBuffer
open Lib.Lines (Zipper)

namespace EditorState

/-- The text before the cursor. -/
def textBefore (state : EditorState) : Text :=
  joinLines (state.lines.take state.cursorLine ++ [state.beforeCursor])

/-- The text after the cursor. -/
def textAfter (state : EditorState) : Text :=
  joinLines (state.afterCursor :: state.lines.drop (state.cursorLine + 1))

theorem ofZipper_textBefore (z : Zipper CodeUnit) : (ofZipper z).textBefore = z.before newline := by
  rw [textBefore, ofZipper_beforeCursor, ofZipper_cursorLine, ofZipper_lines, Zipper.lines, List.take_left]
  rfl

theorem ofZipper_textAfter (z : Zipper CodeUnit) : (ofZipper z).textAfter = z.after newline := by
  rw [textAfter, ofZipper_afterCursor, ofZipper_cursorLine, ofZipper_lines, Zipper.lines, List.drop_append,
    List.drop_eq_nil_of_le (Nat.le_succ _)]
  simp [joinLines, Zipper.after, Lines.join]

theorem Valid.getText {state : EditorState} (h : state.Valid) :
    state.getText = state.textBefore ++ state.textAfter := by
  obtain ⟨z, rfl⟩ := h.exists_zipper
  rw [ofZipper_getText, ofZipper_textBefore, ofZipper_textAfter]

theorem Valid.insertYankedText_getText {state : EditorState} (h : state.Valid) (text : Text) :
    (state.insertYankedText text).getText = state.textBefore ++ text ++ state.textAfter := by
  obtain ⟨z, rfl⟩ := h.exists_zipper
  rw [ofZipper_insertYankedText, ofZipper_getText, z.before_insert (splitLines_ne_nil text), z.after_insert,
    join_splitLines, ofZipper_textBefore, ofZipper_textAfter]

end EditorState

namespace Editor

variable (segmenters : Segmenters) {editor killed : Editor}

def runKills (editor : Editor) (commands : List KillCommand) : Editor :=
  commands.foldl (applyKill segmenters) editor

/-- The command has nothing to delete: the cursor is at the edge of the text. -/
def AtEdge (editor : Editor) : KillCommand → Prop
  | .deleteToStartOfLine | .deleteWordBackwards => editor.state.cursorCol = 0 ∧ editor.state.cursorLine = 0
  | .deleteToEndOfLine | .deleteWordForward =>
    editor.state.currentLine.length ≤ editor.state.cursorCol ∧
      editor.state.lines.length - 1 ≤ editor.state.cursorLine

/-- A word command inside a line whose word boundary is the cursor itself. -/
def FindsNothing (editor : Editor) : KillCommand → Prop
  | .deleteWordBackwards => editor.state.cursorCol ≠ 0 ∧
      findWordBackward (editor.segment segmenters.word) editor.state.currentLine editor.state.cursorCol =
        editor.state.cursorCol
  | .deleteWordForward => editor.state.cursorCol < editor.state.currentLine.length ∧
      findWordForward (editor.segment segmenters.word) editor.state.currentLine editor.state.cursorCol =
        editor.state.cursorCol
  | _ => False

instance (command : KillCommand) : Decidable (editor.AtEdge command) := by
  cases command <;> (unfold AtEdge; infer_instance)

instance (command : KillCommand) : Decidable (editor.FindsNothing segmenters command) := by
  cases command <;> (unfold FindsNothing; infer_instance)

/-- The command deletes something. -/
def Deletes (editor : Editor) (command : KillCommand) : Prop :=
  ¬ editor.AtEdge command ∧ ¬ editor.FindsNothing segmenters command

instance (command : KillCommand) : Decidable (editor.Deletes segmenters command) := by
  unfold Deletes
  infer_instance

/-- What a command that is not at the edge does: `deleted` is taken from before the cursor or from after it, and
goes to the kill ring. -/
structure Kills (editor killed : Editor) (deleted : Text) (toFront : Bool) : Prop where
  valid : killed.state.Valid
  before : editor.state.textBefore = killed.state.textBefore ++ if toFront then deleted else []
  after : editor.state.textAfter = (if toFront then [] else deleted) ++ killed.state.textAfter
  same : deleted = [] → killed.state = editor.state
  pastes : killed.pastes = editor.pastes
  killRing : killed.killRing = pushKill editor.killRing deleted toFront (editor.lastAction = some .kill)
  lastAction : killed.lastAction = some .kill

/-- The text between two zippers is deleted, before the cursor or after it. -/
theorem kills_between (toFront : Bool) {z z' : Zipper CodeUnit} {state' : EditorState}
    {deleted : Text} (hstate : editor.state = .ofZipper z) (hnew : state' = .ofZipper z')
    (hbefore : z.before newline = z'.before newline ++ if toFront then deleted else [])
    (hafter : z.after newline = (if toFront then [] else deleted) ++ z'.after newline)
    (hsame : deleted = [] → z' = z) :
    Kills editor ({ editor with historyIndex := -1 }.kill deleted toFront state') deleted toFront where
  valid := by
    rw [kill, hnew]
    exact EditorState.ofZipper_valid z'
  before := by
    rw [hstate, EditorState.ofZipper_textBefore, hbefore, kill, hnew, EditorState.ofZipper_textBefore]
  after := by
    rw [hstate, EditorState.ofZipper_textAfter, hafter, kill, hnew, EditorState.ofZipper_textAfter]
  same := by
    intro hnil
    rw [hstate, ← hsame hnil, kill, hnew]
  pastes := rfl
  killRing := rfl
  lastAction := rfl

section

variable {above below : List Text} {left right kept deleted line : Text}

theorem kills_left (hstate : editor.state = .ofZipper ⟨above, left, right, below⟩) (hleft : left = kept ++ deleted) :
    Kills editor ({ editor with historyIndex := -1 }.kill deleted true
      (editor.state.setCurrentLine (kept ++ right) kept.length)) deleted true := by
  have hnew := EditorState.ofZipper_setCurrentLine ⟨above, left, right, below⟩ kept right
  rw [← hstate] at hnew
  refine kills_between true hstate hnew ?_ rfl ?_
  · rw [hleft]
    exact Zipper.before_append _ _ _ _ _
  · rintro rfl
    rw [hleft, List.append_nil]

theorem kills_right (hstate : editor.state = .ofZipper ⟨above, left, right, below⟩) (hright : right = deleted ++ kept) :
    Kills editor ({ editor with historyIndex := -1 }.kill deleted false
      (editor.state.setCurrentLine (left ++ kept) left.length)) deleted false := by
  have hnew := EditorState.ofZipper_setCurrentLine ⟨above, left, right, below⟩ left kept
  rw [← hstate] at hnew
  refine kills_between false hstate hnew (List.append_nil _).symm ?_ ?_
  · rw [hright]
    exact Zipper.after_append _ _ _ _ _
  · rintro rfl
    rw [hright, List.nil_append]

theorem kills_previous (hstate : editor.state = .ofZipper ⟨above ++ [line], [], right, below⟩) :
    Kills editor ({ editor with historyIndex := -1 }.kill [newline] true editor.state.mergeWithPrevious)
      [newline] true := by
  have hnew := EditorState.ofZipper_mergeWithPrevious above below line right
  rw [← hstate] at hnew
  refine kills_between true hstate hnew (Zipper.before_concat _ _ _ _ _ _) rfl ?_
  intro hnil
  cases hnil

theorem kills_next (hstate : editor.state = .ofZipper ⟨above, left, [], line :: below⟩) :
    Kills editor ({ editor with historyIndex := -1 }.kill [newline] false editor.state.mergeWithNext)
      [newline] false := by
  have hnew := EditorState.ofZipper_mergeWithNext above below left line
  rw [← hstate] at hnew
  refine kills_between false hstate hnew (List.append_nil _).symm (Zipper.after_cons _ _ _ _ _ _) ?_
  intro hnil
  cases hnil

end

theorem findWordBackward_le {segment : Segmenter} {text : Text} {cursor : Nat} :
    findWordBackward segment text cursor ≤ cursor := by
  unfold findWordBackward
  split_ifs
  · omega
  · dsimp only
    split
    · omega
    · split_ifs <;> omega

theorem le_findWordForward {segment : Segmenter} {text : Text} {cursor : Nat} (h : cursor < text.length) :
    cursor ≤ findWordForward segment text cursor := by
  unfold findWordForward
  rw [if_neg (not_le.mpr h)]
  dsimp only
  split
  · omega
  · split_ifs <;> omega

/-- What a kill command does: nothing at the edge of the text, and otherwise it deletes something unless it
finds nothing. -/
def Outcome (editor killed : Editor) (command : KillCommand) : Prop :=
  (editor.AtEdge command ∧ killed = { editor with historyIndex := -1 }) ∨
    ¬ editor.AtEdge command ∧
      ∃ deleted toFront, Kills editor killed deleted toFront ∧ (deleted = [] ↔ editor.FindsNothing segmenters command)

theorem exists_kills_previous (h : editor.state.Valid) (hcol : editor.state.cursorCol = 0)
    (hline : editor.state.cursorLine > 0) :
    Kills editor ({ editor with historyIndex := -1 }.kill [newline] true editor.state.mergeWithPrevious)
      [newline] true := by
  obtain ⟨⟨above, left, right, below⟩, hstate⟩ := h.exists_zipper
  rw [hstate] at hcol hline
  have hleft : left = [] := List.eq_nil_of_length_eq_zero hcol
  obtain ⟨above, line, rfl⟩ := (List.eq_nil_or_concat above).resolve_left (List.ne_nil_of_length_pos hline)
  subst hleft
  rw [List.concat_eq_append] at hstate
  exact kills_previous hstate

/-- At the end of a line the line break behind it goes, if there is one. -/
theorem exists_kills_next (h : editor.state.Valid) (hcol : editor.state.currentLine.length ≤ editor.state.cursorCol)
    (hline : editor.state.cursorLine < editor.state.lines.length - 1) :
    Kills editor ({ editor with historyIndex := -1 }.kill [newline] false editor.state.mergeWithNext)
      [newline] false := by
  obtain ⟨⟨above, left, right, below⟩, hstate⟩ := h.exists_zipper
  rw [hstate, EditorState.ofZipper_currentLine, EditorState.ofZipper_cursorCol, List.length_append] at hcol
  rw [hstate, EditorState.ofZipper_cursorLine, EditorState.ofZipper_lines, Zipper.lines, List.length_append,
    List.length_cons] at hline
  have hright : right = [] := List.eq_nil_of_length_eq_zero (by
    simp only at hcol
    omega)
  subst hright
  cases below with
  | nil => simp at hline
  | cons line below => exact kills_next hstate

theorem outcome_deleteToStartOfLine (h : editor.state.Valid) :
    Outcome segmenters editor editor.deleteToStartOfLine .deleteToStartOfLine := by
  unfold deleteToStartOfLine
  dsimp only
  split_ifs with hcol hline
  · obtain ⟨⟨above, left, right, below⟩, hstate⟩ := h.exists_zipper
    have hkills := kills_left hstate (List.nil_append left).symm
    refine .inr ⟨fun hedge => hcol.ne' hedge.1, left, true, ?_, iff_of_false ?_ id⟩
    · rw [hstate] at hkills ⊢
      simpa using hkills
    · rw [hstate] at hcol
      exact List.ne_nil_of_length_pos hcol
  · have hkills := exists_kills_previous h (by omega) hline
    exact .inr ⟨fun hedge => hline.ne' hedge.2, [newline], true, hkills, iff_of_false (by simp) id⟩
  · exact .inl ⟨⟨by omega, by omega⟩, rfl⟩

theorem outcome_deleteToEndOfLine (h : editor.state.Valid) :
    Outcome segmenters editor editor.deleteToEndOfLine .deleteToEndOfLine := by
  unfold deleteToEndOfLine
  dsimp only
  split_ifs with hcol hline
  · obtain ⟨⟨above, left, right, below⟩, hstate⟩ := h.exists_zipper
    have hkills := kills_right hstate (List.append_nil right).symm
    refine .inr ⟨fun hedge => absurd hedge.1 (by omega), right, false, ?_, iff_of_false ?_ id⟩
    · rw [hstate] at hkills ⊢
      simpa using hkills
    · rintro rfl
      rw [hstate] at hcol
      simp at hcol
  · have hkills := exists_kills_next h (by omega) hline
    exact .inr ⟨fun hedge => absurd hedge.2 (by omega), [newline], false, hkills, iff_of_false (by simp) id⟩
  · exact .inl ⟨⟨by omega, by omega⟩, rfl⟩

theorem outcome_deleteWordBackwards (h : editor.state.Valid) :
    Outcome segmenters editor (editor.deleteWordBackwards segmenters) .deleteWordBackwards := by
  unfold deleteWordBackwards
  dsimp only
  split_ifs with hcol hline
  · have hkills := exists_kills_previous h hcol hline
    exact .inr ⟨fun hedge => hline.ne' hedge.2, [newline], true, hkills,
      iff_of_false (by simp) fun hnothing => hnothing.1 hcol⟩
  · exact .inl ⟨⟨hcol, by omega⟩, rfl⟩
  · obtain ⟨⟨above, left, right, below⟩, hstate⟩ := h.exists_zipper
    have hsegment : ({ editor with historyIndex := -1 } : Editor).segment segmenters.word =
        editor.segment segmenters.word := rfl
    rw [hsegment]
    have hle : findWordBackward (editor.segment segmenters.word) editor.state.currentLine editor.state.cursorCol ≤
        editor.state.cursorCol := findWordBackward_le
    have hnothing : editor.FindsNothing segmenters .deleteWordBackwards ↔
        findWordBackward (editor.segment segmenters.word) editor.state.currentLine editor.state.cursorCol =
          editor.state.cursorCol := and_iff_right hcol
    generalize findWordBackward _ _ _ = k at hle hnothing ⊢
    have hleft : editor.state.cursorCol = left.length := by
      rw [hstate]
      rfl
    rw [hleft] at hle
    have hkills := kills_left hstate (List.take_append_drop k left).symm
    have hkept : (left.take k).length = k := List.length_take_of_le hle
    refine .inr ⟨fun hedge => hcol hedge.1, left.drop k, true, ?_, ?_⟩
    · rw [hstate, hkept] at hkills
      rw [hstate]
      simpa [List.take_append_of_le_length hle] using hkills
    · rw [hnothing, hleft, List.drop_eq_nil_iff]
      omega

theorem outcome_deleteWordForward (h : editor.state.Valid) :
    Outcome segmenters editor (editor.deleteWordForward segmenters) .deleteWordForward := by
  unfold deleteWordForward
  dsimp only
  split_ifs with hcol hline
  · have hkills := exists_kills_next h hcol hline
    exact .inr ⟨fun hedge => absurd hedge.2 (by omega), [newline], false, hkills,
      iff_of_false (by simp) fun hnothing => absurd hnothing.1 (by omega)⟩
  · exact .inl ⟨⟨hcol, by omega⟩, rfl⟩
  · obtain ⟨⟨above, left, right, below⟩, hstate⟩ := h.exists_zipper
    have hsegment : ({ editor with historyIndex := -1 } : Editor).segment segmenters.word =
        editor.segment segmenters.word := rfl
    rw [hsegment]
    have hge := @le_findWordForward (editor.segment segmenters.word) _ _ (not_le.mp hcol)
    have hnothing : editor.FindsNothing segmenters .deleteWordForward ↔
        findWordForward (editor.segment segmenters.word) editor.state.currentLine editor.state.cursorCol =
          editor.state.cursorCol := and_iff_right (not_le.mp hcol)
    generalize findWordForward _ _ _ = k at hge hnothing ⊢
    have hleft : editor.state.cursorCol = left.length := by
      rw [hstate]
      rfl
    rw [hleft] at hge
    obtain ⟨n, rfl⟩ := Nat.exists_eq_add_of_le hge
    have hright : right ≠ [] := by
      rintro rfl
      rw [hstate] at hcol
      simp at hcol
    have hkills := kills_right hstate (List.take_append_drop n right).symm
    refine .inr ⟨fun hedge => hcol hedge.1, right.take n, false, ?_, ?_⟩
    · rw [hstate] at hkills ⊢
      simpa [List.take_append, List.drop_length_add_append] using hkills
    · rw [hnothing, hleft, List.take_eq_nil_iff, or_iff_left hright]
      omega

theorem outcome_applyKill (h : editor.state.Valid) (command : KillCommand) :
    Outcome segmenters editor (editor.applyKill segmenters command) command := by
  cases command with
  | deleteToStartOfLine => exact outcome_deleteToStartOfLine segmenters h
  | deleteToEndOfLine => exact outcome_deleteToEndOfLine segmenters h
  | deleteWordBackwards => exact outcome_deleteWordBackwards segmenters h
  | deleteWordForward => exact outcome_deleteWordForward segmenters h

/-! ## A run of kills -/

theorem pushKill_nil (ring : List Text) (toFront accumulate : Bool) : pushKill ring [] toFront accumulate = ring :=
  if_pos rfl

/-- A kill after a kill goes on with the latest entry. -/
theorem pushKill_accumulate (last : Text) (older : List Text) (text : Text) (toFront : Bool) :
    pushKill (last :: older) text toFront true = (if toFront then text ++ last else last ++ text) :: older := by
  unfold pushKill
  split_ifs with hnil hfront
  · rw [hnil, List.nil_append]
  · rw [hnil, List.append_nil]
  all_goals rfl

/-- Any other kill starts an entry. -/
theorem pushKill_fresh {ring : List Text} {text : Text} {accumulate : Bool} (htext : text ≠ []) (toFront : Bool)
    (h : ring = [] ∨ accumulate = false) : pushKill ring text toFront accumulate = text :: ring := by
  unfold pushKill
  rw [if_neg htext]
  rcases h with rfl | rfl
  · cases accumulate <;> rfl
  · rfl

section

variable {start : Editor} {middle : Text} {older : List Text} {stumbled : Prop}

/-- Once something was deleted: the latest entry is what was deleted before the cursor and after it, around what
the entry held before. -/
structure Gathered (start editor : Editor) (middle : Text) (older : List Text) : Prop where
  valid : editor.state.Valid
  lastAction : editor.lastAction = some .kill
  texts : ∃ front back, start.state.textBefore = editor.state.textBefore ++ front ∧
    start.state.textAfter = back ++ editor.state.textAfter ∧
    editor.killRing = (front ++ middle ++ back) :: older

/-- Before anything was deleted: only the last action may have changed. -/
structure Waits (start editor : Editor) (stumbled : Prop) : Prop where
  state : editor.state = start.state
  pastes : editor.pastes = start.pastes
  killRing : editor.killRing = start.killRing
  lastAction : editor.lastAction = some .kill ↔ stumbled

theorem Gathered.applyKill (h : Gathered start editor middle older) (command : KillCommand) :
    Gathered start (editor.applyKill segmenters command) middle older := by
  obtain ⟨front, back, hfront, hback, hring⟩ := h.texts
  rcases outcome_applyKill segmenters h.valid command with ⟨-, heq⟩ | ⟨-, deleted, toFront, hkills, -⟩
  · rw [heq]
    exact ⟨h.valid, h.lastAction, front, back, hfront, hback, hring⟩
  · have hnew := hkills.killRing
    have hbefore := hkills.before
    have hafter := hkills.after
    refine ⟨hkills.valid, hkills.lastAction, ?_⟩
    rw [hring, h.lastAction, decide_eq_true rfl, pushKill_accumulate] at hnew
    cases toFront with
    | true =>
      refine ⟨deleted ++ front, back, ?_, ?_, ?_⟩
      · rw [hfront, hbefore, if_pos rfl, List.append_assoc]
      · rw [hback, hafter, if_pos rfl, List.nil_append]
      · simpa using hnew
    | false =>
      refine ⟨front, back ++ deleted, ?_, ?_, ?_⟩
      · rw [hfront, hbefore]
        simp
      · rw [hback, hafter]
        simp
      · simpa using hnew

theorem Gathered.runKills (h : Gathered start editor middle older) (commands : List KillCommand) :
    Gathered start (editor.runKills segmenters commands) middle older := by
  induction commands generalizing editor with
  | nil => exact h
  | cons command commands ih => exact ih (h.applyKill segmenters command)

theorem Gathered.yank_getText (h : Gathered start editor middle older) (hstart : start.state.Valid) :
    editor.yank.state.getText = start.state.getText ↔ middle = [] := by
  obtain ⟨front, back, hfront, hback, hring⟩ := h.texts
  have hyank : editor.yank.state = editor.state.insertYankedText (front ++ middle ++ back) := by
    rw [yank, hring]
  rw [hyank, h.valid.insertYankedText_getText, hstart.getText, hfront, hback]
  constructor
  · intro heq
    have hlength := congrArg List.length heq
    simp only [List.length_append] at hlength
    exact List.eq_nil_of_length_eq_zero (by omega)
  · rintro rfl
    simp

theorem Waits.atEdge_iff (h : Waits start editor stumbled) (command : KillCommand) :
    editor.AtEdge command ↔ start.AtEdge command := by
  cases command <;> simp only [AtEdge, h.state]

theorem Waits.findsNothing_iff (h : Waits start editor stumbled) (command : KillCommand) :
    editor.FindsNothing segmenters command ↔ start.FindsNothing segmenters command := by
  have hsegment : editor.segment segmenters.word = start.segment segmenters.word := by
    funext text
    rw [segment, segment, validPasteIds, validPasteIds, h.pastes]
  cases command <;> simp only [FindsNothing, h.state, hsegment]

theorem not_findsNothing_of_atEdge {command : KillCommand} (h : editor.AtEdge command) :
    ¬ editor.FindsNothing segmenters command := by
  intro hnothing
  cases command with
  | deleteToStartOfLine => exact hnothing
  | deleteToEndOfLine => exact hnothing
  | deleteWordBackwards => exact hnothing.1 h.1
  | deleteWordForward => exact absurd hnothing.1 (not_lt.mpr h.1)

/-- The first deletion of a run starts a new entry, unless a word command that found nothing came before it and
there is an entry to go on with. -/
theorem Waits.gathered (h : Waits start editor stumbled) (hvalid : start.state.Valid)
    (hring : ∀ entry ∈ start.killRing, entry ≠ []) {command : KillCommand} (hdeletes : start.Deletes segmenters command) :
    ∃ middle older, Gathered start (editor.applyKill segmenters command) middle older ∧
      (middle = [] ↔ start.killRing = [] ∨ ¬ stumbled) := by
  have hstate : editor.state.Valid := h.state ▸ hvalid
  rcases outcome_applyKill segmenters hstate command with ⟨hedge, -⟩ | ⟨-, deleted, toFront, hkills, hnil⟩
  · exact absurd ((h.atEdge_iff command).mp hedge) hdeletes.1
  · have hdeleted : deleted ≠ [] := by
      intro hd
      exact hdeletes.2 ((h.findsNothing_iff segmenters command).mp (hnil.mp hd))
    have hbefore := hkills.before
    have hafter := hkills.after
    have hnew := hkills.killRing
    rw [h.state] at hbefore hafter
    rw [h.killRing] at hnew
    by_cases hold : start.killRing = [] ∨ ¬ stumbled
    · refine ⟨[], start.killRing, ⟨hkills.valid, hkills.lastAction, ?_⟩, iff_of_true rfl hold⟩
      have hfresh : (editor.applyKill segmenters command).killRing = deleted :: start.killRing := by
        rw [hnew]
        refine pushKill_fresh hdeleted toFront ?_
        rcases hold with hempty | hfirst
        · exact .inl hempty
        · exact .inr (decide_eq_false fun hkill => hfirst (h.lastAction.mp hkill))
      cases toFront with
      | true => exact ⟨deleted, [], hbefore, hafter, by simpa using hfresh⟩
      | false => exact ⟨[], deleted, hbefore, hafter, by simpa using hfresh⟩
    · obtain ⟨hne, hstumbled⟩ := not_or.mp hold
      obtain ⟨last, older, hlast⟩ := List.exists_cons_of_ne_nil hne
      have hkill := h.lastAction.mpr (not_not.mp hstumbled)
      refine ⟨last, older, ⟨hkills.valid, hkills.lastAction, ?_⟩, iff_of_false ?_ hold⟩
      · rw [hlast, hkill, decide_eq_true rfl, pushKill_accumulate] at hnew
        cases toFront with
        | true => exact ⟨deleted, [], hbefore, hafter, by simpa using hnew⟩
        | false => exact ⟨[], deleted, hbefore, hafter, by simpa using hnew⟩
      · exact hring last (by simp [hlast])

/-- No word command of the run finds nothing before the first command that deletes something. -/
def Fresh (editor : Editor) (commands : List KillCommand) : Prop :=
  ∀ command ∈ commands.takeWhile fun command => ¬ editor.Deletes segmenters command,
    ¬ editor.FindsNothing segmenters command

instance (commands : List KillCommand) : Decidable (editor.Fresh segmenters commands) := by
  unfold Fresh
  infer_instance

theorem Waits.runKills (h : Waits start editor stumbled) (hvalid : start.state.Valid)
    (hring : ∀ entry ∈ start.killRing, entry ≠ []) {commands : List KillCommand}
    (hdeletes : ∃ command ∈ commands, start.Deletes segmenters command) :
    ∃ middle older, Gathered start (editor.runKills segmenters commands) middle older ∧
      (middle = [] ↔ start.killRing = [] ∨ ¬ stumbled ∧ start.Fresh segmenters commands) := by
  induction commands generalizing editor stumbled with
  | nil =>
    obtain ⟨command, hmem, -⟩ := hdeletes
    cases hmem
  | cons command commands ih =>
    by_cases hfirst : start.Deletes segmenters command
    · obtain ⟨middle, older, hgathered, hmiddle⟩ := h.gathered segmenters hvalid hring hfirst
      have hfresh : start.Fresh segmenters (command :: commands) := by
        intro other hother
        rw [List.takeWhile_cons_of_neg (by simpa using hfirst)] at hother
        cases hother
      refine ⟨middle, older, hgathered.runKills segmenters commands, ?_⟩
      rw [hmiddle, and_iff_left hfresh]
    · have hrest : ∃ command ∈ commands, start.Deletes segmenters command := by
        obtain ⟨other, hmem, hother⟩ := hdeletes
        rcases List.mem_cons.mp hmem with rfl | hmem
        · exact absurd hother hfirst
        · exact ⟨other, hmem, hother⟩
      have hfresh : start.Fresh segmenters (command :: commands) ↔
          ¬ start.FindsNothing segmenters command ∧ start.Fresh segmenters commands := by
        rw [Fresh, List.takeWhile_cons_of_pos (by simpa using hfirst), List.forall_mem_cons]
        rfl
      have hstate : editor.state.Valid := h.state ▸ hvalid
      rcases outcome_applyKill segmenters hstate command with ⟨hedge, heq⟩ | ⟨hedge, deleted, toFront, hkills, hnil⟩
      · -- at the edge of the text nothing happens
        have hwaits : Waits start (editor.applyKill segmenters command) stumbled := by
          rw [heq]
          exact ⟨h.state, h.pastes, h.killRing, h.lastAction⟩
        have hfinds := not_findsNothing_of_atEdge segmenters ((h.atEdge_iff command).mp hedge)
        rw [hfresh, and_iff_right hfinds]
        exact ih hwaits hrest
      · -- a word command that finds nothing still counts as a kill
        have hedge' := (h.atEdge_iff command).not.mp hedge
        have hfinds : start.FindsNothing segmenters command := by
          by_contra hno
          exact hfirst ⟨hedge', hno⟩
        have hempty := hnil.mpr ((h.findsNothing_iff segmenters command).mpr hfinds)
        have hwaits : Waits start (editor.applyKill segmenters command) True := by
          refine ⟨(hkills.same hempty).trans h.state, hkills.pastes.trans h.pastes, ?_,
            iff_of_true hkills.lastAction trivial⟩
          rw [hkills.killRing, hempty, pushKill_nil, h.killRing]
        obtain ⟨middle, older, hgathered, hmiddle⟩ := ih hwaits hrest
        refine ⟨middle, older, hgathered, ?_⟩
        rw [hmiddle, hfresh]
        tauto

end

/-! ## Yanking and yank-pop -/

/-- The entry that the `k`-th yank-pop brings, the latest for zero. -/
def olderEntry (ring : List Text) (k : Nat) : Text := ring.getD (k % ring.length) []

/-- After a yank at `start` and `k` yank-pops. -/
structure Popped (start editor : Editor) (k : Nat) : Prop where
  state : editor.state = start.state.insertYankedText (olderEntry start.killRing k)
  killRing : editor.killRing = start.killRing.rotate k
  lastAction : editor.lastAction = some .yank

theorem popped_yank {start : Editor} (hring : start.killRing ≠ []) : Popped start start.yank 0 := by
  obtain ⟨text, older, hcons⟩ := List.exists_cons_of_ne_nil hring
  have hyank : start.yank = { start.pushUndoSnapshot with
      historyIndex := -1, state := start.state.insertYankedText text, lastAction := some .yank } := by
    rw [yank, hcons]
  rw [hyank]
  exact ⟨by rw [hcons]; rfl, by rw [List.rotate_zero]; rfl, rfl⟩

theorem rotate_eq (ring : List Text) : rotate ring = ring.rotate 1 := by
  cases ring with
  | nil => rfl
  | cons last older => rw [rotate, List.rotate_cons_succ, List.rotate_zero]

theorem getD_rotate {ring : List Text} (k i : Nat) (hi : i < ring.length) :
    (ring.rotate k).getD i [] = olderEntry ring (k + i) := by
  rw [olderEntry, List.getD_eq_getElem?_getD, List.getD_eq_getElem?_getD, List.getElem?_rotate hi, Nat.add_comm]

theorem Popped.yankPop {start editor : Editor} {k : Nat} (h : Popped start editor k) (hvalid : start.state.Valid)
    (hring : start.killRing ≠ []) : Popped start editor.yankPop (k + 1) := by
  have hpos : 0 < start.killRing.length := List.length_pos_of_ne_nil hring
  have hlength : editor.killRing.length = start.killRing.length := by rw [h.killRing, List.length_rotate]
  rcases hcases : editor.killRing with _ | ⟨yanked, _ | ⟨text, older⟩⟩
  · rw [hcases] at hlength
    exact absurd hlength.symm hpos.ne'
  · -- a single entry comes back again and again
    have hsame : editor.yankPop = editor := by rw [Editor.yankPop, hcases]
    rw [hcases, List.length_singleton] at hlength
    rw [hsame]
    refine ⟨?_, ?_, h.lastAction⟩
    · rw [h.state, olderEntry, olderEntry, ← hlength, Nat.mod_one, Nat.mod_one]
    · rw [h.killRing, ← List.rotate_mod start.killRing k, ← List.rotate_mod start.killRing (k + 1), ← hlength,
        Nat.mod_one, Nat.mod_one]
  · rw [hcases, List.length_cons, List.length_cons] at hlength
    have hyanked := @getD_rotate start.killRing k 0 (by omega)
    have htext := @getD_rotate start.killRing k 1 (by omega)
    rw [← h.killRing, hcases, List.getD_cons_zero, Nat.add_zero] at hyanked
    rw [← h.killRing, hcases, List.getD_cons_succ, List.getD_cons_zero] at htext
    have hpop : editor.yankPop = { editor.pushUndoSnapshot with
        historyIndex := -1
        killRing := rotate (yanked :: text :: older)
        state := (editor.state.deleteYankedText yanked).insertYankedText text
        lastAction := some .yank } := by
      rw [Editor.yankPop, hcases]
      exact if_pos h.lastAction
    rw [hpop]
    refine ⟨?_, ?_, rfl⟩
    · change (editor.state.deleteYankedText yanked).insertYankedText text = _
      rw [h.state, hyanked, htext, EditorState.deleteYankedText_insertYankedText hvalid]
    · change rotate (yanked :: text :: older) = _
      rw [← hcases, rotate_eq, h.killRing, List.rotate_rotate]

theorem popped_iterate {start : Editor} (hvalid : start.state.Valid) (hring : start.killRing ≠ []) (k : Nat) :
    Popped start (yankPop^[k] start.yank) k := by
  induction k with
  | zero => exact popped_yank hring
  | succ k ih =>
    rw [Function.iterate_succ_apply']
    exact ih.yankPop hvalid hring

/-! ## The property -/

/-- The editor's own invariant: the cursor stands in a line, and no entry of the kill ring is empty. -/
structure Valid (editor : Editor) : Prop where
  state : editor.state.Valid
  killRing : ∀ entry ∈ editor.killRing, entry ≠ []

/-- A yank after the run restores the text before it. -/
def YankRestores (editor : Editor) (commands : List KillCommand) : Prop :=
  (editor.runKills segmenters commands).yank.state.getText = editor.state.getText

/-- The `k`-th yank-pop after a yank leaves what inserting the `k`-th older entry would leave, and as many
yank-pops as there are entries leave what the yank left. -/
structure PopsCycle (editor : Editor) : Prop where
  pop : ∀ k, (yankPop^[k] editor.yank).state = editor.state.insertYankedText (olderEntry editor.killRing k)
  cycle : (yankPop^[editor.killRing.length] editor.yank).state = editor.yank.state

theorem popsCycle (h : editor.Valid) (hring : editor.killRing ≠ []) : PopsCycle editor where
  pop := fun k => (popped_iterate h.state hring k).state
  cycle := by
    rw [(popped_iterate h.state hring editor.killRing.length).state, (popped_yank hring).state, olderEntry,
      olderEntry, Nat.mod_self, Nat.zero_mod]

/-- A yank restores the text before a run that deletes something, and yank-pops go round the ring, exactly when
the ring was empty or no word command of the run finds nothing before the first deletion. -/
theorem killRun_iff (h : editor.Valid) (hlast : editor.lastAction ≠ some .kill) {commands : List KillCommand}
    (hdeletes : ∃ command ∈ commands, editor.Deletes segmenters command) :
    (YankRestores segmenters editor commands ∧
        ∀ other : Editor, other.Valid → other.killRing ≠ [] → PopsCycle other) ↔
      editor.killRing = [] ∨ editor.Fresh segmenters commands := by
  have hwaits : Waits editor editor False := ⟨rfl, rfl, rfl, iff_of_false hlast id⟩
  obtain ⟨middle, older, hgathered, hmiddle⟩ := hwaits.runKills segmenters h.state h.killRing hdeletes
  rw [and_iff_left fun other => popsCycle, YankRestores, hgathered.yank_getText h.state, hmiddle]
  simp

/-- A segmenter that takes a text for one word, as the word segmenter does with a Hebrew letter and an
apostrophe. -/
def oneWord : Segmenters where
  word := fun text => [{ segment := text, index := 0, isWordLike := true }]
  grapheme := fun text => [{ segment := text, index := 0 }]

/-- `old` was killed, then the text became a Hebrew letter and an apostrophe. -/
def hebrew : Editor := (initial.setText (ascii "old")).deleteToStartOfLine.setText [0x5d2, 0x27]

theorem hebrew_valid : hebrew.Valid := ⟨⟨by decide, by decide⟩, by decide⟩

theorem killRun_iff_hebrew :
    (YankRestores oneWord hebrew [.deleteToStartOfLine] ∧
        ∀ other : Editor, other.Valid → other.killRing ≠ [] → PopsCycle other) ↔
      hebrew.killRing = [] ∨ hebrew.Fresh oneWord [.deleteToStartOfLine] :=
  killRun_iff oneWord hebrew_valid (by decide) ⟨.deleteToStartOfLine, by decide, by decide⟩

/-- The word command finds the apostrophe at the cursor and deletes nothing; what is deleted next goes to the entry
`old`, and the yank brings that back too. -/
theorem hebrew_not_restored :
    hebrew.Valid ∧ hebrew.lastAction ≠ some .kill ∧
      (∃ command ∈ [KillCommand.deleteWordBackwards, .deleteToStartOfLine], hebrew.Deletes oneWord command) ∧
      hebrew.state.getText = [0x5d2, 0x27] ∧
      (hebrew.runKills oneWord [.deleteWordBackwards, .deleteToStartOfLine]).yank.state.getText =
        [0x5d2, 0x27] ++ ascii "old" ∧
      ¬ YankRestores oneWord hebrew [.deleteWordBackwards, .deleteToStartOfLine] := by
  refine ⟨hebrew_valid, by decide, ⟨.deleteToStartOfLine, by decide, by decide⟩, by decide, by decide, ?_⟩
  unfold YankRestores
  decide

end Editor

end Tui.Components
