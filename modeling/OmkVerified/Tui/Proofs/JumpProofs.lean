import OmkVerified.Tui.Editor

/-!
# Jumping to a character

Positions are compared in document order: by line, then by column. A jump should go to the nearest occurrence
beyond the cursor. Going backward it does, except from the first column of a line that starts with the
character: the search there starts at column `-1`, which `lastIndexOf` takes as column `0`.
-/

namespace Tui.Components

open Lib StdinBuffer

/-- A position in document order. -/
abbrev Position := ℕ ×ₗ ℕ

namespace EditorState

variable {state : EditorState} {char : Text} {direction : Direction}

def position (state : EditorState) : Position := toLex (state.cursorLine, state.cursorCol)

/-- Where the character stands. -/
def occurrences (state : EditorState) (char : Text) : Set Position :=
  {p | char <+: (state.lineAt (ofLex p).1).drop (ofLex p).2}

/-- Where the character stands beyond the cursor. -/
def ahead (state : EditorState) (char : Text) : Direction → Set Position
  | .forward => {p ∈ state.occurrences char | state.position < p}
  | .backward => {p ∈ state.occurrences char | p < state.position}

/-- The first position, or the last one going backward. -/
def Nearest (positions : Set Position) : Direction → Position → Prop
  | .forward => IsLeast positions
  | .backward => IsGreatest positions

/-- What a jump should do: the cursor goes to the nearest occurrence beyond it, and stays exactly when there is
none. -/
structure Jumps (state : EditorState) (char : Text) (direction : Direction) (after : EditorState) : Prop where
  lines : after.lines = state.lines
  nearest : (state.ahead char direction).Nonempty →
    Nearest (state.ahead char direction) direction after.position
  stays_iff : after.position = state.position ↔ state.ahead char direction = ∅

/-- The cursor is in the first column of a line that starts with the character. -/
def OnFirst (state : EditorState) (char : Text) : Prop := state.cursorCol = 0 ∧ char <+: state.currentLine

theorem lt_length_of_prefix (hchar : char ≠ []) {line : Text} {col : Nat} (h : char <+: line.drop col) :
    col < line.length := by
  have hlength := h.length_le
  have hpos := List.length_pos_of_ne_nil hchar
  rw [List.length_drop] at hlength
  omega

theorem lineAt_of_length_le {l : Nat} (h : state.lines.length ≤ l) : state.lineAt l = [] := by
  rw [lineAt, List.getD_eq_default _ _ h]

theorem lt_lines_of_prefix (hchar : char ≠ []) {l col : Nat} (h : char <+: (state.lineAt l).drop col) :
    l < state.lines.length := by
  by_contra hl
  rw [lineAt_of_length_le (not_lt.mp hl), List.drop_nil] at h
  exact hchar (List.prefix_nil.mp h)

/-! ## Searching a line -/

theorem indexOf_eq_some {part text : Text} {start i : Nat} (hpart : part ≠ []) (h : indexOf part text start = some i) :
    start ≤ i ∧ part <+: text.drop i ∧ ∀ j, start ≤ j → part <+: text.drop j → j = i ∨ i < j := by
  obtain ⟨hi, hpre, hfirst⟩ := find?_first List.pairwise_lt_range' h
  rw [List.mem_range'_1] at hi
  rw [List.isPrefixOf_iff_prefix] at hpre
  refine ⟨hi.1, hpre, ?_⟩
  intro j hj hpre
  have hlt := lt_length_of_prefix hpart hpre
  refine hfirst j ?_ (List.isPrefixOf_iff_prefix.mpr hpre)
  rw [List.mem_range'_1]
  omega

theorem indexOf_eq_none {part text : Text} {start : Nat} (hpart : part ≠ []) (h : indexOf part text start = none) :
    ∀ j, start ≤ j → ¬ part <+: text.drop j := by
  intro j hj hpre
  have hlt := lt_length_of_prefix hpart hpre
  have hno := List.find?_eq_none.mp h j (by
    rw [List.mem_range'_1]
    omega)
  exact hno (List.isPrefixOf_iff_prefix.mpr hpre)

theorem pairwise_gt_reverse_range (n : Nat) : (List.range n).reverse.Pairwise (· > ·) := by
  rw [List.pairwise_reverse]
  exact List.pairwise_lt_range

theorem lastIndexOf_eq_some {part text : Text} {start : Int} {i : Nat} (hpart : part ≠ [])
    (h : lastIndexOf part text start = some i) :
    i ≤ start.toNat ∧ part <+: text.drop i ∧ ∀ j, j ≤ start.toNat → part <+: text.drop j → j = i ∨ i > j := by
  obtain ⟨hi, hfound, hlast⟩ := find?_first (pairwise_gt_reverse_range _) h
  rw [List.mem_reverse, List.mem_range] at hi
  rw [Bool.and_eq_true, List.isPrefixOf_iff_prefix] at hfound
  refine ⟨by omega, hfound.2, ?_⟩
  intro j hj hpre
  have hlt := lt_length_of_prefix hpart hpre
  refine hlast j ?_ ?_
  · rw [List.mem_reverse, List.mem_range]
    omega
  · rw [Bool.and_eq_true, List.isPrefixOf_iff_prefix, decide_eq_true_eq]
    exact ⟨hlt.le, hpre⟩

theorem lastIndexOf_eq_none {part text : Text} {start : Int} (hpart : part ≠ [])
    (h : lastIndexOf part text start = none) : ∀ j, j ≤ start.toNat → ¬ part <+: text.drop j := by
  intro j hj hpre
  have hlt := lt_length_of_prefix hpart hpre
  have hno := List.find?_eq_none.mp h j (by
    rw [List.mem_reverse, List.mem_range]
    omega)
  rw [Bool.and_eq_true, List.isPrefixOf_iff_prefix, decide_eq_true_eq] at hno
  exact hno ⟨hlt.le, hpre⟩

/-! ## Searching the text -/

theorem mem_ahead_forward {l c : Nat} :
    toLex (l, c) ∈ state.ahead char .forward ↔ char <+: (state.lineAt l).drop c ∧
      (state.cursorLine < l ∨ state.cursorLine = l ∧ state.cursorCol < c) := by
  rw [ahead, Set.mem_ofPred_eq, position, Prod.Lex.toLex_lt_toLex]
  rfl

theorem mem_ahead_backward {l c : Nat} :
    toLex (l, c) ∈ state.ahead char .backward ↔ char <+: (state.lineAt l).drop c ∧
      (l < state.cursorLine ∨ l = state.cursorLine ∧ c < state.cursorCol) := by
  rw [ahead, Set.mem_ofPred_eq, position, Prod.Lex.toLex_lt_toLex]
  rfl

theorem searches_forward (hchar : char ≠ []) :
    Searches (· < ·) (state.visitedLines .forward) (state.searchLine char .forward)
      {p | toLex p ∈ state.ahead char .forward} where
  ordered := List.pairwise_lt_range'
  covers := by
    rintro ⟨l, c⟩ hp
    obtain ⟨hpre, hlt⟩ := mem_ahead_forward.mp hp
    have hl := lt_lines_of_prefix hchar hpre
    simp only [visitedLines, List.mem_range'_1]
    omega
  found := by
    intro l c hl hc
    simp only [visitedLines, List.mem_range'_1] at hl
    obtain ⟨hstart, hpre, hfirst⟩ := indexOf_eq_some hchar hc
    refine ⟨mem_ahead_forward.mpr ⟨hpre, ?_⟩, ?_⟩
    · split_ifs at hstart with hline <;> omega
    · intro c' hc'
      obtain ⟨hpre, hlt⟩ := mem_ahead_forward.mp hc'
      refine hfirst c' ?_ hpre
      split_ifs with hline <;> omega
  missed := by
    intro l hl hnone c hc
    obtain ⟨hpre, hlt⟩ := mem_ahead_forward.mp hc
    refine indexOf_eq_none hchar hnone c ?_ hpre
    split_ifs with hline <;> omega

theorem searches_backward (hchar : char ≠ []) (hfirst : ¬ state.OnFirst char) :
    Searches (· > ·) (state.visitedLines .backward) (state.searchLine char .backward)
      {p | toLex p ∈ state.ahead char .backward} where
  ordered := pairwise_gt_reverse_range _
  covers := by
    rintro ⟨l, c⟩ hp
    obtain ⟨-, hlt⟩ := mem_ahead_backward.mp hp
    simp only [visitedLines, List.mem_reverse, List.mem_range]
    omega
  found := by
    intro l c hl hc
    simp only [visitedLines, List.mem_reverse, List.mem_range] at hl
    obtain ⟨hstart, hpre, hlast⟩ := lastIndexOf_eq_some hchar hc
    refine ⟨mem_ahead_backward.mpr ⟨hpre, ?_⟩, ?_⟩
    · split_ifs at hstart with hline
      · -- in the first column the search stays in that column, where the character does not stand
        by_cases hcol : state.cursorCol = 0
        · have hc0 : c = 0 := by omega
          subst hc0
          rw [hline, List.drop_zero] at hpre
          exact absurd ⟨hcol, hpre⟩ hfirst
        · omega
      · omega
    · intro c' hc'
      obtain ⟨hpre, hlt⟩ := mem_ahead_backward.mp hc'
      have hlength := lt_length_of_prefix hchar hpre
      refine hlast c' ?_ hpre
      split_ifs with hline <;> omega
  missed := by
    intro l hl hnone c hc
    obtain ⟨hpre, hlt⟩ := mem_ahead_backward.mp hc
    have hlength := lt_length_of_prefix hchar hpre
    refine lastIndexOf_eq_none hchar hnone c ?_ hpre
    split_ifs with hline <;> omega

/-! ## The jump -/

theorem ahead_ne_position {p : Position} (hp : p ∈ state.ahead char direction) : p ≠ state.position := by
  cases direction with
  | forward => exact hp.2.ne'
  | backward => exact hp.2.ne

/-- A jump that goes to the nearest occurrence, or stays when there is none. -/
theorem jumps_goTo {target : Option (ℕ × ℕ)}
    (hsome : ∀ p, target = some p → Nearest (state.ahead char direction) direction (toLex p))
    (hnone : target = none → state.ahead char direction = ∅) :
    state.Jumps char direction (state.goTo target) := by
  cases target with
  | none =>
    have hempty := hnone rfl
    refine ⟨rfl, ?_, iff_of_true rfl hempty⟩
    intro hnonempty
    rw [hempty] at hnonempty
    exact absurd hnonempty Set.not_nonempty_empty
  | some p =>
    have hnearest := hsome p rfl
    have hmem : toLex p ∈ state.ahead char direction := by
      cases direction <;> exact hnearest.1
    refine ⟨rfl, fun _ => hnearest, iff_of_false (ahead_ne_position hmem) ?_⟩
    intro hempty
    rw [hempty] at hmem
    exact hmem

theorem jumps_forward (hchar : char ≠ []) :
    state.Jumps char .forward (state.goTo (state.jumpTarget char .forward)) := by
  have hsearches := @searches_forward state _ hchar
  refine jumps_goTo ?_ hsearches.findSome?_eq_none
  intro p hp
  obtain ⟨hmem, hfirst⟩ := hsearches.findSome?_eq_some hp
  refine ⟨hmem, ?_⟩
  intro q hq
  rcases hfirst (ofLex q) hq with heq | hlt
  · rw [← heq]
    exact le_rfl
  · exact (Prod.Lex.toLex_lt_toLex.mpr hlt).le

theorem jumps_backward (hchar : char ≠ []) (hon : ¬ state.OnFirst char) :
    state.Jumps char .backward (state.goTo (state.jumpTarget char .backward)) := by
  have hsearches := searches_backward hchar hon
  refine jumps_goTo ?_ hsearches.findSome?_eq_none
  intro p hp
  obtain ⟨hmem, hlast⟩ := hsearches.findSome?_eq_some hp
  refine ⟨hmem, ?_⟩
  intro q hq
  rcases hlast (ofLex q) hq with heq | hlt
  · rw [← heq]
    exact le_rfl
  · refine (Prod.Lex.toLex_lt_toLex.mpr ?_).le
    rcases hlt with hlt | ⟨heq, hlt⟩
    · exact .inl hlt
    · exact .inr ⟨heq.symm, hlt⟩

theorem jumpTarget_of_onFirst (hon : state.OnFirst char) :
    state.jumpTarget char .backward = some (state.cursorLine, 0) := by
  obtain ⟨hcol, hpre⟩ := hon
  have hsearch : state.searchLine char .backward state.cursorLine = some 0 := by
    have hfirst : char.isPrefixOf (state.lineAt state.cursorLine) = true :=
      List.isPrefixOf_iff_prefix.mpr hpre
    simp [searchLine, hcol, lastIndexOf, hfirst]
  rw [jumpTarget, visitedLines, List.range_succ, List.reverse_append, List.reverse_singleton,
    List.singleton_append, List.findSome?_cons, hsearch]
  rfl

end EditorState

namespace Editor

open EditorState

variable {editor : Editor} {char : Text} {direction : Direction}

/-- The condition under which the cursor is stuck: it is in the first column, its line starts with the character,
and an earlier line has the character. -/
def Stuck (state : EditorState) (char : Text) : Prop :=
  state.OnFirst char ∧ ∃ l < state.cursorLine, char <:+: state.lineAt l

theorem nonempty_ahead_backward_iff {state : EditorState} (hcol : state.cursorCol = 0) :
    (state.ahead char .backward).Nonempty ↔ ∃ l < state.cursorLine, char <:+: state.lineAt l := by
  constructor
  · rintro ⟨⟨l, c⟩, hp⟩
    obtain ⟨hpre, hlt⟩ := mem_ahead_backward.mp hp
    exact ⟨l, by omega, hpre.isInfix.trans (List.drop_suffix c _).isInfix⟩
  · rintro ⟨l, hl, front, back, heq⟩
    refine ⟨toLex (l, front.length), mem_ahead_backward.mpr ⟨?_, .inl hl⟩⟩
    rw [← heq, List.append_assoc, List.drop_left]
    exact List.prefix_append _ _

/-- A jump does what it should exactly when it does not go backward from the first column of a line that starts
with the character while an earlier line has it. -/
theorem jumpToChar_jumps_iff (hchar : char ≠ []) :
    editor.state.Jumps char direction (editor.jumpToChar char direction).state ↔
      ¬ (direction = .backward ∧ Stuck editor.state char) := by
  rw [jumpToChar]
  cases direction with
  | forward => exact iff_of_true (jumps_forward hchar) (by simp)
  | backward =>
    by_cases hon : editor.state.OnFirst char
    · have hstays : (editor.state.goTo (some (editor.state.cursorLine, 0))).position = editor.state.position := by
        rw [position, position, hon.1]
        rfl
      have hiff := @nonempty_ahead_backward_iff char _ hon.1
      rw [jumpTarget_of_onFirst hon]
      constructor
      · rintro hjumps ⟨-, -, hearlier⟩
        have hnonempty := hiff.mpr hearlier
        rw [hjumps.stays_iff.mp hstays] at hnonempty
        exact Set.not_nonempty_empty hnonempty
      · intro hfree
        have hempty : editor.state.ahead char .backward = ∅ := by
          rw [← Set.not_nonempty_iff_eq_empty, hiff]
          exact fun hearlier => hfree ⟨rfl, hon, hearlier⟩
        refine ⟨rfl, ?_, iff_of_true hstays hempty⟩
        intro hnonempty
        rw [hempty] at hnonempty
        exact absurd hnonempty Set.not_nonempty_empty
    · exact iff_of_true (jumps_backward hchar hon) fun h => hon h.2.1

/-- The cursor is in the first column of the second line `ab`. -/
def secondLine : Editor := { Editor.initial with state := ⟨[ascii "ab", ascii "ab"], 1, 0⟩ }

theorem jumpToChar_jumps_iff_secondLine :
    secondLine.state.Jumps (ascii "b") .backward (secondLine.jumpToChar (ascii "b") .backward).state ↔
      ¬ ((Direction.backward = .backward) ∧ Stuck secondLine.state (ascii "b")) :=
  jumpToChar_jumps_iff (by decide)

/-- Going backward to `a` the cursor stays, though the first line starts with `a`. -/
theorem secondLine_not_jumps :
    secondLine.state.Valid ∧ (secondLine.jumpToChar (ascii "a") .backward).state = secondLine.state ∧
      (toLex (0, 0) : Position) ∈ secondLine.state.ahead (ascii "a") .backward ∧
      ¬ secondLine.state.Jumps (ascii "a") .backward (secondLine.jumpToChar (ascii "a") .backward).state := by
  have hstate : (secondLine.jumpToChar (ascii "a") .backward).state = secondLine.state := by decide
  have hahead : (toLex (0, 0) : Position) ∈ secondLine.state.ahead (ascii "a") .backward :=
    mem_ahead_backward.mpr (by decide)
  refine ⟨⟨by decide, by decide⟩, hstate, hahead, ?_⟩
  intro hjumps
  rw [hstate] at hjumps
  have hempty := hjumps.stays_iff.mp rfl
  rw [hempty] at hahead
  exact hahead

end Editor

end Tui.Components
