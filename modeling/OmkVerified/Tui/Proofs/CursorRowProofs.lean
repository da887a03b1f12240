import OmkVerified.Tui.WordWrap
import OmkVerified.Tui.Proofs.RenderProofs

/-!
# The row of the hardware cursor

The renderer knows where the terminal's cursor is as long as no marker is above the rows that the terminal
shows; a relative move up to such a marker stops at the top of the screen.
-/

namespace Tui

open Lib Lib.Terminal

variable {env : Env} {rows : Nat} {place : Terminal.Place}

/-! ## Parts of a frame -/

theorem length_applyLineResets (lines : List Line) : (applyLineResets lines).length = lines.length :=
  List.length_map _

/-- The marker is in the last rows of the lines. -/
theorem extractCursorPosition_row {lines : List Line} {height row col : Nat}
    (h : (extractCursorPosition env lines height).1 = some (row, col)) :
    lines.length - height ≤ row ∧ row < lines.length := by
  unfold extractCursorPosition at h
  dsimp only at h
  split at h
  · cases h
  · rename_i found hfound
    cases h
    have hmem := List.mem_reverse.mp (List.mem_of_find?_eq_some hfound)
    obtain ⟨i, hi, hrow⟩ := List.getElem_of_mem hmem
    rw [List.length_drop, List.length_range] at hi
    rw [List.getElem_drop, List.getElem_range] at hrow
    omega

theorem extractCursorPosition_length (lines : List Line) (height : Nat) :
    (extractCursorPosition env lines height).2.length = lines.length := by
  unfold extractCursorPosition
  dsimp only
  split
  · rfl
  · exact List.length_set

variable {top first target cursor totalLines lastChanged firstChanged : Nat}

/-- What is to be written lies in the lines of the two frames. -/
theorem changedRange_bounds {previousLines newLines : List Line} {last : Nat}
    (h : changedRange previousLines newLines = some (first, last)) :
    first < max newLines.length previousLines.length ∧ first ≤ last ∧
      (previousLines.length < newLines.length → last = newLines.length - 1) := by
  have hmem : ∀ row ∈ changedRows previousLines newLines,
      row < max newLines.length previousLines.length := fun row hrow =>
    (mem_changedRows.mp hrow).1
  unfold changedRange at h
  dsimp only at h
  split_ifs at h with happended
  · cases h
    cases hhead : (changedRows previousLines newLines).head? with
    | none => exact ⟨by simp only [Option.getD_none]; omega, by simp only [Option.getD_none]; omega,
        fun _ => rfl⟩
    | some row =>
      have hrow := hmem row (List.mem_of_head? hhead)
      exact ⟨hrow, by simp only [Option.getD_some]; omega, fun _ => rfl⟩
  · obtain ⟨row, hhead, hsame⟩ := Option.map_eq_some_iff.mp h
    have hrow := hmem row (List.mem_of_head? hhead)
    cases hsame
    refine ⟨hrow, ?_, fun hlt => absurd hlt happended⟩
    cases hlast : (changedRows previousLines newLines).getLast? with
    | none => exact le_refl _
    | some last =>
      exact head_le (sorted_changedRows _ _) hhead (List.mem_of_getLast? hlast)

theorem length_le_of_changedRange {previousLines newLines : List Line}
    (h : changedRange previousLines newLines = none) : newLines.length ≤ previousLines.length := by
  unfold changedRange at h
  dsimp only at h
  split_ifs at h with happended
  exact not_lt.mp happended

theorem le_expandLastChanged (previousLines : List Line) (firstChanged lastChanged : Nat) :
    lastChanged ≤ expandLastChangedForKittyImages env previousLines firstChanged lastChanged := by
  unfold expandLastChangedForKittyImages
  generalize (List.range previousLines.length).drop firstChanged = changed
  induction changed generalizing lastChanged with
  | nil => exact le_refl _
  | cons row changed ih =>
    rw [List.foldl_cons]
    split_ifs
    · exact ih lastChanged
    · exact (le_max_left _ _).trans (ih _)

/-! ## The place of the cursor -/

theorem place_moveRows {delta : Int} (hdelta : (target : Int) = place.cursor + delta)
    (hinside : place.Inside rows) (hbottom : target < place.top + rows) :
    place.run rows (moveRows delta) = ⟨place.top, max place.top target⟩ := by
  obtain ⟨htop, hcursor⟩ := hinside
  unfold moveRows
  split_ifs with hdown hup
  · show Terminal.Place.mk _ _ = _
    rw [Terminal.Place.mk.injEq]
    omega
  · show Terminal.Place.mk _ _ = _
    rw [Terminal.Place.mk.injEq]
    omega
  · obtain ⟨top, cursor⟩ := place
    rw [Terminal.Place.run_nil, Terminal.Place.mk.injEq]
    dsimp only at *
    omega

theorem place_deleteImages (ids : List Nat) : place.run rows (deleteKittyImages ids) = place := by
  unfold deleteKittyImages
  rw [List.map_eq_flatMap]
  exact Terminal.Place.run_flatMap fun _ _ _ => rfl

theorem place_deleteChanged (previousLines : List Line) (firstChanged lastChanged : Nat) :
    place.run rows (deleteChangedKittyImages env previousLines firstChanged lastChanged) = place := by
  unfold deleteChangedKittyImages
  split_ifs
  · rfl
  · exact place_deleteImages _

theorem place_joinLines (lines : List Line) (hrows : 0 < rows) :
    Terminal.Place.run rows ⟨0, 0⟩ (joinLines lines) = ⟨lines.length - rows, lines.length - 1⟩ := by
  cases lines with
  | nil =>
    show Terminal.Place.mk 0 0 = _
    rw [Terminal.Place.mk.injEq, List.length_nil]
    omega
  | cons line lines =>
    have hblock : ∀ other ∈ lines, ∀ place : Terminal.Place,
        place.run rows (newline ++ [Terminal.Op.text other]) = place.exec rows (.lineFeed : Op) :=
      fun _ _ _ => rfl
    rw [joinLines_cons, Terminal.Place.run_append]
    show Terminal.Place.run rows ⟨0, 0⟩ _ = _
    rw [Terminal.Place.run_rows hblock (by dsimp only; omega), List.length_cons, Terminal.Place.mk.injEq]
    dsimp only
    omega

/-- The rewritten lines, the first of which is written where the cursor is. -/
theorem place_rewriteLines {width : Nat} {line : Line} {lines : List Line} {ops : List Op}
    (h : rewriteLines env width firstChanged firstChanged (line :: lines) = .ok ops)
    (hinside : place.cursor < place.top + rows) :
    place.run rows ops =
      ⟨max place.top (place.cursor + lines.length + 1 - rows), place.cursor + lines.length⟩ := by
  have hrest : ∀ {lines : List Line} {row : Nat} {ops : List Op}, firstChanged < row →
      rewriteLines env width firstChanged row lines = .ok ops →
      ops = lines.flatMap fun line => newline ++ [.eraseLine, .text line] := by
    intro lines
    induction lines with
    | nil =>
      intro row ops _ hops
      cases hops
      rfl
    | cons line lines ih =>
      intro row ops hrow hops
      unfold rewriteLines at hops
      split_ifs at hops
      cases hlines : rewriteLines env width firstChanged (row + 1) lines with
      | error overflow =>
        rw [hlines] at hops
        cases hops
      | ok rest =>
        rw [hlines] at hops
        cases hops
        rw [ih (by omega) hlines]
        rfl
  unfold rewriteLines at h
  split_ifs at h with hwide hfirst
  · exact absurd hfirst (lt_irrefl _)
  · cases hlines : rewriteLines env width firstChanged (firstChanged + 1) lines with
    | error overflow =>
      rw [hlines] at h
      cases h
    | ok rest =>
      rw [hlines] at h
      cases h
      have hblock : ∀ other ∈ lines, ∀ place : Terminal.Place,
          place.run rows (newline ++ [Terminal.Op.eraseLine, .text other]) =
            place.exec rows (.lineFeed : Op) := fun _ _ _ => rfl
      rw [hrest (Nat.lt_succ_self _) hlines]
      show place.run rows (lines.flatMap _) = _
      exact Terminal.Place.run_rows hblock hinside

theorem place_positioned (place : Terminal.Place) (tui : Renderer) {cursorPos : Option (Nat × Nat)}
    (hcursor : place.cursor = tui.hardwareCursorRow) (hinside : place.Inside rows)
    (hpos : ∀ row col, cursorPos = some (row, col) → row < totalLines)
    (hlength : totalLines ≤ place.top + rows) :
    (positionHardwareCursor tui cursorPos totalLines).1 =
        { tui with hardwareCursorRow := (cursorPos.map Prod.fst).getD tui.hardwareCursorRow } ∧
      place.run rows (positionHardwareCursor tui cursorPos totalLines).2 =
        ⟨place.top, max place.top ((cursorPos.map Prod.fst).getD place.cursor)⟩ := by
  unfold positionHardwareCursor
  rcases cursorPos with _ | ⟨row, col⟩
  · refine ⟨rfl, ?_⟩
    obtain ⟨top, cursor⟩ := place
    show Terminal.Place.mk _ _ = _
    rw [Terminal.Place.mk.injEq]
    exact ⟨rfl, (max_eq_right hinside.1).symm⟩
  · have hrow := hpos row col rfl
    dsimp only
    rw [if_neg (by omega), min_eq_left (by omega)]
    refine ⟨rfl, ?_⟩
    have hmove : place.run rows (moveRows (row - tui.hardwareCursorRow)) = ⟨place.top, max place.top row⟩ :=
      place_moveRows (by omega) hinside (by omega)
    rw [Terminal.Place.run_append, hmove]
    dsimp only [Option.map_some, Option.getD_some]
    cases tui.showHardwareCursor <;> rfl

/-! ## What a render leaves -/

/-- A render leaves `top` as the top of the viewport, and the cursor in the row `cursor` before it is moved
to a marker. -/
structure Outcome (rows : Nat) (frame : Frame) (tui : Renderer) (totalLines : Nat)
    (cursorPos : Option (Nat × Nat)) (next : Renderer) (after : Terminal.Place) (top cursor : Nat) : Prop where
  viewport : next.previousViewportTop = top
  row : next.hardwareCursorRow = (cursorPos.map Prod.fst).getD cursor
  place : after = ⟨top, max top ((cursorPos.map Prod.fst).getD cursor)⟩
  inside : Terminal.Place.Inside rows ⟨top, cursor⟩
  covers : totalLines ≤ top + rows
  length_le : next.previousLines.length ≤ top + rows
  shows : top < next.previousLines.length ∨
    next.previousLines = [] ∧ totalLines = 0 ∧ top = 0 ∧ cursor = 0
  running : next.stopped = false
  width : next.previousWidth = tui.previousWidth ∨ next.previousWidth = frame.columns
  height : next.previousHeight = frame.rows

variable {tui : Renderer} {frame : Frame} {newLines : List Line} {cursorPos : Option (Nat × Nat)}

/-- A buffer that leaves the cursor at `cursor`, and the move to the marker. -/
theorem outcome_positioned (drawn : Renderer) {buffer : List Op}
    (hbuffer : place.run rows buffer = ⟨top, cursor⟩) (hviewport : drawn.previousViewportTop = top)
    (hcursor : drawn.hardwareCursorRow = cursor) (hrunning : drawn.stopped = false)
    (hinside : Terminal.Place.Inside rows ⟨top, cursor⟩) (hcovers : newLines.length ≤ top + rows)
    (hshows : top < newLines.length ∨ newLines = [] ∧ top = 0 ∧ cursor = 0)
    (hpos : ∀ row col, cursorPos = some (row, col) → row < newLines.length) :
    Outcome rows frame tui newLines.length cursorPos
      { (positionHardwareCursor drawn cursorPos newLines.length).1 with
        previousLines := newLines
        previousKittyImageIds := collectKittyImageIds env newLines
        previousWidth := frame.columns
        previousHeight := frame.rows }
      (place.run rows (buffer ++ (positionHardwareCursor drawn cursorPos newLines.length).2)) top cursor := by
  obtain ⟨hnext, hmoves⟩ := place_positioned ⟨top, cursor⟩ drawn hcursor.symm hinside hpos hcovers
  rw [hnext, Terminal.Place.run_append, hbuffer, hmoves]
  refine ⟨hviewport, by rw [← hcursor], rfl, hinside, hcovers, hcovers, ?_, hrunning, .inr rfl, rfl⟩
  rcases hshows with hshows | ⟨rfl, hfirst⟩
  · exact .inl hshows
  · exact .inr ⟨rfl, rfl, hfirst⟩

theorem outcome_fullRender {clear : Bool} (hrows : 0 < rows) (hframe : frame.rows = rows)
    (hrunning : tui.stopped = false)
    (hpos : ∀ row col, cursorPos = some (row, col) → row < newLines.length)
    (hfresh : clear = false → place = ⟨0, 0⟩) :
    Outcome rows frame tui newLines.length cursorPos (fullRender env tui frame newLines cursorPos clear).1
      (place.run rows (fullRender env tui frame newLines cursorPos clear).2) (newLines.length - rows)
      (newLines.length - 1) := by
  have hinside : Terminal.Place.Inside rows ⟨newLines.length - rows, newLines.length - 1⟩ := by
    constructor <;> dsimp only <;> omega
  have hshows : newLines.length - rows < newLines.length ∨
      newLines = [] ∧ newLines.length - rows = 0 ∧ newLines.length - 1 = 0 := by
    cases newLines with
    | nil => exact .inr ⟨rfl, Nat.zero_sub _, rfl⟩
    | cons line lines => exact .inl (Nat.sub_lt (Nat.succ_pos _) hrows)
  have hdrawn : place.run rows
      (beginSynchronizedOutput ::
        (if clear then
          deleteKittyImages tui.previousKittyImageIds ++ [.clearScreen, .home, .clearScrollback]
         else []) ++
        joinLines newLines ++ [endSynchronizedOutput]) =
      ⟨newLines.length - rows, newLines.length - 1⟩ := by
    have hstart : place.run rows
        (beginSynchronizedOutput ::
          (if clear then
            deleteKittyImages tui.previousKittyImageIds ++ [.clearScreen, .home, .clearScrollback]
           else [])) = ⟨0, 0⟩ := by
      cases clear with
      | true =>
        show place.run rows (deleteKittyImages tui.previousKittyImageIds ++ _) = _
        rw [Terminal.Place.run_append]
        rfl
      | false => exact hfresh rfl
    rw [Terminal.Place.run_append, Terminal.Place.run_append, hstart, place_joinLines newLines hrows]
    rfl
  refine outcome_positioned
    { tui with
      fullRedrawCount := tui.fullRedrawCount + 1
      cursorRow := newLines.length - 1
      hardwareCursorRow := newLines.length - 1
      maxLinesRendered := if clear then newLines.length else max tui.maxLinesRendered newLines.length
      previousViewportTop := max frame.rows newLines.length - frame.rows } hdrawn ?_ rfl hrunning hinside
    (by omega) hshows hpos
  show max frame.rows newLines.length - frame.rows = newLines.length - rows
  omega

/-- The renderer knows where the cursor is. -/
structure Tracked (columns rows : Nat) (tui : Renderer) (place : Terminal.Place) : Prop where
  viewport : place.top = tui.previousViewportTop
  cursor : place.cursor = tui.hardwareCursorRow
  inside : place.Inside rows
  length_le : tui.previousLines.length ≤ place.top + rows
  shows : place.top < tui.previousLines.length ∨ tui.previousLines = [] ∧ place = ⟨0, 0⟩
  running : tui.stopped = false
  width : tui.previousWidth = 0 ∨ tui.previousWidth = columns
  height : tui.previousHeight = 0 ∨ tui.previousHeight = rows

/-- The rows below the new lines are cleared, and the cursor comes back to the last line. -/
theorem place_clearRows {count : Nat} (hcount : 0 < count) (hrow : place.cursor < place.top + rows) :
    place.run rows ((List.range count).flatMap fun i =>
      ([.carriageReturn, .eraseLine] ++ if i + 1 < count then [.down 1] else [] : List Op)) =
      ⟨place.top, min (place.cursor + (count - 1)) (place.top + rows - 1)⟩ := by
  obtain ⟨earlier, rfl⟩ : ∃ earlier, count = earlier + 1 := ⟨count - 1, by omega⟩
  have hblock : ∀ i ∈ List.range earlier, ∀ place : Terminal.Place,
      place.run rows ([.carriageReturn, .eraseLine] ++
        if i + 1 < earlier + 1 then [.down 1] else [] : List Op) = place.exec rows (.down 1 : Op) := by
    intro i hi place
    rw [if_pos (Nat.succ_lt_succ (List.mem_range.mp hi))]
    rfl
  rw [List.range_succ, List.flatMap_append, Terminal.Place.run_append, Terminal.Place.run_downs hblock hrow,
    List.length_range, List.flatMap_singleton, if_neg (lt_irrefl _)]
  rfl

variable {columns : Nat}

/-- Where only lines at the end are gone, the cursor goes to the new last line, or every line is written
anew. -/
theorem outcome_clearDeletedLines (hrows : 0 < rows) (hframe : frame.rows = rows)
    (h : Tracked columns rows tui place)
    (hpos : ∀ row col, cursorPos = some (row, col) → row < newLines.length)
    (hfewer : newLines.length < tui.previousLines.length) {redraws : Bool}
    (hredraws : redraws = (decide (newLines.length - 1 < tui.previousViewportTop) ||
      decide (frame.rows < tui.previousLines.length - newLines.length))) :
    Outcome rows frame tui newLines.length cursorPos
      (clearDeletedLines env tui frame newLines cursorPos tui.previousViewportTop firstChanged lastChanged).1
      (place.run rows
        (clearDeletedLines env tui frame newLines cursorPos tui.previousViewportTop firstChanged
          lastChanged).2)
      (if redraws then newLines.length - rows else tui.previousViewportTop) (newLines.length - 1) := by
  have hfull : Outcome rows frame tui newLines.length cursorPos
      (fullRender env tui frame newLines cursorPos true).1
      (place.run rows (fullRender env tui frame newLines cursorPos true).2)
      (newLines.length - rows) (newLines.length - 1) :=
    outcome_fullRender hrows hframe h.running hpos (fun hfalse => by cases hfalse)
  generalize hresult : clearDeletedLines env tui frame newLines cursorPos tui.previousViewportTop
    firstChanged lastChanged = result
  replace hresult := hresult.symm
  unfold clearDeletedLines at hresult
  dsimp only at hresult
  rw [if_pos hfewer] at hresult
  split_ifs at hresult with habove hmany
  · rw [decide_eq_true habove, Bool.true_or] at hredraws
    rw [hresult, hredraws]
    exact hfull
  · rw [decide_eq_true hmany, Bool.or_true] at hredraws
    rw [hresult, hredraws]
    exact hfull
  · -- the rows of the lines that are gone are on the screen
    have hkeeps : redraws = false := by
      rw [hredraws, decide_eq_false habove, decide_eq_false hmany]
      rfl
    obtain ⟨hviewport, hcursor, ⟨hbelow, hbottom⟩, hlength, hshows, hrunning, -, -⟩ := h
    have hlast : newLines.length - 1 < place.top + rows := by omega
    have hdrawn : place.run rows
        (beginSynchronizedOutput ::
          (deleteChangedKittyImages env tui.previousLines firstChanged lastChanged ++
            moveRows ((newLines.length - 1 : Nat) - tui.hardwareCursorRow) ++ [.carriageReturn] ++
            [.down 1] ++
            (List.range (tui.previousLines.length - newLines.length)).flatMap (fun i =>
              [.carriageReturn, .eraseLine] ++
                if i + 1 < tui.previousLines.length - newLines.length then [.down 1] else []) ++
            [.up (tui.previousLines.length - newLines.length)] ++
            [endSynchronizedOutput])) = ⟨place.top, newLines.length - 1⟩ := by
      have hmove : place.run rows (moveRows ((newLines.length - 1 : Nat) - tui.hardwareCursorRow)) =
          ⟨place.top, max place.top (newLines.length - 1)⟩ :=
        place_moveRows (by omega) ⟨hbelow, hbottom⟩ hlast
      have hdown : ∀ place : Terminal.Place, place.run rows ([.carriageReturn] : List Op) = place := fun _ => rfl
      rw [Terminal.Place.run_cons]
      show place.run rows _ = _
      simp only [Terminal.Place.run_append, place_deleteChanged, hmove, hdown]
      show Terminal.Place.exec rows (Terminal.Place.run rows ⟨place.top, min (_ + max 1 1) (place.top + rows - 1)⟩ _)
        (.up (tui.previousLines.length - newLines.length) : Op) = _
      rw [place_clearRows (by omega) (by dsimp only; omega)]
      show Terminal.Place.mk _ _ = _
      rw [Terminal.Place.mk.injEq]
      refine ⟨rfl, ?_⟩
      dsimp only
      rcases hshows with hshows | ⟨hnil, -⟩
      · omega
      · rw [hnil] at hfewer
        exact absurd hfewer (Nat.not_lt_zero _)
    obtain ⟨hnext, hmoves⟩ := place_positioned ⟨place.top, newLines.length - 1⟩
      { tui with cursorRow := newLines.length - 1, hardwareCursorRow := newLines.length - 1 } rfl
      ⟨by dsimp only; omega, hlast⟩ hpos (by dsimp only; omega)
    rw [hresult, hkeeps, if_neg Bool.false_ne_true]
    dsimp only
    rw [hnext, Terminal.Place.run_append, hdrawn, hmoves]
    refine ⟨hviewport.symm ▸ rfl, rfl, ?_, ⟨by dsimp only; omega, by dsimp only; omega⟩, by omega,
      by dsimp only; omega, ?_, hrunning, .inr rfl, rfl⟩
    · rw [hviewport]
    · dsimp only
      cases newLines with
      | nil => exact .inr ⟨rfl, rfl, by simp at habove; omega, rfl⟩
      | cons line lines =>
        refine .inl ?_
        rw [List.length_cons] at habove ⊢
        omega
  · omega

/-- A row below the screen comes into the last row. -/
theorem place_scroll (hrows : 0 < rows) (hinside : place.Inside rows)
    (hbeyond : place.top + rows ≤ target) :
    place.run rows
      ((if 0 < rows - 1 - min (rows - 1) (place.cursor - place.top) then
          [.down (rows - 1 - min (rows - 1) (place.cursor - place.top))] else []) ++
        (List.replicate (target + 1 - (place.top + rows)) newline).flatten) =
      ⟨target + 1 - rows, target⟩ := by
  obtain ⟨hbelow, hbottom⟩ := hinside
  have hdown : place.run rows
      (if 0 < rows - 1 - min (rows - 1) (place.cursor - place.top) then
        [.down (rows - 1 - min (rows - 1) (place.cursor - place.top))] else [] : List Op) =
      ⟨place.top, place.top + rows - 1⟩ := by
    obtain ⟨top, cursor⟩ := place
    dsimp only at *
    split_ifs
    · show Terminal.Place.mk _ _ = _
      rw [Terminal.Place.mk.injEq]
      dsimp only
      omega
    · rw [Terminal.Place.run_nil, Terminal.Place.mk.injEq]
      omega
  have hblock : ∀ item ∈ List.replicate (target + 1 - (place.top + rows)) (), ∀ place : Terminal.Place,
      place.run rows newline = place.exec rows (.lineFeed : Op) := fun _ _ _ => rfl
  rw [Terminal.Place.run_append, hdown, flatten_replicate, Terminal.Place.run_rows hblock (by dsimp only; omega),
    List.length_replicate, Terminal.Place.mk.injEq]
  dsimp only
  omega

/-- The rows behind the new last line are cleared, and the cursor comes back to it. -/
theorem place_clearTail {lastRow previousLength : Nat} (hlast : place.cursor ≤ lastRow)
    (hfewer : lastRow + 1 < previousLength) (htop : place.top ≤ place.cursor)
    (hlength : previousLength ≤ place.top + rows) :
    place.run rows
      ((if place.cursor + 1 < lastRow + 1 then [.down (lastRow - place.cursor)] else []) ++
        (List.replicate (previousLength - (lastRow + 1)) (newline ++ [.eraseLine])).flatten ++
        [.up (previousLength - (lastRow + 1))]) = ⟨place.top, lastRow⟩ := by
  have hdown : place.run rows
      (if place.cursor + 1 < lastRow + 1 then [.down (lastRow - place.cursor)] else [] : List Op) =
      ⟨place.top, lastRow⟩ := by
    obtain ⟨top, cursor⟩ := place
    dsimp only at *
    split_ifs
    · show Terminal.Place.mk _ _ = _
      rw [Terminal.Place.mk.injEq]
      dsimp only
      omega
    · rw [Terminal.Place.run_nil, Terminal.Place.mk.injEq]
      omega
  have hblock : ∀ item ∈ List.replicate (previousLength - (lastRow + 1)) (), ∀ place : Terminal.Place,
      place.run rows (newline ++ [Terminal.Op.eraseLine]) = place.exec rows (.lineFeed : Op) :=
    fun _ _ _ => rfl
  rw [Terminal.Place.run_append, Terminal.Place.run_append, hdown, flatten_replicate,
    Terminal.Place.run_rows hblock (by dsimp only; omega), List.length_replicate]
  show Terminal.Place.mk _ _ = _
  rw [Terminal.Place.mk.injEq]
  dsimp only
  omega

/-- The cursor comes to the first row that is written. -/
theorem place_startRow {appendStart : Bool}
    (htarget : target = if appendStart then first - 1 else first)
    (hfirst : appendStart = true → 0 < first) (hcursor : place.cursor = target) :
    place.run rows (if appendStart then newline else [.carriageReturn]) =
      ⟨if appendStart then max place.top (first + 1 - rows) else place.top, first⟩ := by
  obtain ⟨top, cursor⟩ := place
  dsimp only at hcursor
  cases appendStart with
  | true =>
    have hpositive := hfirst rfl
    have hrow : target = first - 1 := htarget
    have hfeed : Terminal.Place.run rows ⟨top, cursor⟩ newline = ⟨max top (cursor + 2 - rows), cursor + 1⟩ := rfl
    show Terminal.Place.run rows ⟨top, cursor⟩ newline = ⟨max top (first + 1 - rows), first⟩
    rw [hfeed, Terminal.Place.mk.injEq]
    omega
  | false =>
    have hrow : target = first := htarget
    show Terminal.Place.mk top cursor = ⟨top, first⟩
    rw [hcursor, hrow]

/-- The changed lines are written from the first one on, and the cursor is in the last row that was
written, or in the new last line. -/
theorem place_rewriteBuffer {previousLines : List Line} {total previous first last target renderEnd : Nat}
    {appendStart : Bool} {lines : List Line} {line : Line} {width : Nat} {rewritten : List Op}
    (hrows : 0 < rows) (hinside : place.Inside rows)
    (htarget : target = if appendStart then first - 1 else first)
    (hfirst : appendStart = true → 0 < first) (hshown : place.top ≤ target)
    (hrewritten : rewriteLines env width first first (line :: lines) = .ok rewritten)
    (hend : renderEnd = first + lines.length) (htotal : renderEnd < total)
    (hfewer : total < previous → previous ≤ place.top + rows) :
    place.run rows
      (beginSynchronizedOutput ::
        (deleteChangedKittyImages env previousLines first last ++
          (if place.top + rows ≤ target then
            (if 0 < rows - 1 - min (rows - 1) (place.cursor - place.top) then
              [.down (rows - 1 - min (rows - 1) (place.cursor - place.top))] else []) ++
              (List.replicate
                (if place.top + rows ≤ target then target + 1 - (place.top + rows) else 0)
                newline).flatten
           else []) ++
          moveRows
            ((target -
                (place.top + if place.top + rows ≤ target then target + 1 - (place.top + rows) else 0 : Nat)) -
              ((if place.top + rows ≤ target then target else place.cursor : Nat) -
                (place.top + if place.top + rows ≤ target then target + 1 - (place.top + rows) else 0 : Nat))) ++
          (if appendStart then newline else [.carriageReturn]) ++ rewritten ++
          (if 0 < previous - total then
            (if renderEnd + 1 < total then [.down (total - 1 - renderEnd)] else []) ++
              (List.replicate (previous - total) (newline ++ [.eraseLine])).flatten ++
              [.up (previous - total)]
           else []) ++
          [endSynchronizedOutput])) =
      ⟨max (place.top + if place.top + rows ≤ target then target + 1 - (place.top + rows) else 0)
          ((if 0 < previous - total then total - 1 else renderEnd) + 1 - rows),
        if 0 < previous - total then total - 1 else renderEnd⟩ := by
  -- the row of the cursor comes onto the screen
  obtain ⟨top, row, hmoved, hrow, htop, hshows⟩ : ∃ top row,
      place.run rows
        (if place.top + rows ≤ target then
          (if 0 < rows - 1 - min (rows - 1) (place.cursor - place.top) then
            [.down (rows - 1 - min (rows - 1) (place.cursor - place.top))] else []) ++
            (List.replicate
              (if place.top + rows ≤ target then target + 1 - (place.top + rows) else 0)
              newline).flatten
         else [] : List Op) = ⟨top, row⟩ ∧
      (if place.top + rows ≤ target then target else place.cursor) = row ∧
      place.top + (if place.top + rows ≤ target then target + 1 - (place.top + rows) else 0) = top ∧
      (Terminal.Place.Inside rows ⟨top, row⟩ ∧ top ≤ target ∧ target < top + rows ∧ place.top ≤ top) := by
    by_cases hbeyond : place.top + rows ≤ target
    · simp only [if_pos hbeyond]
      have hon : Terminal.Place.Inside rows ⟨target + 1 - rows, target⟩ := by
        constructor <;> dsimp only <;> omega
      exact ⟨_, _, place_scroll hrows hinside hbeyond, rfl, by omega, hon, by omega, by omega, by omega⟩
    · simp only [if_neg hbeyond]
      exact ⟨place.top, place.cursor, rfl, rfl, rfl, hinside, hshown, not_le.mp hbeyond, le_refl _⟩
  have hle : target ≤ first := by
    rw [htarget]
    split_ifs <;> omega
  rw [hrow, htop]
  obtain ⟨hon, habove, hbelow, hlower⟩ := hshows
  have hmove : Terminal.Place.run rows ⟨top, row⟩ (moveRows ((target - (top : Nat)) - ((row : Nat) - (top : Nat)))) =
      ⟨top, target⟩ := by
    rw [place_moveRows (by dsimp only; omega) hon hbelow, max_eq_right habove]
  have hrewrite : Terminal.Place.run rows ⟨if appendStart then max top (first + 1 - rows) else top, first⟩ rewritten =
      ⟨max top (renderEnd + 1 - rows), renderEnd⟩ := by
    rw [place_rewriteLines hrewritten, Terminal.Place.mk.injEq, hend]
    · dsimp only
      split_ifs <;> omega
    · dsimp only
      split_ifs at htarget ⊢ with happend
      · have := hfirst happend
        omega
      · omega
  rw [Terminal.Place.run_cons]
  show place.run rows _ = _
  simp only [Terminal.Place.run_append, place_deleteChanged]
  rw [hmoved, hmove, place_startRow htarget hfirst rfl, hrewrite]
  obtain ⟨lastRow, rfl⟩ : ∃ lastRow, total = lastRow + 1 := ⟨total - 1, by omega⟩
  by_cases hextra : 0 < previous - (lastRow + 1)
  · have hlength := hfewer (by omega)
    have htail := @place_clearTail rows ⟨max top (renderEnd + 1 - rows), renderEnd⟩ lastRow previous
      (by dsimp only; omega) (by omega) (by dsimp only; omega) (by dsimp only; omega)
    simp only [Terminal.Place.run_append] at htail
    simp only [if_pos hextra, Nat.add_sub_cancel, Terminal.Place.run_append]
    rw [htail]
    show Terminal.Place.mk _ _ = _
    rw [Terminal.Place.mk.injEq]
    omega
  · simp only [if_neg hextra]
    rfl

/-- The rows that a partial render leaves on the screen. -/
theorem rewrite_bounds {last total previous scroll final : Nat} (hrows : 0 < rows)
    (htarget : top ≤ target) (hle : target ≤ first) (hfirst : first < total) (hlast : first ≤ last)
    (hlength : previous ≤ top + rows) (happended : previous < total → total - 1 ≤ last)
    (hscroll : scroll = if top + rows ≤ target then target + 1 - (top + rows) else 0)
    (hfinal : final = if 0 < previous - total then total - 1 else min last (total - 1)) :
    Terminal.Place.Inside rows ⟨max (top + scroll) (final + 1 - rows), final⟩ ∧
      total ≤ max (top + scroll) (final + 1 - rows) + rows ∧
      max (top + scroll) (final + 1 - rows) < total ∧
      top ≤ max (top + scroll) (final + 1 - rows) ∧
      (max (top + scroll) (final + 1 - rows) ≤ top ∨
        max (top + scroll) (final + 1 - rows) ≤ total - rows) := by
  have hend : first ≤ final ∧ final < total ∧ (previous < total → final = total - 1) := by
    rw [hfinal]
    split_ifs <;> omega
  have hrise : scroll = 0 ∨ top + scroll = target + 1 - rows := by
    rw [hscroll]
    split_ifs <;> omega
  exact ⟨⟨by dsimp only; omega, by dsimp only; omega⟩, by omega, by omega, by omega, by omega⟩

theorem of_map_eq_ok {α β ε : Type} {f : α → β} {value : Except ε α} {result : β}
    (h : value.map f = .ok result) : ∃ a, value = .ok a ∧ f a = result := by
  cases value with
  | error e => cases h
  | ok a => exact ⟨a, rfl, Except.ok.inj h⟩

/-- Where lines change that the terminal shows, only those are written. -/
theorem outcome_rewriteChangedLines (hrows : 0 < rows) (hframe : frame.rows = rows)
    (h : Tracked columns rows tui place)
    (hpos : ∀ row col, cursorPos = some (row, col) → row < newLines.length)
    (hfirst : firstChanged < newLines.length) (hlast : firstChanged ≤ lastChanged)
    (happended : tui.previousLines.length < newLines.length → newLines.length - 1 ≤ lastChanged)
    (hshown : tui.previousViewportTop ≤ firstChanged) {result : Renderer × List Op}
    (hresult : rewriteChangedLines env tui frame newLines cursorPos tui.previousViewportTop firstChanged
      lastChanged = .ok result) :
    ∃ top cursor, Outcome rows frame tui newLines.length cursorPos result.1 (place.run rows result.2) top
      cursor ∧ tui.previousViewportTop ≤ top ∧
        (top ≤ tui.previousViewportTop ∨ top ≤ newLines.length - rows) := by
  obtain ⟨top, cursor⟩ := place
  obtain ⟨hviewport, hcursor, hinside, hlength, hshows, hrunning, -, -⟩ := h
  dsimp only at hviewport hcursor hlength hshows
  subst hframe hviewport hcursor
  obtain ⟨rewritten, hrewritten, rfl⟩ := of_map_eq_ok hresult
  obtain ⟨line, lines, hlines⟩ : ∃ line lines,
      (newLines.take (min lastChanged (newLines.length - 1) + 1)).drop firstChanged = line :: lines := by
    refine List.exists_cons_of_ne_nil fun hnil => ?_
    have := congrArg List.length hnil
    rw [List.length_drop, List.length_take, List.length_nil] at this
    omega
  have hcount : min lastChanged (newLines.length - 1) = firstChanged + lines.length := by
    have := congrArg List.length hlines
    rw [List.length_drop, List.length_take, List.length_cons] at this
    omega
  rw [hlines] at hrewritten
  have happend : ∀ {appendStart : Bool}, appendStart = (decide (tui.previousLines.length < newLines.length) &&
      decide (firstChanged = tui.previousLines.length) && decide (0 < firstChanged)) →
      appendStart = true → firstChanged = tui.previousLines.length ∧ 0 < firstChanged := by
    rintro appendStart rfl hstart
    simp only [Bool.and_eq_true, decide_eq_true_eq] at hstart
    exact ⟨hstart.1.2, hstart.2⟩
  generalize hstart : (decide (tui.previousLines.length < newLines.length) &&
    decide (firstChanged = tui.previousLines.length) && decide (0 < firstChanged)) = appendStart at happend
  have hstarts := happend rfl
  have htarget : tui.previousViewportTop ≤ if appendStart then firstChanged - 1 else firstChanged := by
    split_ifs with hfirst
    · obtain ⟨hprevious, hpositive⟩ := hstarts hfirst
      rcases hshows with hshows | ⟨hnil, -⟩
      · omega
      · rw [hnil, List.length_nil] at hprevious
        omega
    · exact hshown
  have hbuffer := @place_rewriteBuffer env frame.rows ⟨tui.previousViewportTop, tui.hardwareCursorRow⟩
    tui.previousLines newLines.length tui.previousLines.length firstChanged lastChanged _ _ appendStart
    lines line frame.columns rewritten hrows hinside rfl (fun hfirst => (hstarts hfirst).2) htarget
    hrewritten hcount (by omega) (fun _ => hlength)
  have hle : (if appendStart = true then firstChanged - 1 else firstChanged) ≤ firstChanged := by
    split_ifs <;> omega
  obtain ⟨hon, hcovers, hbelow, hlower, hupper⟩ := rewrite_bounds hrows htarget hle hfirst hlast hlength
    happended rfl rfl
  refine ⟨_, _, outcome_positioned
    { tui with
      cursorRow := newLines.length - 1
      hardwareCursorRow := _
      maxLinesRendered := max tui.maxLinesRendered newLines.length
      previousViewportTop := _ } hbuffer rfl rfl hrunning hon hcovers (.inl hbelow) hpos, hlower, hupper⟩

/-! ## Renders -/

/-- One render, and where it leaves the viewport. -/
theorem outcome_doRender (hrows : 0 < rows) (hcolumns : frame.columns = columns) (hframe : frame.rows = rows)
    (h : Tracked columns rows tui place) {result : Renderer × List Op}
    (hresult : doRender env tui frame = .ok result) :
    ∃ top cursor, Outcome rows frame tui frame.lines.length
        (extractCursorPosition env frame.lines frame.rows).1 result.1 (place.run rows result.2) top cursor ∧
      (redrawsAll env tui frame = true → top = frame.lines.length - rows) ∧
      (redrawsAll env tui frame = false → tui.previousViewportTop ≤ top ∧
        (top ≤ tui.previousViewportTop ∨ top ≤ frame.lines.length - rows)) := by
  have hpos : ∀ row col, (extractCursorPosition env frame.lines frame.rows).1 = some (row, col) →
      row < frame.lines.length := fun row col hcursor => (extractCursorPosition_row hcursor).2
  have hlength : (applyLineResets (extractCursorPosition env frame.lines frame.rows).2).length =
      frame.lines.length := by
    rw [length_applyLineResets, extractCursorPosition_length]
  have hsameWidth : (decide (tui.previousWidth ≠ 0) && decide (tui.previousWidth ≠ frame.columns)) =
      false := by
    rcases h.width with hwidth | hwidth <;> rw [hwidth] <;> simp [hcolumns]
  have hsameHeight : (decide (tui.previousHeight ≠ 0) && decide (tui.previousHeight ≠ frame.rows)) =
      false := by
    rcases h.height with hheight | hheight <;> rw [hheight] <;> simp [hframe]
  unfold doRender at hresult
  unfold redrawsAll
  rw [h.running] at hresult
  simp only [Bool.false_eq_true, if_false, hsameWidth, hsameHeight, Bool.not_false, Bool.and_true,
    Bool.false_and, decide_eq_true_eq] at hresult
  dsimp only
  generalize hcursor : (extractCursorPosition env frame.lines frame.rows).1 = cursorPos at *
  generalize hnew : applyLineResets (extractCursorPosition env frame.lines frame.rows).2 = newLines at *
  rw [← hlength] at hpos ⊢
  have hfull : Outcome rows frame tui newLines.length cursorPos
      (fullRender env tui frame newLines cursorPos true).1
      (place.run rows (fullRender env tui frame newLines cursorPos true).2)
      (newLines.length - rows) (newLines.length - 1) :=
    outcome_fullRender hrows hframe h.running hpos (fun hfalse => by cases hfalse)
  split_ifs at hresult with hempty hshrink
  · cases hresult
    have hplace : place = ⟨0, 0⟩ := by
      rcases h.shows with hshows | ⟨-, hplace⟩
      · rw [hempty] at hshows
        exact absurd hshows (Nat.not_lt_zero _)
      · exact hplace
    refine ⟨_, _, outcome_fullRender hrows hframe h.running hpos fun _ => hplace, fun _ => rfl, ?_⟩
    rw [decide_eq_true hempty, Bool.true_or, Bool.true_or]
    exact fun hfalse => by cases hfalse
  · cases hresult
    refine ⟨_, _, hfull, fun _ => rfl, ?_⟩
    rw [hshrink, Bool.or_true, Bool.true_or]
    exact fun hfalse => by cases hfalse
  · rw [decide_eq_false hempty, Bool.eq_false_iff.mpr hshrink, Bool.false_or, Bool.false_or]
    cases hrange : changedRange tui.previousLines newLines with
    | none =>
      rw [hrange] at hresult
      cases hresult
      have hle := length_le_of_changedRange hrange
      have hcovers : newLines.length ≤ place.top + rows := hle.trans h.length_le
      obtain ⟨hnext, hmoves⟩ := place_positioned place tui h.cursor h.inside hpos hcovers
      refine ⟨place.top, place.cursor, ?_, (fun htrue => by cases htrue), fun _ => ?_⟩
      · dsimp only
        rw [hnext, hmoves]
        refine ⟨h.viewport.symm, ?_, rfl, h.inside, hcovers, h.length_le, ?_, h.running, .inl rfl, rfl⟩
        · rw [h.cursor]
        · rcases h.shows with hshows | ⟨hnil, -⟩
          · exact .inl hshows
          · exact absurd hnil hempty
      · rw [h.viewport]
        exact ⟨le_refl _, .inl (le_refl _)⟩
    | some range =>
      obtain ⟨firstChanged, changed⟩ := range
      rw [hrange] at hresult
      obtain ⟨hfirst, hlast, happended⟩ := changedRange_bounds hrange
      have hexpanded : changed ≤
          expandLastChangedForKittyImages env tui.previousLines firstChanged changed :=
        le_expandLastChanged _ _ _
      dsimp only at hresult ⊢
      split_ifs at hresult ⊢ with hdeleted habove
      · cases hresult
        refine ⟨_, _, outcome_clearDeletedLines hrows hframe h hpos (by omega) rfl, fun hredraws => ?_,
          fun hkeeps => ?_⟩
        · rw [if_pos hredraws]
        · rw [if_neg (by rw [hkeeps]; exact Bool.false_ne_true)]
          exact ⟨le_refl _, .inl (le_refl _)⟩
      · cases hresult
        refine ⟨_, _, hfull, fun _ => rfl, fun hfalse => ?_⟩
        rw [decide_eq_true habove] at hfalse
        cases hfalse
      · obtain ⟨top, cursor, hout, hbounds⟩ := outcome_rewriteChangedLines hrows hframe h hpos
          (not_le.mp hdeleted) (hlast.trans hexpanded) (fun hmore => (happended hmore).symm.le.trans hexpanded)
          (not_lt.mp habove) hresult
        refine ⟨top, cursor, hout, fun htrue => ?_, fun _ => hbounds⟩
        rw [decide_eq_false habove] at htrue
        cases htrue

/-- The cursor is where the renderer takes it to be exactly when the viewport does not start below it. -/
theorem outcome_iff {next : Renderer} {after : Terminal.Place}
    (h : Outcome rows frame tui totalLines cursorPos next after top cursor) :
    after.cursor = next.hardwareCursorRow ↔ top ≤ next.hardwareCursorRow := by
  rw [h.place, h.row]
  exact max_eq_right_iff

theorem tracked_of_outcome {next : Renderer} {after : Terminal.Place}
    (hwidth : tui.previousWidth = 0 ∨ tui.previousWidth = columns)
    (hcolumns : frame.columns = columns) (hframe : frame.rows = rows)
    (hpos : ∀ row col, cursorPos = some (row, col) → row < totalLines)
    (h : Outcome rows frame tui totalLines cursorPos next after top cursor)
    (htop : top ≤ next.hardwareCursorRow) : Tracked columns rows next after := by
  have hcursor := (outcome_iff h).mpr htop
  have hbelow : next.hardwareCursorRow < top + rows := by
    rw [h.row]
    rcases cursorPos with _ | ⟨row, col⟩
    · exact h.inside.2
    · exact (hpos row col rfl).trans_le h.covers
  have hafter : after = ⟨top, next.hardwareCursorRow⟩ := by
    rw [← hcursor, h.place]
  refine ⟨?_, hcursor, ?_, ?_, ?_, h.running, ?_, .inr (h.height.trans hframe)⟩
  · rw [hafter, h.viewport]
  · rw [hafter]
    exact ⟨htop, hbelow⟩
  · rw [hafter]
    exact h.length_le
  · rw [hafter]
    rcases h.shows with hshows | ⟨hnil, htotal, rfl, rfl⟩
    · exact .inl hshows
    · refine .inr ⟨hnil, ?_⟩
      rw [h.row]
      rcases cursorPos with _ | ⟨row, col⟩
      · rfl
      · exact absurd (hpos row col rfl) (by omega)
  · rcases h.width with hsame | hnew
    · rw [hsame]
      exact hwidth
    · exact .inr (hnew.trans hcolumns)

/-- One action: the renderer still knows where the cursor is exactly when the action follows the
viewport. -/
theorem tracked_act {action : Action} {next : Renderer} {ops : List Op} (hrows : 0 < rows)
    (hsize : HasSize columns rows action) (h : Tracked columns rows tui place)
    (hact : act env tui action = .ok (next, ops)) :
    ((place.run rows ops).cursor = next.hardwareCursorRow ↔ Follows env tui action) ∧
      (Follows env tui action → Tracked columns rows next (place.run rows ops)) := by
  cases action with
  | render frame =>
    obtain ⟨hcolumns, hframe⟩ := hsize
    obtain ⟨top, cursor, hout, hredrawn, hkept⟩ := outcome_doRender hrows hcolumns hframe h hact
    have hfollows : top ≤ next.hardwareCursorRow ↔ Follows env tui (.render frame) := by
      have hmarked : Follows env tui (.render frame) ↔
          ∀ row col, (extractCursorPosition env frame.lines frame.rows).1 = some (row, col) →
            redrawsAll env tui frame = true ∨ tui.previousViewportTop ≤ row := Iff.rfl
      rw [hout.row, hmarked]
      rcases hcursor : (extractCursorPosition env frame.lines frame.rows).1 with _ | ⟨row, col⟩
      · exact iff_of_true hout.inside.1 fun row col hsome => by cases hsome
      · obtain ⟨hfirst, hlast⟩ := extractCursorPosition_row hcursor
        rw [hframe] at hfirst
        have hmarker : (∀ found column, some (row, col) = some (found, column) →
            redrawsAll env tui frame = true ∨ tui.previousViewportTop ≤ found) ↔
            redrawsAll env tui frame = true ∨ tui.previousViewportTop ≤ row :=
          ⟨fun hall => hall row col rfl, fun hrow found column hsome => by cases hsome; exact hrow⟩
        rw [hmarker]
        show top ≤ row ↔ _
        cases hredraws : redrawsAll env tui frame with
        | true => exact iff_of_true (hredrawn hredraws ▸ hfirst) (.inl rfl)
        | false =>
          obtain ⟨hlower, hupper⟩ := hkept hredraws
          refine ⟨fun htop => .inr (hlower.trans htop), ?_⟩
          rintro (hfalse | hrow)
          · cases hfalse
          · omega
    refine ⟨(outcome_iff hout).trans hfollows, fun hfollow => ?_⟩
    exact tracked_of_outcome h.width hcolumns hframe
      (fun row col hcursor => (extractCursorPosition_row hcursor).2) hout (hfollows.mpr hfollow)
  | setClearOnShrink enabled =>
    cases hact
    have htracked : Tracked columns rows { tui with clearOnShrink := enabled } place :=
      ⟨h.viewport, h.cursor, h.inside, h.length_le, h.shows, h.running, h.width, h.height⟩
    exact ⟨iff_of_true h.cursor trivial, fun _ => htracked⟩
  | setShowHardwareCursor enabled =>
    unfold act at hact
    dsimp only at hact
    by_cases hsame : tui.showHardwareCursor = enabled
    · rw [if_pos hsame] at hact
      cases hact
      exact ⟨iff_of_true h.cursor trivial, fun _ => h⟩
    · rw [if_neg hsame] at hact
      cases hact
      have htracked : Tracked columns rows { tui with showHardwareCursor := enabled } place :=
        ⟨h.viewport, h.cursor, h.inside, h.length_le, h.shows, h.running, h.width, h.height⟩
      have hplace : place.run rows (if enabled then [] else [hideCursor]) = place := by
        cases enabled <;> rfl
      rw [hplace]
      exact ⟨iff_of_true h.cursor trivial, fun _ => htracked⟩

section Runs

variable {Cell : Type} {blank : Cell} {paint : Line → List Cell}

/-- A run that follows the viewport keeps the renderer's row of the cursor right. -/
theorem tracked_run {actions : List Action} {screen : Screen Cell} (hrows : 0 < rows)
    (hsize : ∀ action ∈ actions, HasSize columns rows action) (hfollowed : Followed env tui actions)
    (h : Tracked columns rows tui place) (hholds : place.Holds rows screen top) {next : Renderer}
    {shown : Screen Cell} {origin : Nat}
    (hrun : runTracked env blank paint columns rows tui screen top actions = some (next, shown, origin)) :
    ∃ last : Terminal.Place, Tracked columns rows next last ∧ last.Holds rows shown origin := by
  induction actions generalizing tui screen top place with
  | nil =>
    cases hrun
    exact ⟨place, h, hholds⟩
  | cons action actions ih =>
    unfold runTracked at hrun
    cases hact : act env tui action with
    | error overflow =>
      rw [hact] at hrun
      cases hrun
    | ok result =>
      obtain ⟨middle, ops⟩ := result
      rw [hact] at hrun
      obtain ⟨⟨drawn, start⟩, hdrawn, hrest⟩ := Option.bind_eq_some_iff.mp hrun
      obtain ⟨hfollows, hafter⟩ := hfollowed
      obtain ⟨-, htracked⟩ := tracked_act hrows (hsize action List.mem_cons_self) h hact
      exact ih (fun other hother => hsize other (List.mem_cons_of_mem _ hother)) (hafter middle ops hact)
        (htracked hfollows) (hholds.run hdrawn) hrest

end Runs

/-- After every action of a run that follows the viewport, the row that the renderer remembers is the row
of the line list on which the terminal's cursor is; and one more action keeps this exactly when it follows
the viewport too. -/
theorem hardwareCursorRow_iff {Cell : Type} (env : Env) (blank : Cell) (paint : Line → List Cell)
    (columns rows : Nat) (hrows : 0 < rows) (showHardwareCursor clearOnShrink : Bool)
    (actions : List Action) (hsize : ∀ action ∈ actions, HasSize columns rows action)
    (hfollowed : Followed env
      { showHardwareCursor := showHardwareCursor, clearOnShrink := clearOnShrink } actions)
    {tui : Renderer} {screen : Screen Cell} {top : Nat}
    (hrun : runTracked env blank paint columns rows
      { showHardwareCursor := showHardwareCursor, clearOnShrink := clearOnShrink } Screen.cleared 0 actions =
        some (tui, screen, top)) :
    tui.hardwareCursorRow = top + screen.cursorRow ∧
      ∀ action next shown origin, HasSize columns rows action →
        runTracked env blank paint columns rows tui screen top [action] = some (next, shown, origin) →
        (next.hardwareCursorRow = origin + shown.cursorRow ↔ Follows env tui action) := by
  have hstart : Tracked columns rows
      { showHardwareCursor := showHardwareCursor, clearOnShrink := clearOnShrink } ⟨0, 0⟩ :=
    ⟨rfl, rfl, ⟨le_refl _, by dsimp only; omega⟩, Nat.zero_le _, .inr ⟨rfl, rfl⟩, rfl, .inl rfl, .inl rfl⟩
  have hcleared : Terminal.Place.Holds rows ⟨0, 0⟩ (Screen.cleared : Screen Cell) 0 := ⟨rfl, rfl, hrows⟩
  obtain ⟨place, htracked, hholds⟩ := tracked_run hrows hsize hfollowed hstart hcleared hrun
  refine ⟨by rw [← htracked.cursor, hholds.cursor_eq], ?_⟩
  intro action next shown origin haction hnext
  unfold runTracked at hnext
  cases hact : act env tui action with
  | error overflow =>
    rw [hact] at hnext
    cases hnext
  | ok result =>
    obtain ⟨middle, ops⟩ := result
    rw [hact] at hnext
    obtain ⟨⟨drawn, start⟩, hdrawn, hrest⟩ := Option.bind_eq_some_iff.mp hnext
    cases hrest
    obtain ⟨hiff, -⟩ := tracked_act hrows haction htracked hact
    rw [← hiff, (hholds.run hdrawn).cursor_eq]
    exact eq_comm

/-- Three lines on a screen of two rows, with the marker in the second line. -/
def markedFrame : Frame := sampleFrame [['a'], cursorMarker ++ ['b'], ['c']]

theorem hardwareCursorRow_marked :
    ∃ tui screen top,
      runTracked sampleEnv ' ' id 80 2 { showHardwareCursor := false, clearOnShrink := false }
          Screen.cleared 0 [.render markedFrame] = some (tui, screen, top) ∧
        tui.hardwareCursorRow = top + screen.cursorRow := by
  obtain ⟨⟨tui, screen, top⟩, hrun⟩ : ∃ reached,
      runTracked sampleEnv ' ' id 80 2 { showHardwareCursor := false, clearOnShrink := false }
        Screen.cleared 0 [.render markedFrame] = some reached :=
    Option.isSome_iff_exists.mp (by decide +kernel)
  have hfollowed : Followed sampleEnv { showHardwareCursor := false, clearOnShrink := false }
      [.render markedFrame] := ⟨fun _ _ _ => .inl (by decide +kernel), fun _ _ _ => trivial⟩
  have hsize : ∀ action ∈ [Action.render markedFrame], HasSize 80 2 action := by
    intro action haction
    rw [List.mem_singleton.mp haction]
    exact ⟨rfl, rfl⟩
  exact ⟨tui, screen, top, hrun,
    (hardwareCursorRow_iff sampleEnv ' ' id 80 2 (by decide) false false _ hsize hfollowed hrun).1⟩

/-- When the last of three lines goes away, the screen still starts with the second one, and the marker in
the first line is above it. -/
theorem hardwareCursorRow_above :
    ∃ tui screen top,
      runTracked sampleEnv ' ' id 80 2 { showHardwareCursor := false, clearOnShrink := false }
          Screen.cleared 0
          [.render (sampleFrame [['a'], ['b'], ['c']]),
            .render (sampleFrame [cursorMarker ++ ['a'], ['b']])] = some (tui, screen, top) ∧
        tui.hardwareCursorRow ≠ top + screen.cursorRow := by
  have hrows : (runTracked sampleEnv ' ' id 80 2 { showHardwareCursor := false, clearOnShrink := false }
      (Screen.cleared : Screen Char) 0
      [.render (sampleFrame [['a'], ['b'], ['c']]),
        .render (sampleFrame [cursorMarker ++ ['a'], ['b']])]).map
        (fun reached => (reached.1.hardwareCursorRow, reached.2.2, reached.2.1.cursorRow)) =
      some (0, 1, 0) := by decide +kernel
  obtain ⟨⟨tui, screen, top⟩, hrun, hreached⟩ := Option.map_eq_some_iff.mp hrows
  refine ⟨tui, screen, top, hrun, ?_⟩
  obtain ⟨hrow, htop, hcursor⟩ : tui.hardwareCursorRow = 0 ∧ top = 1 ∧ screen.cursorRow = 0 := by
    simpa using hreached
  rw [hrow, htop, hcursor]
  decide

end Tui
