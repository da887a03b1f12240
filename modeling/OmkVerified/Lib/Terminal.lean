import Mathlib

/-!
# A terminal screen

The part of a terminal that a line-oriented program drives: carriage return, line feed that scrolls
at the bottom row, relative moves that stop at the edges, erasing, and text that fits its row. A
screen is then seen as a window on an endless page, where scrolling only moves the window.
-/

namespace Lib.Terminal

variable {Text Cell : Type}

/-- What a program sends to a terminal. -/
inductive Op (Text : Type)
  /-- Text, painted from the cursor on. -/
  | text (text : Text)
  | carriageReturn
  | lineFeed
  | up (count : Nat)
  | down (count : Nat)
  /-- An absolute column, counted from one. -/
  | column (count : Nat)
  | eraseLine
  | clearScreen
  | home
  | clearScrollback
  /-- A sequence that changes neither the cells nor the position of the cursor. -/
  | control (sequence : String)

/-- The rows of a screen, each without the blank cells at its end, and the cursor. -/
structure Screen (Cell : Type) where
  row : Nat → List Cell
  cursorRow : Nat
  cursorColumn : Nat

/-- A cleared screen with the cursor at its top left. -/
def Screen.cleared : Screen Cell := ⟨fun _ => [], 0, 0⟩

/-- The next row, with the rows scrolled up where the cursor is at the bottom. -/
def Screen.lineFeed (height : Nat) (screen : Screen Cell) : Screen Cell :=
  if screen.cursorRow + 1 < height then { screen with cursorRow := screen.cursorRow + 1 }
  else { screen with row := fun i => if i + 1 < height then screen.row (i + 1) else [] }

/-- The cells painted from a column of a row on. -/
def paintAt (blank : Cell) (row : List Cell) (column : Nat) (cells : List Cell) : List Cell :=
  row.take column ++ List.replicate (column - row.length) blank ++ cells ++
    row.drop (column + cells.length)

variable {α : Type}
variable (blank : Cell) (paint : Text → List Cell) (height width : Nat)

/-- One sequence. Text that does not fit the row is not modelled. -/
def Screen.exec (screen : Screen Cell) : Op Text → Option (Screen Cell)
  | .text text =>
    if screen.cursorColumn + (paint text).length ≤ width then
      some
        { screen with
          row := Function.update screen.row screen.cursorRow
            (paintAt blank (screen.row screen.cursorRow) screen.cursorColumn (paint text))
          cursorColumn := screen.cursorColumn + (paint text).length }
    else none
  | .carriageReturn => some { screen with cursorColumn := 0 }
  | .lineFeed => some (screen.lineFeed height)
  | .up count => some { screen with cursorRow := screen.cursorRow - max count 1 }
  | .down count => some { screen with cursorRow := min (screen.cursorRow + max count 1) (height - 1) }
  | .column count => some { screen with cursorColumn := min (count - 1) (width - 1) }
  | .eraseLine => some { screen with row := Function.update screen.row screen.cursorRow [] }
  | .clearScreen => some { screen with row := fun _ => [] }
  | .home => some { screen with cursorRow := 0, cursorColumn := 0 }
  | .clearScrollback | .control _ => some screen

/-- A whole buffer. -/
def Screen.run (screen : Screen Cell) : List (Op Text) → Option (Screen Cell)
  | [] => some screen
  | op :: ops => (screen.exec blank paint height width op).bind fun next => next.run ops

theorem run_append (screen : Screen Cell) (first second : List (Op Text)) :
    screen.run blank paint height width (first ++ second) =
      (screen.run blank paint height width first).bind fun next =>
        next.run blank paint height width second := by
  induction first generalizing screen with
  | nil => rfl
  | cons op ops ih =>
    simp only [List.cons_append, Screen.run, Option.bind_assoc]
    exact congrArg _ (funext ih)

/-! ## The page behind the screen -/

/-- The screen is the window of `height` rows from `top` on of a page that is blank below it, with
the cursor in row `cursor` of the page. -/
structure Window (height : Nat) (page : Nat → List Cell) (top cursor : Nat) (screen : Screen Cell) :
    Prop where
  row : ∀ i < height, screen.row i = page (top + i)
  below : ∀ q, top + height ≤ q → page q = []
  cursor : cursor = top + screen.cursorRow
  inside : screen.cursorRow < height

/-- The page with the cells of a list of things in the rows from `start` on. -/
def written (cells : α → List Cell) (page : Nat → List Cell) (start : Nat) (things : List α) :
    Nat → List Cell := fun q =>
  if q < start then page q else (things[q - start]?).elim (page q) cells

/-- A page that holds these rows and nothing else. -/
def pageOf (cells : α → List Cell) (things : List α) : Nat → List Cell := fun q =>
  (things[q]?).elim [] cells

/-- A window with the cursor in the first column. -/
structure LineStart (height : Nat) (page : Nat → List Cell) (top cursor : Nat)
    (screen : Screen Cell) : Prop extends Window height page top cursor screen where
  column : screen.cursorColumn = 0

/-- Every screen with the first property is taken by the buffer to one with the second. -/
def Draws (ops : List (Op Text)) (before after : Screen Cell → Prop) : Prop :=
  ∀ screen, before screen → ∃ next, screen.run blank paint height width ops = some next ∧ after next

variable {blank paint height width}
variable {page : Nat → List Cell} {top cursor : Nat}

theorem Window.page_row {screen : Screen Cell} (hw : Window height page top cursor screen) :
    screen.row screen.cursorRow = page cursor := by
  rw [hw.row _ hw.inside, hw.cursor]

/-- A row of the window changes where the cursor is. -/
theorem Window.update {screen : Screen Cell} (hw : Window height page top cursor screen)
    (cells : List Cell) (column : Nat) :
    Window height (Function.update page cursor cells) top cursor
      ⟨Function.update screen.row screen.cursorRow cells, screen.cursorRow, column⟩ := by
  have hcursor := hw.cursor
  have hinside := hw.inside
  refine ⟨fun i hi => ?_, fun q hq => ?_, hw.cursor, hw.inside⟩
  · show Function.update screen.row screen.cursorRow cells i =
      Function.update page cursor cells (top + i)
    by_cases hrow : i = screen.cursorRow
    · rw [hrow, ← hcursor, Function.update_self, Function.update_self]
    · rw [Function.update_of_ne hrow, Function.update_of_ne (by omega)]
      exact hw.row i hi
  · rw [Function.update_of_ne (by omega)]
    exact hw.below q hq

/-! ## Pages of lines -/

variable {cells : α → List Cell}

theorem written_nil (start : Nat) : written cells page start [] = page := by
  funext q
  simp [written]

theorem written_cons (start : Nat) (thing : α) (things : List α) :
    written cells page start (thing :: things) =
      written cells (Function.update page start (cells thing)) (start + 1) things := by
  funext q
  unfold written
  rcases lt_trichotomy q start with hq | hq | hq
  · rw [if_pos hq, if_pos (by omega), Function.update_of_ne (by omega)]
  · subst hq
    simp
  · rw [if_neg (by omega), if_neg (by omega), Function.update_of_ne (by omega)]
    rw [show q - start = q - (start + 1) + 1 by omega, List.getElem?_cons_succ]

theorem written_of_lt {start q : Nat} (hq : q < start) (things : List α) :
    written cells page start things q = page q :=
  if_pos hq

theorem written_of_getElem? {start q : Nat} {things : List α} {thing : α} (hq : start ≤ q)
    (hthing : things[q - start]? = some thing) :
    written cells page start things q = cells thing := by
  unfold written
  rw [if_neg (by omega), hthing]
  rfl

theorem written_of_length_le {start q : Nat} {things : List α} (hq : start + things.length ≤ q) :
    written cells page start things q = page q := by
  unfold written
  rw [if_neg (by omega), List.getElem?_eq_none (by omega)]
  rfl

theorem pageOf_of_length_le {things : List α} {q : Nat} (hq : things.length ≤ q) :
    pageOf cells things q = [] := by
  unfold pageOf
  rw [List.getElem?_eq_none hq]
  rfl

theorem pageOf_congr {first second : List α} {q : Nat} (hq : first[q]? = second[q]?) :
    pageOf cells first q = pageOf cells second q := by
  unfold pageOf
  rw [hq]

namespace Draws

variable {first second ops : List (Op Text)} {before middle after : Screen Cell → Prop}

theorem nil : Draws blank paint height width [] before before :=
  fun screen hscreen => ⟨screen, rfl, hscreen⟩

theorem append (hfirst : Draws blank paint height width first before middle)
    (hsecond : Draws blank paint height width second middle after) :
    Draws blank paint height width (first ++ second) before after := by
  intro screen hbefore
  obtain ⟨next, hrun, hmiddle⟩ := hfirst screen hbefore
  obtain ⟨last, hlast, hafter⟩ := hsecond next hmiddle
  refine ⟨last, ?_, hafter⟩
  rw [run_append, hrun]
  exact hlast

theorem cons {op : Op Text} (hfirst : Draws blank paint height width [op] before middle)
    (hsecond : Draws blank paint height width ops middle after) :
    Draws blank paint height width (op :: ops) before after :=
  append hfirst hsecond

theorem weaken {weaker : Screen Cell → Prop} (hdraws : Draws blank paint height width ops before after)
    (hweaker : ∀ screen, after screen → weaker screen) :
    Draws blank paint height width ops before weaker := by
  intro screen hbefore
  obtain ⟨next, hrun, hafter⟩ := hdraws screen hbefore
  exact ⟨next, hrun, hweaker next hafter⟩

theorem strengthen {stronger : Screen Cell → Prop}
    (hdraws : Draws blank paint height width ops before after)
    (hstronger : ∀ screen, stronger screen → before screen) :
    Draws blank paint height width ops stronger after :=
  fun screen hscreen => hdraws screen (hstronger screen hscreen)

theorem single {op : Op Text}
    (hexec : ∀ screen, before screen →
      ∃ next, screen.exec blank paint height width op = some next ∧ after next) :
    Draws blank paint height width [op] before after := by
  intro screen hbefore
  obtain ⟨next, hrun, hafter⟩ := hexec screen hbefore
  refine ⟨next, ?_, hafter⟩
  simp only [Screen.run, hrun, Option.bind_some]

theorem control (sequence : String) :
    Draws blank paint height width [.control sequence] before before :=
  single fun screen hscreen => ⟨screen, rfl, hscreen⟩

theorem carriageReturn :
    Draws blank paint height width [.carriageReturn]
      (Window height page top cursor) (LineStart height page top cursor) :=
  single fun _ hw => ⟨_, rfl, ⟨⟨hw.row, hw.below, hw.cursor, hw.inside⟩, rfl⟩⟩

theorem lineFeed :
    Draws blank paint height width [.lineFeed] (LineStart height page top cursor)
      (LineStart height page (max top (cursor + 2 - height)) (cursor + 1)) := by
  refine single fun screen hw => ⟨_, rfl, ?_⟩
  have hcursor := hw.cursor
  have hinside := hw.inside
  unfold Screen.lineFeed
  by_cases hbottom : screen.cursorRow + 1 < height
  · rw [if_pos hbottom, max_eq_left (by omega)]
    exact ⟨⟨hw.row, hw.below, by simp only; omega, hbottom⟩, hw.column⟩
  · rw [if_neg hbottom, show max top (cursor + 2 - height) = top + 1 by omega]
    refine ⟨⟨fun i hi => ?_, fun q hq => hw.below q (by omega), by simp only; omega, hinside⟩,
      hw.column⟩
    by_cases hi1 : i + 1 < height
    · simp only [hi1, if_true]
      rw [hw.row (i + 1) hi1]
      congr 1
      omega
    · simp only [hi1, if_false]
      exact (hw.below (top + 1 + i) (by omega)).symm

theorem newline :
    Draws blank paint height width [.carriageReturn, .lineFeed] (Window height page top cursor)
      (LineStart height page (max top (cursor + 2 - height)) (cursor + 1)) :=
  cons carriageReturn lineFeed

theorem eraseLine :
    Draws blank paint height width [.eraseLine] (LineStart height page top cursor)
      (LineStart height (Function.update page cursor []) top cursor) :=
  single fun screen hw => ⟨_, rfl, ⟨hw.toWindow.update [] screen.cursorColumn, hw.column⟩⟩

/-- Text that fits shows in a blank row as it is. -/
theorem text {t : Text} (hblank : page cursor = []) (hfits : (paint t).length ≤ width) :
    Draws blank paint height width [.text t] (LineStart height page top cursor)
      (Window height (Function.update page cursor (paint t)) top cursor) := by
  refine single fun screen hw => ?_
  have hrow : screen.row screen.cursorRow = [] := by rw [hw.page_row, hblank]
  have hpainted : paintAt blank (screen.row screen.cursorRow) screen.cursorColumn (paint t) =
      paint t := by
    rw [hrow, hw.column]
    simp [paintAt]
  refine ⟨_, if_pos (by rw [hw.column]; omega), ?_⟩
  rw [hpainted]
  exact hw.toWindow.update _ _

theorem up {count : Nat} (hcount : 0 < count) (hinside : top + count ≤ cursor) :
    Draws blank paint height width [.up count] (Window height page top cursor)
      (Window height page top (cursor - count)) := by
  refine single fun screen hw => ⟨_, rfl, ?_⟩
  have hcursor := hw.cursor
  have hrow := hw.inside
  rw [max_eq_left (by omega)]
  exact ⟨hw.row, hw.below, by simp only; omega, by simp only; omega⟩

theorem down {count : Nat} (hcount : 0 < count) (hinside : cursor + count < top + height) :
    Draws blank paint height width [.down count] (Window height page top cursor)
      (Window height page top (cursor + count)) := by
  refine single fun screen hw => ⟨_, rfl, ?_⟩
  have hcursor := hw.cursor
  rw [max_eq_left (by omega), min_eq_left (by omega)]
  exact ⟨hw.row, hw.below, by simp only; omega, by simp only; omega⟩

theorem clear (hheight : 0 < height) :
    Draws blank paint height width [.clearScreen, .home, .clearScrollback] before
      (LineStart height (fun _ => []) 0 0) := by
  intro screen _
  refine ⟨⟨fun _ => [], 0, 0⟩, rfl, ?_⟩
  exact ⟨⟨fun _ _ => rfl, fun _ _ => rfl, rfl, hheight⟩, rfl⟩

/-- Rows one below the other, each drawn in the row below the one before it. -/
theorem rows {body : α → List (Op Text)} {cells : α → List Cell}
    {Free : (Nat → List Cell) → Nat → Prop} {things : List α}
    (hbody : ∀ thing ∈ things, ∀ page top cursor, Free page cursor →
      Draws blank paint height width (body thing) (LineStart height page top cursor)
        (Window height (Function.update page cursor (cells thing)) top cursor))
    (hfree : ∀ page cursor row, Free page cursor →
      Free (Function.update page cursor row) (cursor + 1))
    (hstart : Free page (cursor + 1)) :
    Draws blank paint height width
      (things.flatMap fun thing => [.carriageReturn, .lineFeed] ++ body thing)
      (Window height page top cursor)
      (Window height (written cells page (cursor + 1) things)
        (max top (cursor + things.length + 1 - height)) (cursor + things.length)) := by
  induction things generalizing page top cursor with
  | nil =>
    intro screen hw
    have hcursor := hw.cursor
    have hinside := hw.inside
    refine ⟨screen, rfl, ?_⟩
    rw [written_nil, List.length_nil, Nat.add_zero, max_eq_left (by omega)]
    exact hw
  | cons thing things ih =>
    rw [List.flatMap_cons, List.append_assoc]
    refine newline.append ((hbody thing (by simp) _ _ _ hstart).append ?_)
    refine (ih (fun other hother => hbody other (by simp [hother])) (hfree _ _ _ hstart)).weaken ?_
    intro screen hw
    rw [written_cons, List.length_cons,
      show cursor + (things.length + 1) = cursor + 1 + things.length by omega,
      show max top (cursor + 1 + things.length + 1 - height) =
        max (max top (cursor + 2 - height)) (cursor + 1 + things.length + 1 - height) by omega]
    exact hw

end Draws

end Lib.Terminal

/-!
# Where the cursor of a terminal is

On the endless page behind a screen the cursor has a row of its own, which scrolling does not change. It is
counted from where the cursor was last sent home. What is written beside the cursor does not matter here.
-/

namespace Lib.Terminal

variable {Text Cell : Type}
variable (blank : Cell) (paint : Text → List Cell) (height width : Nat)

/-- The row of the page at the top of the screen, behind one sequence. -/
def topAfter (screen : Screen Cell) (top : Nat) : Op Text → Nat
  | .lineFeed => if screen.cursorRow + 1 < height then top else top + 1
  | .home => 0
  | _ => top

/-- A whole buffer, with the row of the page at the top of the screen. -/
def Screen.runFrom (screen : Screen Cell) (top : Nat) : List (Op Text) → Option (Screen Cell × Nat)
  | [] => some (screen, top)
  | op :: ops =>
    (screen.exec blank paint height width op).bind fun next =>
      next.runFrom (topAfter height screen top op) ops

/-- The rows of the page in which the screen starts and the cursor is. -/
structure Place where
  top : Nat
  cursor : Nat

/-- The cursor is on the screen. -/
def Place.Inside (height : Nat) (place : Place) : Prop :=
  place.top ≤ place.cursor ∧ place.cursor < place.top + height

/-- One sequence: moves stop at the edges of the screen, and only a line feed goes beyond. -/
def Place.exec (height : Nat) (place : Place) : Op Text → Place
  | .lineFeed => ⟨max place.top (place.cursor + 2 - height), place.cursor + 1⟩
  | .up count => ⟨place.top, max place.top (place.cursor - max count 1)⟩
  | .down count => ⟨place.top, min (place.cursor + max count 1) (place.top + height - 1)⟩
  | .home => ⟨0, 0⟩
  | _ => place

def Place.run (height : Nat) (place : Place) (ops : List (Op Text)) : Place :=
  ops.foldl (Place.exec height) place

/-- The cursor of the screen is at the place. -/
structure Place.Holds (height : Nat) (place : Place) (screen : Screen Cell) (top : Nat) : Prop where
  top_eq : place.top = top
  cursor_eq : place.cursor = top + screen.cursorRow
  inside : screen.cursorRow < height

variable {blank paint height width}

theorem Place.Holds.exec {place : Place} {screen next : Screen Cell} {top : Nat} {op : Op Text}
    (h : place.Holds height screen top) (hop : screen.exec blank paint height width op = some next) :
    (place.exec height op).Holds height next (topAfter height screen top op) := by
  obtain ⟨start, cursor⟩ := place
  obtain ⟨htop, hcursor, hinside⟩ := h
  dsimp only at htop hcursor
  subst htop hcursor
  cases op with
  | text text =>
    unfold Screen.exec at hop
    dsimp only at hop
    split_ifs at hop
    cases hop
    exact ⟨rfl, rfl, hinside⟩
  | lineFeed =>
    cases hop
    unfold Place.exec topAfter Screen.lineFeed
    split_ifs with hroom
    · exact ⟨by dsimp only; omega, by dsimp only; omega, hroom⟩
    · exact ⟨by dsimp only; omega, by dsimp only; omega, hinside⟩
  | up count =>
    cases hop
    exact ⟨rfl, by simp only [Place.exec, topAfter]; omega, by dsimp only; omega⟩
  | down count =>
    cases hop
    exact ⟨rfl, by simp only [Place.exec, topAfter]; omega, by dsimp only; omega⟩
  | home =>
    cases hop
    exact ⟨rfl, rfl, by dsimp only; omega⟩
  | _ =>
    cases hop
    exact ⟨rfl, rfl, hinside⟩

/-- The place of the cursor follows the screen. -/
theorem Place.Holds.run {place : Place} {screen next : Screen Cell} {top last : Nat} {ops : List (Op Text)}
    (h : place.Holds height screen top)
    (hrun : screen.runFrom blank paint height width top ops = some (next, last)) :
    (place.run height ops).Holds height next last := by
  induction ops generalizing place screen top with
  | nil =>
    cases hrun
    exact h
  | cons op ops ih =>
    obtain ⟨middle, hop, hrest⟩ := Option.bind_eq_some_iff.mp hrun
    exact ih (h.exec hop) hrest

namespace Place

variable {place : Place} {ops first second : List (Op Text)} {op : Op Text}

@[simp]
theorem run_nil : place.run height ([] : List (Op Text)) = place := rfl

theorem run_cons : place.run height (op :: ops) = (place.exec height op).run height ops := rfl

theorem run_append :
    place.run height (first ++ second) = (place.run height first).run height second :=
  List.foldl_append

/-- Blocks of sequences, none of which moves the cursor to another row. -/
theorem run_flatMap {β : Type} {items : List β} {block : β → List (Op Text)}
    (hblock : ∀ item ∈ items, ∀ place : Place, place.run height (block item) = place) :
    place.run height (items.flatMap block) = place := by
  induction items with
  | nil => rfl
  | cons item items ih =>
    rw [List.flatMap_cons, run_append, hblock item List.mem_cons_self]
    exact ih fun other hother => hblock other (List.mem_cons_of_mem _ hother)

/-- Blocks one below the other, each in the row behind a line feed. -/
theorem run_rows {β : Type} {items : List β} {block : β → List (Op Text)}
    (hblock : ∀ item ∈ items, ∀ place : Place,
      place.run height (block item) = place.exec height (.lineFeed : Op Text))
    (hinside : place.cursor < place.top + height) :
    place.run height (items.flatMap block) =
      ⟨max place.top (place.cursor + items.length + 1 - height), place.cursor + items.length⟩ := by
  induction items generalizing place with
  | nil =>
    obtain ⟨top, cursor⟩ := place
    have htop : max top (cursor + 0 + 1 - height) = top := by
      dsimp only at hinside
      omega
    rw [List.flatMap_nil, run_nil, List.length_nil, htop]
    rfl
  | cons item items ih =>
    have hnext : (place.exec height (.lineFeed : Op Text)).cursor <
        (place.exec height (.lineFeed : Op Text)).top + height := by
      unfold exec
      dsimp only
      omega
    rw [List.flatMap_cons, run_append, hblock item List.mem_cons_self,
      ih (fun other hother => hblock other (List.mem_cons_of_mem _ hother)) hnext]
    unfold exec
    rw [List.length_cons, Place.mk.injEq]
    dsimp only
    omega

/-- Blocks one below the other that do not go beyond the last row of the screen. -/
theorem run_downs {β : Type} {items : List β} {block : β → List (Op Text)}
    (hblock : ∀ item ∈ items, ∀ place : Place,
      place.run height (block item) = place.exec height (.down 1 : Op Text))
    (hinside : place.cursor < place.top + height) :
    place.run height (items.flatMap block) =
      ⟨place.top, min (place.cursor + items.length) (place.top + height - 1)⟩ := by
  induction items generalizing place with
  | nil =>
    obtain ⟨top, cursor⟩ := place
    rw [List.flatMap_nil, run_nil, List.length_nil, Place.mk.injEq]
    dsimp only at *
    omega
  | cons item items ih =>
    have hnext : (place.exec height (.down 1 : Op Text)).cursor <
        (place.exec height (.down 1 : Op Text)).top + height := by
      unfold exec
      dsimp only
      omega
    rw [List.flatMap_cons, run_append, hblock item List.mem_cons_self,
      ih (fun other hother => hblock other (List.mem_cons_of_mem _ hother)) hnext]
    unfold exec
    rw [List.length_cons, Place.mk.injEq]
    dsimp only
    omega

end Place

end Lib.Terminal
