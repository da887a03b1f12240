import OmkVerified.Tui.Render

/-!
# The screen follows the renderer

After every render the screen is a window on the page of the lines that were rendered last, and the
renderer knows where the window and the cursor are.
-/

namespace Tui

open Lib Terminal

/-! ## Lines without images -/

theorem kittyPrefix_eq : kittyPrefix = ['\x1b', '_', 'G'] := by decide +kernel

theorem segmentReset_eq : segmentReset = '\x1b' :: segmentReset.tail := by decide +kernel

theorem segmentReset_ne_nil : segmentReset ≠ [] := by
  rw [segmentReset_eq]
  exact List.cons_ne_nil _ _

theorem isSome_map_add_one (found : Option Nat) : (found.map (· + 1)).isSome = found.isSome := by
  cases found <;> rfl

theorem includes_cons (part : List Char) (c : Char) (rest : List Char) :
    includes (c :: rest) part = (part.isPrefixOf (c :: rest) || includes rest part) := by
  unfold includes
  by_cases hstart : part.isPrefixOf (c :: rest) = true
  · simp [indexOf, hstart]
  · simp only [indexOf, hstart, Bool.false_eq_true, if_false, isSome_map_add_one, Bool.false_or]

theorem normalizeChar_cases (c : Char) :
    normalizeChar c = [c] ∨
      ∃ first second, normalizeChar c = [first, second] ∧ first ∈ ['\u0e4d', '\u0ecd'] ∧
        second ∈ ['\u0e32', '\u0eb2'] := by
  unfold normalizeChar
  by_cases hthai : c = '\u0e33'
  · rw [if_pos hthai]
    exact .inr ⟨_, _, rfl, by simp, by simp⟩
  · rw [if_neg hthai]
    by_cases hlao : c = '\u0eb3'
    · rw [if_pos hlao]
      exact .inr ⟨_, _, rfl, by simp, by simp⟩
    · rw [if_neg hlao]
      exact .inl rfl

/-- A text that starts the normalized line starts the line, where it holds none of the characters
that normalization writes and the reset does not continue it. -/
theorem isPrefixOf_normalize {part : List Char}
    (hplain : ∀ c ∈ part, c ∉ ['\u0e4d', '\u0ecd', '\x1b']) (line : Line)
    (h : part.isPrefixOf (normalizeTerminalOutput line ++ segmentReset) = true) :
    part.isPrefixOf line = true := by
  induction part generalizing line with
  | nil => rfl
  | cons p part ih =>
    have hp := hplain p (by simp)
    have hrest : ∀ c ∈ part, c ∉ ['\u0e4d', '\u0ecd', '\x1b'] := fun c hc => hplain c (by simp [hc])
    cases line with
    | nil =>
      rw [normalizeTerminalOutput, List.flatMap_nil, List.nil_append, segmentReset_eq,
        List.isPrefixOf, Bool.and_eq_true, beq_iff_eq] at h
      exact absurd h.1 (by rintro rfl; exact hp (by simp))
    | cons c line =>
      rw [normalizeTerminalOutput, List.flatMap_cons] at h
      rcases normalizeChar_cases c with hc | ⟨first, second, hc, hfirst, -⟩
      · rw [hc, List.cons_append, List.nil_append, List.cons_append, List.isPrefixOf,
          Bool.and_eq_true] at h
        rw [List.isPrefixOf, Bool.and_eq_true]
        exact ⟨h.1, ih hrest line h.2⟩
      · rw [hc, List.cons_append, List.cons_append, List.isPrefixOf, Bool.and_eq_true,
          beq_iff_eq] at h
        rw [h.1] at hp
        simp only [List.mem_cons, List.not_mem_nil, or_false] at hp hfirst
        exact absurd hfirst (by tauto)

theorem includes_segmentReset : includes segmentReset kittyPrefix = false := by decide +kernel

theorem includes_of_second {second : Char} {rest : List Char} (hsecond : second ∈ ['\u0e32', '\u0eb2']) :
    includes (second :: rest) kittyPrefix = includes rest kittyPrefix := by
  rw [includes_cons, kittyPrefix_eq]
  simp only [List.mem_cons, List.not_mem_nil, or_false] at hsecond
  rcases hsecond with rfl | rfl <;> simp [List.isPrefixOf]

theorem includes_applyLineReset {line : Line} (h : includes line kittyPrefix = false) :
    includes (normalizeTerminalOutput line ++ segmentReset) kittyPrefix = false := by
  induction line with
  | nil => exact includes_segmentReset
  | cons c line ih =>
    rw [includes_cons, Bool.or_eq_false_iff] at h
    have hrest := ih h.2
    rw [normalizeTerminalOutput, List.flatMap_cons]
    rw [normalizeTerminalOutput] at hrest
    rcases normalizeChar_cases c with hc | ⟨first, second, hc, hfirst, hsecond⟩
    · rw [hc, List.cons_append, List.nil_append, List.cons_append, includes_cons, hrest,
        Bool.or_false]
      rw [← Bool.not_eq_true]
      intro hstart
      rw [kittyPrefix_eq, List.isPrefixOf, Bool.and_eq_true] at hstart
      have hcontinued := isPrefixOf_normalize (by simp) line hstart.2
      have hprefixed : kittyPrefix.isPrefixOf (c :: line) = true := by
        rw [kittyPrefix_eq, List.isPrefixOf, Bool.and_eq_true]
        exact ⟨hstart.1, hcontinued⟩
      rw [h.1] at hprefixed
      cases hprefixed
    · rw [hc, List.append_assoc, List.cons_append, List.cons_append, List.nil_append,
        includes_cons, includes_of_second hsecond, hrest, Bool.or_false, kittyPrefix_eq]
      simp only [List.mem_cons, List.not_mem_nil, or_false] at hfirst
      rcases hfirst with rfl | rfl <;> simp [List.isPrefixOf]

theorem applyLineReset_of_plain {line : Line} (h : isImageLine line = false) :
    applyLineReset line = normalizeTerminalOutput line ++ segmentReset := by
  unfold applyLineReset
  rw [h]
  rfl

theorem extractKittyImageIds_of_plain (env : Env) {line : Line}
    (h : includes line kittyPrefix = false) : extractKittyImageIds env line = [] := by
  unfold includes at h
  unfold extractKittyImageIds
  cases hfound : indexOf kittyPrefix line with
  | none => rfl
  | some start => simp [hfound] at h

/-- What the renderer keeps of lines without images: none is empty and none holds an identifier. -/
structure Plain (env : Env) (lines : List Line) : Prop where
  ne_nil : ∀ line ∈ lines, line ≠ []
  noImages : ∀ line ∈ lines, extractKittyImageIds env line = []

theorem plain_applyLineResets (env : Env) {lines : List Line}
    (h : ∀ line ∈ lines, isImageLine line = false) : Plain env (applyLineResets lines) := by
  constructor
  · intro line hline
    obtain ⟨source, hsource, rfl⟩ := List.mem_map.mp hline
    rw [applyLineReset_of_plain (h source hsource)]
    exact List.append_ne_nil_of_right_ne_nil _ segmentReset_ne_nil
  · intro line hline
    obtain ⟨source, hsource, rfl⟩ := List.mem_map.mp hline
    have hplain := h source hsource
    rw [applyLineReset_of_plain hplain]
    rw [isImageLine, Bool.or_eq_false_iff] at hplain
    exact extractKittyImageIds_of_plain env (includes_applyLineReset hplain.1)

namespace Plain

variable {env : Env} {lines : List Line}

theorem collect (h : Plain env lines) : collectKittyImageIds env lines = [] := by
  have hflat : lines.flatMap (extractKittyImageIds env) = [] := by
    rw [List.flatMap_eq_nil_iff]
    exact h.noImages
  rw [collectKittyImageIds, hflat]
  rfl

theorem sublist (h : Plain env lines) {part : List Line} (hpart : part.Sublist lines) :
    Plain env part :=
  ⟨fun line hline => h.ne_nil line (hpart.subset hline),
    fun line hline => h.noImages line (hpart.subset hline)⟩

theorem deleteChanged (h : Plain env lines) (firstChanged lastChanged : Nat) :
    deleteChangedKittyImages env lines firstChanged lastChanged = [] := by
  unfold deleteChangedKittyImages
  by_cases hlast : lastChanged < firstChanged
  · rw [if_pos hlast]
  · rw [if_neg hlast,
      (h.sublist ((List.drop_sublist _ _).trans (List.take_sublist _ _))).collect]
    rfl

theorem lineAt_noImages (h : Plain env lines) (row : Nat) :
    extractKittyImageIds env (lineAt lines row) = [] := by
  unfold lineAt
  rw [List.getD_eq_getElem?_getD]
  cases hline : lines[row]? with
  | none => exact extractKittyImageIds_of_plain env (by rfl)
  | some line => exact h.noImages line (List.mem_of_getElem? hline)

theorem expand (h : Plain env lines) (firstChanged lastChanged : Nat) :
    expandLastChangedForKittyImages env lines firstChanged lastChanged = lastChanged := by
  unfold expandLastChangedForKittyImages
  generalize (List.range lines.length).drop firstChanged = rows
  induction rows with
  | nil => rfl
  | cons row rows ih =>
    rw [List.foldl_cons, if_pos (h.lineAt_noImages row)]
    exact ih

theorem getElem?_eq {other : List Line} (h : Plain env lines) (hother : Plain env other) {row : Nat}
    (hline : lineAt lines row = lineAt other row) : lines[row]? = other[row]? := by
  unfold lineAt at hline
  rw [List.getD_eq_getElem?_getD, List.getD_eq_getElem?_getD] at hline
  cases hfirst : lines[row]? with
  | none =>
    cases hsecond : other[row]? with
    | none => rfl
    | some line =>
      rw [hfirst, hsecond] at hline
      exact absurd hline.symm (hother.ne_nil line (List.mem_of_getElem? hsecond))
  | some line =>
    cases hsecond : other[row]? with
    | none =>
      rw [hfirst, hsecond] at hline
      exact absurd hline (h.ne_nil line (List.mem_of_getElem? hfirst))
    | some second =>
      rw [hfirst, hsecond] at hline
      exact congrArg some hline

end Plain

/-- Without a marker there is no position of the cursor and the lines stay as they are. -/
theorem extractCursorPosition_of_unmarked (env : Env) {lines : List Line} (height : Nat)
    (h : ∀ line ∈ lines, includes line cursorMarker = false) :
    extractCursorPosition env lines height = (none, lines) := by
  unfold extractCursorPosition
  have hnone : (((List.range lines.length).drop (lines.length - height)).reverse.find? fun row =>
      includes (lineAt lines row) cursorMarker) = none := by
    rw [List.find?_eq_none]
    intro row hrow
    have hlt : row < lines.length := by
      have hmem := List.mem_of_mem_drop (List.mem_reverse.mp hrow)
      exact List.mem_range.mp hmem
    rw [lineAt, List.getD_eq_getElem _ _ hlt, h _ (List.getElem_mem hlt)]
    exact Bool.false_ne_true
  simp only [hnone]

/-! ## The rows that changed -/

theorem mem_changedRows {previousLines newLines : List Line} {row : Nat} :
    row ∈ changedRows previousLines newLines ↔
      row < max newLines.length previousLines.length ∧
        lineAt previousLines row ≠ lineAt newLines row := by
  unfold changedRows
  rw [List.mem_filter, List.mem_range, decide_eq_true_eq]

theorem sorted_changedRows (previousLines newLines : List Line) :
    (changedRows previousLines newLines).Pairwise (· < ·) :=
  List.pairwise_lt_range.filter _

theorem head_le {rows : List Nat} (hsorted : rows.Pairwise (· < ·)) {first row : Nat}
    (hfirst : rows.head? = some first) (hrow : row ∈ rows) : first ≤ row := by
  cases rows with
  | nil => cases hrow
  | cons r rows =>
    cases hfirst
    rcases List.mem_cons.mp hrow with rfl | hrest
    · exact le_rfl
    · exact le_of_lt (List.rel_of_pairwise_cons hsorted hrest)

theorem le_last {rows : List Nat} (hsorted : rows.Pairwise (· < ·)) {last row : Nat}
    (hlast : rows.getLast? = some last) (hrow : row ∈ rows) : row ≤ last := by
  obtain ⟨front, rfl⟩ := List.getLast?_eq_some_iff.mp hlast
  rcases List.mem_append.mp hrow with hfront | hend
  · exact le_of_lt ((List.pairwise_append.mp hsorted).2.2 row hfront last (by simp))
  · rw [List.mem_singleton.mp hend]

section Changes

variable {env : Env} {previousLines newLines : List Line}

/-- Where both lists have the same text, there is nothing to change. -/
theorem getElem?_eq_of_not_mem (hprevious : Plain env previousLines) (hnew : Plain env newLines)
    {row : Nat} (h : row ∉ changedRows previousLines newLines) :
    previousLines[row]? = newLines[row]? := by
  by_cases hrow : row < max newLines.length previousLines.length
  · refine hprevious.getElem?_eq hnew ?_
    by_contra hline
    exact h ((mem_changedRows).mpr ⟨hrow, hline⟩)
  · rw [List.getElem?_eq_none (by omega), List.getElem?_eq_none (by omega)]

theorem mem_changedRows_of_appended (hnew : Plain env newLines)
    (happended : previousLines.length < newLines.length) :
    previousLines.length ∈ changedRows previousLines newLines := by
  refine (mem_changedRows).mpr ⟨by omega, ?_⟩
  unfold lineAt
  rw [List.getD_eq_default _ _ (by omega), List.getD_eq_getElem _ _ happended]
  exact (hnew.ne_nil _ (List.getElem_mem happended)).symm

/-- What the range says about the two lists. -/
structure Changed (previousLines newLines : List Line) (first last : Nat) : Prop where
  before : ∀ row < first, previousLines[row]? = newLines[row]?
  after : ∀ row, last < row → previousLines[row]? = newLines[row]?
  first_le_last : first ≤ last
  first_le : first ≤ previousLines.length
  appended : first = previousLines.length → previousLines.length < newLines.length
  last_of_appended : previousLines.length < newLines.length → last + 1 = newLines.length

theorem changed_of_range (hprevious : Plain env previousLines) (hnew : Plain env newLines)
    {first last : Nat} (h : changedRange previousLines newLines = some (first, last)) :
    Changed previousLines newLines first last := by
  have hsorted := sorted_changedRows previousLines newLines
  unfold changedRange at h
  by_cases happended : previousLines.length < newLines.length
  · rw [if_pos happended] at h
    have hmem := mem_changedRows_of_appended hnew happended
    cases hhead : (changedRows previousLines newLines).head? with
    | none =>
      rw [List.head?_eq_none_iff.mp hhead] at hmem
      cases hmem
    | some row =>
      rw [hhead] at h
      obtain ⟨rfl, rfl⟩ := Prod.mk.inj (Option.some.inj h)
      have hle := head_le hsorted hhead hmem
      refine ⟨fun other hother => ?_, fun other hother => ?_, ?_, hle, fun _ => happended,
        fun _ => by omega⟩
      · refine getElem?_eq_of_not_mem hprevious hnew fun hchanged => ?_
        have hrow := head_le hsorted hhead hchanged
        simp only [Option.getD_some] at hother
        omega
      · rw [List.getElem?_eq_none (by omega), List.getElem?_eq_none (by omega)]
      · simp only [Option.getD_some]
        omega
  · rw [if_neg happended] at h
    cases hhead : (changedRows previousLines newLines).head? with
    | none =>
      rw [hhead] at h
      cases h
    | some row =>
      rw [hhead] at h
      obtain ⟨rfl, hlast⟩ := Prod.mk.inj (Option.some.inj h)
      have hrow : row ∈ changedRows previousLines newLines := List.mem_of_head? hhead
      obtain ⟨hbound, -⟩ := (mem_changedRows).mp hrow
      cases hend : (changedRows previousLines newLines).getLast? with
      | none =>
        rw [List.getLast?_eq_none_iff.mp hend] at hrow
        cases hrow
      | some final =>
        rw [hend, Option.getD_some] at hlast
        subst hlast
        refine ⟨fun other hother => ?_, fun other hother => ?_, le_last hsorted hend hrow,
          by omega, fun hfirst => by omega, fun hless => absurd hless happended⟩
        · refine getElem?_eq_of_not_mem hprevious hnew fun hchanged => ?_
          have hle := head_le hsorted hhead hchanged
          omega
        · refine getElem?_eq_of_not_mem hprevious hnew fun hchanged => ?_
          have hle := le_last hsorted hend hchanged
          omega

theorem eq_of_changedRange_eq_none (hprevious : Plain env previousLines) (hnew : Plain env newLines)
    (h : changedRange previousLines newLines = none) : previousLines = newLines := by
  unfold changedRange at h
  by_cases happended : previousLines.length < newLines.length
  · rw [if_pos happended] at h
    cases h
  · rw [if_neg happended, Option.map_eq_none_iff, List.head?_eq_none_iff] at h
    refine List.ext_getElem? fun row => getElem?_eq_of_not_mem hprevious hnew ?_
    rw [h]
    exact List.not_mem_nil

end Changes

/-! ## What the buffers draw -/

section Buffers

variable {Cell : Type} {blank : Cell} {paint : Line → List Cell} {rows columns : Nat}
variable {page : Nat → List Cell} {top cursor : Nat} {env : Env}

/-- A relative move inside the window. -/
theorem draws_moveRows {delta : Int} {target : Nat} (hdelta : (target : Int) = cursor + delta)
    (hbottom : target < top + rows) (htop : top ≤ target) :
    Draws blank paint rows columns (moveRows delta) (Window rows page top cursor)
      (Window rows page top target) := by
  unfold moveRows
  by_cases hdown : 0 < delta
  · rw [if_pos hdown, show target = cursor + delta.toNat by omega]
    exact Draws.down (by omega) (by omega)
  · rw [if_neg hdown]
    by_cases hup : delta < 0
    · rw [if_pos hup, show target = cursor - (-delta).toNat by omega]
      exact Draws.up (by omega) (by omega)
    · rw [if_neg hup, show target = cursor by omega]
      exact Draws.nil

theorem zipIdx_flatMap_newline (lines : List Line) (start : Nat) :
    (lines.zipIdx (start + 1)).flatMap
        (fun (line, i) => (if 0 < i then newline else []) ++ [.text line]) =
      lines.flatMap fun line => newline ++ [.text line] := by
  induction lines generalizing start with
  | nil => rfl
  | cons line lines ih =>
    simp only [List.zipIdx_cons, List.flatMap_cons]
    rw [if_pos (by omega), ih (start + 1)]

theorem joinLines_cons (line : Line) (lines : List Line) :
    joinLines (line :: lines) =
      [.text line] ++ lines.flatMap fun other => newline ++ [.text other] := by
  unfold joinLines
  simp only [List.zipIdx_cons, List.flatMap_cons]
  rw [if_neg (by omega), zipIdx_flatMap_newline]
  rfl

theorem written_blank_cons (line : Line) (lines : List Line) :
    written paint (Function.update (fun _ => []) 0 (paint line)) (0 + 1) lines =
      pageOf paint (line :: lines) := by
  rw [← written_cons]
  funext q
  unfold pageOf written
  rw [if_neg (by omega)]
  rfl

/-- A first line and the others below it, onto a blank page. -/
theorem draws_joinLines {lines : List Line} (hlines : lines ≠ [])
    (hfits : ∀ line ∈ lines, (paint line).length ≤ columns) :
    Draws blank paint rows columns (joinLines lines) (LineStart rows (fun _ => []) 0 0)
      (Window rows (pageOf paint lines) (lines.length - rows) (lines.length - 1)) := by
  cases lines with
  | nil => exact absurd rfl hlines
  | cons line lines =>
    have hbody : ∀ other ∈ lines, ∀ (page : Nat → List Cell) (top cursor : Nat),
        (∀ q, cursor ≤ q → page q = []) →
        Draws blank paint rows columns [.text other] (LineStart rows page top cursor)
          (Window rows (Function.update page cursor (paint other)) top cursor) :=
      fun other hother _ _ cursor hfree =>
        Draws.text (hfree cursor le_rfl) (hfits other (by simp [hother]))
    have hkeep : ∀ (page : Nat → List Cell) (cursor : Nat) (row : List Cell),
        (∀ q, cursor ≤ q → page q = []) →
        ∀ q, cursor + 1 ≤ q → Function.update page cursor row q = [] := by
      intro page cursor row hfree q hq
      rw [Function.update_of_ne (by omega)]
      exact hfree q (by omega)
    rw [joinLines_cons]
    refine (Draws.text rfl (hfits line (by simp))).append
      ((Draws.rows hbody hkeep (hkeep _ _ _ fun _ _ => rfl)).weaken ?_)
    intro screen hw
    rw [written_blank_cons] at hw
    rw [List.length_cons]
    simpa using hw

theorem rewriteLines_eq {width firstChanged : Nat} {lines : List Line} {row : Nat}
    (hfits : ∀ line ∈ lines, env.visibleWidth line ≤ width) (hrow : firstChanged < row) :
    rewriteLines env width firstChanged row lines =
      .ok (lines.flatMap fun line => newline ++ [.eraseLine, .text line]) := by
  induction lines generalizing row with
  | nil => rfl
  | cons line lines ih =>
    have hline := hfits line (by simp)
    rw [rewriteLines, ih (fun other hother => hfits other (by simp [hother])) (by omega),
      if_neg (by simp; omega), if_pos hrow]
    rfl

/-- The changed lines over what their rows held. -/
theorem draws_rewriteLines {width firstChanged : Nat} {lines : List Line} (hlines : lines ≠ [])
    (hwidth : ∀ line ∈ lines, env.visibleWidth line ≤ width)
    (hfits : ∀ line ∈ lines, (paint line).length ≤ columns) :
    ∃ ops, rewriteLines env width firstChanged firstChanged lines = .ok ops ∧
      ∀ page top cursor, Draws blank paint rows columns ops (LineStart rows page top cursor)
        (Window rows (written paint page cursor lines) (max top (cursor + lines.length - rows))
          (cursor + lines.length - 1)) := by
  cases lines with
  | nil => exact absurd rfl hlines
  | cons line lines =>
    have hline := hwidth line (by simp)
    refine ⟨[.eraseLine, .text line] ++
      lines.flatMap fun other => newline ++ [.eraseLine, .text other], ?_, ?_⟩
    · rw [rewriteLines, rewriteLines_eq (fun other hother => hwidth other (by simp [hother]))
        (by omega), if_neg (by simp; omega), if_neg (by omega)]
      rfl
    · intro page top cursor
      have hover : ∀ other ∈ line :: lines, ∀ (page : Nat → List Cell) (top cursor : Nat),
          True → Draws blank paint rows columns [.eraseLine, .text other]
            (LineStart rows page top cursor)
            (Window rows (Function.update page cursor (paint other)) top cursor) := by
        intro other hother page top cursor _
        refine Draws.cons Draws.eraseLine ((Draws.text (by simp) (hfits other hother)).weaken ?_)
        intro screen hw
        rwa [Function.update_idem] at hw
      refine (hover line (by simp) page top cursor trivial).append
        ((Draws.rows (fun other hother => hover other (by simp [hother]))
          (fun _ _ _ _ => trivial) trivial).weaken ?_)
      intro screen hw
      rw [written_cons, List.length_cons]
      rwa [show cursor + lines.length + 1 = cursor + (lines.length + 1) by omega,
        show cursor + lines.length = cursor + (lines.length + 1) - 1 by omega] at hw

theorem flatten_replicate (count : Nat) (ops : List Op) :
    (List.replicate count ops).flatten = (List.replicate count ()).flatMap fun _ => ops := by
  induction count with
  | zero => rfl
  | succ count ih => rw [List.replicate_succ, List.flatten_cons, ih, List.replicate_succ, List.flatMap_cons]

/-- Rows cleared one below the other. -/
def clearedRows (page : Nat → List Cell) (start count : Nat) : Nat → List Cell := fun q =>
  if start ≤ q ∧ q < start + count then [] else page q

theorem clearedRows_succ (page : Nat → List Cell) (start count : Nat) :
    clearedRows page start (count + 1) =
      Function.update (clearedRows page start count) (start + count) [] := by
  funext q
  unfold clearedRows
  by_cases hq : q = start + count
  · rw [hq, Function.update_self, if_pos ⟨by omega, by omega⟩]
  · rw [Function.update_of_ne hq]
    by_cases hbefore : start ≤ q ∧ q < start + count
    · rw [if_pos hbefore, if_pos ⟨hbefore.1, by omega⟩]
    · rw [if_neg hbefore, if_neg (by omega)]

theorem written_replicate (start count : Nat) :
    written (fun _ => []) page start (List.replicate count ()) = clearedRows page start count := by
  funext q
  unfold written clearedRows
  by_cases hq : q < start
  · rw [if_pos hq, if_neg (by omega)]
  · rw [if_neg hq, List.getElem?_replicate]
    by_cases hcount : q < start + count
    · rw [if_pos (by omega), if_pos ⟨by omega, hcount⟩]
      rfl
    · rw [if_neg (by omega), if_neg (by omega)]
      rfl

/-- The rows below the cursor, inside the window. -/
theorem draws_clearBelow {count : Nat} (hinside : cursor + count < top + rows) :
    Draws blank paint rows columns (List.replicate count (newline ++ [.eraseLine])).flatten
      (Window rows page top cursor)
      (Window rows (clearedRows page (cursor + 1) count) top (cursor + count)) := by
  have herase : ∀ thing ∈ List.replicate count (), ∀ (page : Nat → List Cell) (top cursor : Nat),
      True → Draws blank paint rows columns [.eraseLine] (LineStart rows page top cursor)
        (Window rows (Function.update page cursor ((fun _ => []) thing)) top cursor) :=
    fun _ _ _ _ _ _ => Draws.eraseLine.weaken fun _ hw => hw.toWindow
  rw [flatten_replicate]
  refine (Draws.rows herase (fun _ _ _ _ => trivial) trivial).weaken ?_
  intro screen hw
  rwa [written_replicate, List.length_replicate, max_eq_left (by omega)] at hw

/-- The rows from the cursor on, each but the last followed by a move down. -/
theorem draws_clearRows {count done : Nat} (hdone : done < count)
    (hinside : cursor + count ≤ top + rows) :
    Draws blank paint rows columns
      ((List.range done).flatMap fun i =>
        [.carriageReturn, .eraseLine] ++ if i + 1 < count then [.down 1] else [])
      (Window rows page top cursor)
      (Window rows (clearedRows page cursor done) top (cursor + done)) := by
  induction done with
  | zero =>
    have hpage : clearedRows page cursor 0 = page := by
      funext q
      exact if_neg (by omega)
    rw [hpage]
    exact Draws.nil
  | succ done ih =>
    rw [List.range_succ, List.flatMap_append, List.flatMap_singleton, if_pos hdone,
      clearedRows_succ]
    refine (ih (by omega)).append ?_
    have hdown : Draws blank paint rows columns [.down 1]
        (Window rows (Function.update (clearedRows page cursor done) (cursor + done) []) top
          (cursor + done))
        (Window rows (Function.update (clearedRows page cursor done) (cursor + done) []) top
          (cursor + done + 1)) := Draws.down (by omega) (by omega)
    exact Draws.cons Draws.carriageReturn
      (Draws.cons Draws.eraseLine (hdown.strengthen fun _ hw => hw.toWindow))

/-- All of these rows, with the cursor in the last one. -/
theorem draws_clearAll {count : Nat} (hcount : 0 < count) (hinside : cursor + count ≤ top + rows) :
    Draws blank paint rows columns
      ((List.range count).flatMap fun i =>
        [.carriageReturn, .eraseLine] ++ if i + 1 < count then [.down 1] else [])
      (Window rows page top cursor)
      (Window rows (clearedRows page cursor count) top (cursor + count - 1)) := by
  obtain ⟨done, rfl⟩ : ∃ done, count = done + 1 := ⟨count - 1, by omega⟩
  rw [List.range_succ, List.flatMap_append, List.flatMap_singleton, if_neg (by omega),
    List.append_nil]
  refine (draws_clearRows (by omega) hinside).append ?_
  refine (Draws.cons Draws.carriageReturn Draws.eraseLine).weaken ?_
  intro screen hw
  rw [clearedRows_succ]
  exact hw.toWindow

end Buffers

/-! ## One render -/

section Render

variable {Cell : Type} {blank : Cell} {paint : Line → List Cell} {rows columns : Nat} {env : Env}

/-- The screen shows the lines that were rendered last, and the renderer knows the window and the
cursor. -/
structure Synced (env : Env) (paint : Line → List Cell) (columns rows : Nat) (tui : Renderer)
    (lines : List Line) (screen : Screen Cell) : Prop where
  window : Window rows (pageOf paint lines) tui.previousViewportTop tui.hardwareCursorRow screen
  previousLines : tui.previousLines = lines
  plain : Plain env lines
  noImages : tui.previousKittyImageIds = []
  width : tui.previousWidth = columns
  height : tui.previousHeight = rows
  running : tui.stopped = false
  top_lt : tui.previousViewportTop < lines.length
  length_le : lines.length ≤ tui.previousViewportTop + rows

/-- A frame that the renderer can show: it has lines, none with an image or a marker of the cursor
and none wider than the terminal. -/
structure Showable (env : Env) (columns rows : Nat) (frame : Frame) : Prop where
  columns_eq : frame.columns = columns
  rows_eq : frame.rows = rows
  ne_nil : frame.lines ≠ []
  noImage : ∀ line ∈ frame.lines, isImageLine line = false
  noMarker : ∀ line ∈ frame.lines, includes line cursorMarker = false
  fits : ∀ line ∈ frame.lines, env.visibleWidth (applyLineReset line) ≤ columns

namespace Showable

variable {frame : Frame}

theorem plain (h : Showable env columns rows frame) : Plain env (applyLineResets frame.lines) :=
  plain_applyLineResets env h.noImage

theorem lines_ne_nil (h : Showable env columns rows frame) : applyLineResets frame.lines ≠ [] := by
  intro hnil
  exact h.ne_nil (List.map_eq_nil_iff.mp hnil)

theorem width_le (h : Showable env columns rows frame) {line : Line}
    (hline : line ∈ applyLineResets frame.lines) : env.visibleWidth line ≤ columns := by
  obtain ⟨source, hsource, rfl⟩ := List.mem_map.mp hline
  exact h.fits source hsource

end Showable

/-- Lines as the renderer writes them: plain, at least one, and none wider than the terminal, which
measures them as the renderer does. -/
structure Ready (env : Env) (paint : Line → List Cell) (columns : Nat) (lines : List Line) : Prop where
  plain : Plain env lines
  ne_nil : lines ≠ []
  width_le : ∀ line ∈ lines, env.visibleWidth line ≤ columns
  fits : ∀ line ∈ lines, (paint line).length ≤ columns

/-- A full redraw shows the lines, over a cleared screen or after clearing it. -/
theorem draws_fullRender {tui : Renderer} {frame : Frame} {newLines : List Line} {clear : Bool}
    {before : Screen Cell → Prop} (hready : Ready env paint columns newLines) (hrows : 0 < rows)
    (hcolumns : frame.columns = columns) (hframe : frame.rows = rows)
    (hkitty : tui.previousKittyImageIds = []) (hrunning : tui.stopped = false)
    (hbefore : clear = false → ∀ screen, before screen → LineStart rows (fun _ => []) 0 0 screen) :
    Draws blank paint rows columns (fullRender env tui frame newLines none clear).2 before
      (Synced env paint columns rows (fullRender env tui frame newLines none clear).1 newLines) := by
  have hlength : 0 < newLines.length := List.length_pos_iff.mpr hready.ne_nil
  have hstart : Draws blank paint rows columns
      (if clear then
        deleteKittyImages tui.previousKittyImageIds ++ [.clearScreen, .home, .clearScrollback]
       else []) before (LineStart rows (fun _ => []) 0 0) := by
    cases clear with
    | false => exact Draws.nil.strengthen (hbefore rfl)
    | true =>
      rw [hkitty, if_pos rfl]
      exact Draws.clear hrows
  have hdraw : Draws blank paint rows columns (fullRender env tui frame newLines none clear).2 before
      (Window rows (pageOf paint newLines) (newLines.length - rows) (newLines.length - 1)) :=
    ((((Draws.control _).append hstart).append
      (draws_joinLines hready.ne_nil hready.fits)).append (Draws.control _)).append (Draws.control _)
  refine hdraw.weaken fun screen hw => ⟨?_, rfl, hready.plain, hready.plain.collect, hcolumns,
    hframe, hrunning, ?_, ?_⟩
  · rw [show (fullRender env tui frame newLines none clear).1.previousViewportTop =
      newLines.length - rows by simp only [fullRender, positionHardwareCursor, hframe]; omega]
    exact hw
  · simp only [fullRender, positionHardwareCursor, hframe]
    omega
  · simp only [fullRender, positionHardwareCursor, hframe]
    omega

section Differences

variable {tui : Renderer} {frame : Frame} {previousLines newLines : List Line} {first last : Nat}

/-- What is cleared below the new lines leaves a page of them alone. -/
theorem clearedRows_pageOf {page : Nat → List Cell}
    (hpage : ∀ q < newLines.length, page q = pageOf paint newLines q)
    (hbeyond : ∀ q, previousLines.length ≤ q → page q = [])
    (hless : newLines.length ≤ previousLines.length) :
    clearedRows page newLines.length (previousLines.length - newLines.length) =
      pageOf paint newLines := by
  funext q
  unfold clearedRows
  by_cases hq : q < newLines.length
  · rw [if_neg (by omega)]
    exact hpage q hq
  · rw [pageOf_of_length_le (by omega)]
    by_cases hcleared : q < previousLines.length
    · exact if_pos ⟨by omega, by omega⟩
    · rw [if_neg (by omega)]
      exact hbeyond q (by omega)

/-- Only lines at the end are gone: their rows are cleared. -/
theorem draws_clearDeletedLines (hready : Ready env paint columns newLines) (hrows : 0 < rows)
    (hcolumns : frame.columns = columns) (hframe : frame.rows = rows)
    (hkitty : tui.previousKittyImageIds = []) (hrunning : tui.stopped = false)
    (hprevious : tui.previousLines = previousLines) (hplain : Plain env previousLines)
    (hchanged : Changed previousLines newLines first last) (hdeleted : newLines.length ≤ first)
    (hlength : previousLines.length ≤ tui.previousViewportTop + rows) :
    Draws blank paint rows columns
      (clearDeletedLines env tui frame newLines none tui.previousViewportTop first last).2
      (Window rows (pageOf paint previousLines) tui.previousViewportTop tui.hardwareCursorRow)
      (Synced env paint columns rows
        (clearDeletedLines env tui frame newLines none tui.previousViewportTop first last).1
        newLines) := by
  have hpositive : 0 < newLines.length := List.length_pos_iff.mpr hready.ne_nil
  have hfirst := hchanged.first_le
  have hless : newLines.length < previousLines.length := by
    by_contra hnot
    have happended := hchanged.appended (by omega)
    omega
  unfold clearDeletedLines
  simp only [hprevious]
  rw [if_pos hless]
  by_cases habove : newLines.length - 1 < tui.previousViewportTop
  · rw [if_pos habove]
    exact draws_fullRender hready hrows hcolumns hframe hkitty hrunning (by simp)
  · rw [if_neg habove]
    by_cases hmany : frame.rows < previousLines.length - newLines.length
    · rw [if_pos hmany]
      exact draws_fullRender hready hrows hcolumns hframe hkitty hrunning (by simp)
    · rw [if_neg hmany, hplain.deleteChanged, if_pos (by omega), if_pos (by omega), List.nil_append]
      have hmove : Draws blank paint rows columns
          (moveRows (((newLines.length - 1 : Nat) : Int) - tui.hardwareCursorRow))
          (Window rows (pageOf paint previousLines) tui.previousViewportTop tui.hardwareCursorRow)
          (Window rows (pageOf paint previousLines) tui.previousViewportTop (newLines.length - 1)) :=
        draws_moveRows (by omega) (by omega) (by omega)
      have hdown : Draws blank paint rows columns [.down 1]
          (LineStart rows (pageOf paint previousLines) tui.previousViewportTop (newLines.length - 1))
          (Window rows (pageOf paint previousLines) tui.previousViewportTop newLines.length) := by
        have hstep : newLines.length = newLines.length - 1 + 1 := by omega
        rw [hstep]
        exact (Draws.down (by omega) (by omega)).strengthen fun _ hw => hw.toWindow
      have hclear : Draws blank paint rows columns
          ((List.range (previousLines.length - newLines.length)).flatMap fun i =>
            [.carriageReturn, .eraseLine] ++
              if i + 1 < previousLines.length - newLines.length then [.down 1] else [])
          (Window rows (pageOf paint previousLines) tui.previousViewportTop newLines.length)
          (Window rows (pageOf paint newLines) tui.previousViewportTop (previousLines.length - 1)) := by
        refine (draws_clearAll (by omega) (by omega)).weaken fun screen hw => ?_
        rw [clearedRows_pageOf (fun q hq => (pageOf_congr (hchanged.before q (by omega))))
          (fun q hq => pageOf_of_length_le hq) hless.le] at hw
        rwa [show newLines.length + (previousLines.length - newLines.length) - 1 =
          previousLines.length - 1 by omega] at hw
      have hup : Draws blank paint rows columns [.up (previousLines.length - newLines.length)]
          (Window rows (pageOf paint newLines) tui.previousViewportTop (previousLines.length - 1))
          (Window rows (pageOf paint newLines) tui.previousViewportTop (newLines.length - 1)) := by
        rw [show newLines.length - 1 =
          previousLines.length - 1 - (previousLines.length - newLines.length) by omega]
        exact Draws.up (by omega) (by omega)
      have hdraw := (((((hmove.append Draws.carriageReturn).append hdown).append hclear).append
        hup).append (Draws.control "\x1b[?2026l")).append (Draws.control "\x1b[?25l")
      refine ((Draws.control "\x1b[?2026h").cons hdraw).weaken fun screen hw => ?_
      refine ⟨hw, rfl, hready.plain, hready.plain.collect, hcolumns, hframe, hrunning, ?_, ?_⟩
      · simp only
        omega
      · simp only
        omega

/-- The rows that are written are those from the first to the last change. -/
theorem length_rewritten (hfirst : first < newLines.length) (hle : first ≤ last) :
    first + ((newLines.take (min last (newLines.length - 1) + 1)).drop first).length =
      min last (newLines.length - 1) + 1 := by
  rw [List.length_drop, List.length_take]
  omega

/-- Written over the lines before, the changed rows leave the new lines above those that are gone. -/
theorem written_changed (hchanged : Changed previousLines newLines first last)
    (hfirst : first < newLines.length) {q : Nat} (hq : q < newLines.length) :
    written paint (pageOf paint previousLines) first
      ((newLines.take (min last (newLines.length - 1) + 1)).drop first) q = pageOf paint newLines q := by
  have hlength := length_rewritten hfirst hchanged.first_le_last
  by_cases hbefore : q < first
  · rw [written_of_lt hbefore]
    exact pageOf_congr (hchanged.before q hbefore)
  · by_cases hafter : last < q
    · rw [written_of_length_le (by omega)]
      exact pageOf_congr (hchanged.after q hafter)
    · have hline : ((newLines.take (min last (newLines.length - 1) + 1)).drop first)[q - first]? =
          some newLines[q] := by
        rw [List.getElem?_drop, show first + (q - first) = q by omega,
          List.getElem?_take_of_lt (by omega), List.getElem?_eq_getElem hq]
      rw [written_of_getElem? (by omega) hline]
      unfold pageOf
      rw [List.getElem?_eq_getElem hq]
      rfl

/-- The page of the new lines, with rows left below them where lines are gone. -/
theorem written_beyond (hchanged : Changed previousLines newLines first last)
    (hfirst : first < newLines.length) {q : Nat} (hnew : newLines.length ≤ q)
    (hprevious : previousLines.length ≤ q) :
    written paint (pageOf paint previousLines) first
      ((newLines.take (min last (newLines.length - 1) + 1)).drop first) q = [] := by
  have hlength := length_rewritten hfirst hchanged.first_le_last
  rw [written_of_length_le (by omega)]
  exact pageOf_of_length_le hprevious

/-- From the row before an appended line, or from the row itself, to the start of the first row to
write. -/
theorem draws_startRow {page : Nat → List Cell} {top : Nat} {appendStart : Bool}
    (happend : appendStart = true → 0 < first) (hinside : appendStart = false → first < top + rows) :
    Draws blank paint rows columns (if appendStart then newline else [.carriageReturn])
      (Window rows page top (if appendStart then first - 1 else first))
      (LineStart rows page (max top (first + 1 - rows)) first) := by
  cases appendStart with
  | true =>
    have hpositive := happend rfl
    refine Draws.newline.weaken fun screen hw => ?_
    simp only [if_true] at hw
    rwa [show first - 1 + 1 = first by omega, show first - 1 + 2 = first + 1 by omega] at hw
  | false =>
    have hbottom := hinside rfl
    refine Draws.carriageReturn.weaken fun screen hw => ?_
    rwa [max_eq_left (by omega)]

/-- After the changed rows: the rows of lines that are gone. -/
theorem draws_clearTail {top : Nat} (hchanged : Changed previousLines newLines first last)
    (hfirst : first < newLines.length) (htop : top ≤ first)
    (hlength : previousLines.length ≤ top + rows) :
    Draws blank paint rows columns
      (if 0 < previousLines.length - newLines.length then
        (if min last (newLines.length - 1) + 1 < newLines.length then
          [.down (newLines.length - 1 - min last (newLines.length - 1))] else []) ++
          (List.replicate (previousLines.length - newLines.length)
            (newline ++ [.eraseLine])).flatten ++
          [.up (previousLines.length - newLines.length)]
       else [])
      (Window rows
        (written paint (pageOf paint previousLines) first
          ((newLines.take (min last (newLines.length - 1) + 1)).drop first))
        (max top (min last (newLines.length - 1) + 1 - rows)) (min last (newLines.length - 1)))
      (Window rows (pageOf paint newLines) (max top (min last (newLines.length - 1) + 1 - rows))
        (if 0 < previousLines.length - newLines.length then newLines.length - 1
         else min last (newLines.length - 1))) := by
  have hfirstLast := hchanged.first_le_last
  by_cases hgone : 0 < previousLines.length - newLines.length
  · rw [if_pos hgone, if_pos hgone, max_eq_left (by omega)]
    have hdown : ∀ page : Nat → List Cell, Draws blank paint rows columns
        (if min last (newLines.length - 1) + 1 < newLines.length then
          [.down (newLines.length - 1 - min last (newLines.length - 1))] else [])
        (Window rows page top (min last (newLines.length - 1)))
        (Window rows page top (newLines.length - 1)) := by
      intro page
      by_cases hmore : min last (newLines.length - 1) + 1 < newLines.length
      · rw [if_pos hmore]
        refine (Draws.down (by omega) (by omega)).weaken fun screen hw => ?_
        rwa [show min last (newLines.length - 1) +
          (newLines.length - 1 - min last (newLines.length - 1)) = newLines.length - 1 by omega] at hw
      · rw [if_neg hmore, show min last (newLines.length - 1) = newLines.length - 1 by omega]
        exact Draws.nil
    have hclear : Draws blank paint rows columns
        (List.replicate (previousLines.length - newLines.length) (newline ++ [.eraseLine])).flatten
        (Window rows
          (written paint (pageOf paint previousLines) first
            ((newLines.take (min last (newLines.length - 1) + 1)).drop first))
          top (newLines.length - 1))
        (Window rows (pageOf paint newLines) top (previousLines.length - 1)) := by
      refine (draws_clearBelow (by omega)).weaken fun screen hw => ?_
      rw [show newLines.length - 1 + 1 = newLines.length by omega,
        clearedRows_pageOf (fun q hq => written_changed hchanged hfirst hq)
          (fun q hq => written_beyond hchanged hfirst (by omega) hq) (by omega)] at hw
      rwa [show newLines.length - 1 + (previousLines.length - newLines.length) =
        previousLines.length - 1 by omega] at hw
    have hup : Draws blank paint rows columns [.up (previousLines.length - newLines.length)]
        (Window rows (pageOf paint newLines) top (previousLines.length - 1))
        (Window rows (pageOf paint newLines) top (newLines.length - 1)) := by
      refine (Draws.up (by omega) (by omega)).weaken fun screen hw => ?_
      rwa [show previousLines.length - 1 - (previousLines.length - newLines.length) =
        newLines.length - 1 by omega] at hw
    exact ((hdown _).append hclear).append hup
  · rw [if_neg hgone, if_neg hgone]
    refine Draws.nil.weaken fun screen hw => ?_
    have hpage : written paint (pageOf paint previousLines) first
        ((newLines.take (min last (newLines.length - 1) + 1)).drop first) = pageOf paint newLines := by
      funext q
      by_cases hq : q < newLines.length
      · exact written_changed hchanged hfirst hq
      · rw [written_beyond hchanged hfirst (by omega) (by omega), pageOf_of_length_le (by omega)]
    rwa [hpage] at hw

/-- The changed rows are written, and the rows of lines that are gone cleared. -/
theorem draws_rewriteChangedLines (hready : Ready env paint columns newLines)
    (hcolumns : frame.columns = columns) (hframe : frame.rows = rows) (hrows : 0 < rows)
    (hrunning : tui.stopped = false) (hprevious : tui.previousLines = previousLines)
    (hplain : Plain env previousLines) (hchanged : Changed previousLines newLines first last)
    (hfirst : first < newLines.length) (htop : tui.previousViewportTop ≤ first)
    (hbelow : tui.previousViewportTop < previousLines.length)
    (hlength : previousLines.length ≤ tui.previousViewportTop + rows) :
    ∃ next ops,
      rewriteChangedLines env tui frame newLines none tui.previousViewportTop first last =
        .ok (next, ops) ∧
      Draws blank paint rows columns ops
        (Window rows (pageOf paint previousLines) tui.previousViewportTop tui.hardwareCursorRow)
        (Synced env paint columns rows next newLines) := by
  have hfirstLe := hchanged.first_le
  have hfirstLast := hchanged.first_le_last
  have hcount := length_rewritten hfirst hfirstLast
  have hne : (newLines.take (min last (newLines.length - 1) + 1)).drop first ≠ [] := by
    intro hnil
    rw [hnil, List.length_nil] at hcount
    omega
  have hmem : ∀ line ∈ (newLines.take (min last (newLines.length - 1) + 1)).drop first,
      line ∈ newLines := fun line hline => List.mem_of_mem_take (List.mem_of_mem_drop hline)
  have hwrites : ∃ ops, rewriteLines env frame.columns first first
        ((newLines.take (min last (newLines.length - 1) + 1)).drop first) = .ok ops ∧
      ∀ page top cursor, Draws blank paint rows columns ops (LineStart rows page top cursor)
        (Window rows (written paint page cursor
            ((newLines.take (min last (newLines.length - 1) + 1)).drop first))
          (max top (cursor +
            ((newLines.take (min last (newLines.length - 1) + 1)).drop first).length - rows))
          (cursor + ((newLines.take (min last (newLines.length - 1) + 1)).drop first).length - 1)) :=
    draws_rewriteLines hne (fun line hline => hcolumns ▸ hready.width_le line (hmem line hline))
      (fun line hline => hready.fits line (hmem line hline))
  obtain ⟨rewritten, hok, hrewritten⟩ := hwrites
  have hwritten := hrewritten (pageOf paint previousLines)
    (max tui.previousViewportTop (first + 1 - rows)) first
  rw [hcount] at hwritten
  have hscroll : max (max tui.previousViewportTop (first + 1 - rows))
      (min last (newLines.length - 1) + 1 - rows) =
      max tui.previousViewportTop (min last (newLines.length - 1) + 1 - rows) := by omega
  rw [hscroll, Nat.add_sub_cancel] at hwritten
  -- An appended line is written from the row before it, any other change from its own row.
  obtain ⟨appendStart, hstart⟩ : ∃ appendStart : Bool, appendStart =
      (decide (previousLines.length < newLines.length) && decide (first = previousLines.length) &&
        decide (0 < first)) := ⟨_, rfl⟩
  have happend : appendStart = true → first = previousLines.length ∧ 0 < first := by
    intro htrue
    rw [hstart, Bool.and_eq_true, Bool.and_eq_true] at htrue
    exact ⟨of_decide_eq_true htrue.1.2, of_decide_eq_true htrue.2⟩
  have hinside : appendStart = false → first < tui.previousViewportTop + rows := by
    intro hfalse
    by_contra hnot
    have hlast : first = previousLines.length := by omega
    have happended := hchanged.appended hlast
    rw [hstart] at hfalse
    simp only [happended, decide_true, Bool.true_and] at hfalse
    rw [decide_eq_true hlast, Bool.true_and, decide_eq_false_iff_not] at hfalse
    omega
  have htarget : tui.previousViewportTop ≤ (if appendStart then first - 1 else first) ∧
      (if appendStart then first - 1 else first) < tui.previousViewportTop + rows := by
    cases hcase : appendStart with
    | true =>
      obtain ⟨hlast, hpositive⟩ := happend hcase
      simp only [if_true]
      omega
    | false =>
      have hbottom := hinside hcase
      simp only [Bool.false_eq_true, if_false]
      omega
  have hmove : Draws blank paint rows columns
      (moveRows (((if appendStart then first - 1 else first : Nat) : Int) -
        (tui.previousViewportTop : Int) -
        ((tui.hardwareCursorRow : Int) - (tui.previousViewportTop : Int))))
      (Window rows (pageOf paint previousLines) tui.previousViewportTop tui.hardwareCursorRow)
      (Window rows (pageOf paint previousLines) tui.previousViewportTop
        (if appendStart then first - 1 else first)) :=
    draws_moveRows (by omega) htarget.2 htarget.1
  have hdraw := ((((hmove.append
    (draws_startRow (fun htrue => (happend htrue).2) hinside)).append hwritten).append
    (draws_clearTail hchanged hfirst htop hlength)).append (Draws.control "\x1b[?2026l")).append
    (Draws.control "\x1b[?25l")
  have hwindow : ¬ tui.previousViewportTop + rows ≤ if appendStart then first - 1 else first := by
    omega
  unfold rewriteChangedLines
  simp only [hprevious, hframe, ← hstart, hplain.deleteChanged, List.nil_append, hwindow, if_false,
    Nat.add_zero, positionHardwareCursor]
  rw [hok]
  refine ⟨_, _, rfl, ((Draws.control "\x1b[?2026h").cons hdraw).weaken fun screen hw => ?_⟩
  have happended := hchanged.last_of_appended
  have hfinal : (if 0 < previousLines.length - newLines.length then newLines.length - 1
        else min last (newLines.length - 1)) < newLines.length ∧
      max tui.previousViewportTop ((if 0 < previousLines.length - newLines.length then
        newLines.length - 1 else min last (newLines.length - 1)) + 1 - rows) =
      max tui.previousViewportTop (min last (newLines.length - 1) + 1 - rows) := by
    by_cases hgone : 0 < previousLines.length - newLines.length
    · rw [if_pos hgone]
      omega
    · rw [if_neg hgone]
      omega
  refine ⟨?_, rfl, hready.plain, hready.plain.collect, hcolumns, rfl, hrunning, ?_, ?_⟩
  · simp only [hfinal.2]
    exact hw
  · simp only
    omega
  · simp only [hfinal.2]
    omega

end Differences

variable (blank)

/-- One render keeps the screen in step. -/
theorem doRender_synced {tui : Renderer} {frame : Frame} {lines : List Line} (hrows : 0 < rows)
    (hpaint : ∀ line, (paint line).length = env.visibleWidth line)
    (hframe : Showable env columns rows frame) (hsynced : ∃ screen : Screen Cell,
      Synced env paint columns rows tui lines screen) :
    ∃ next ops, doRender env tui frame = .ok (next, ops) ∧
      Draws blank paint rows columns ops (Synced env paint columns rows tui lines)
        (Synced env paint columns rows next (applyLineResets frame.lines)) := by
  obtain ⟨screen, hscreen⟩ := hsynced
  obtain ⟨-, hprevious, hplain, hkitty, hwidth, hheight, hrunning, htop, hlength⟩ := hscreen
  have hready : Ready env paint columns (applyLineResets frame.lines) :=
    ⟨hframe.plain, hframe.lines_ne_nil, fun line hline => hframe.width_le hline,
      fun line hline => hpaint line ▸ hframe.width_le hline⟩
  have hsameWidth : (decide (tui.previousWidth ≠ 0) && decide (tui.previousWidth ≠ frame.columns)) =
      false := by
    rw [hwidth, hframe.columns_eq]
    simp
  have hsameHeight : (decide (tui.previousHeight ≠ 0) && decide (tui.previousHeight ≠ frame.rows)) =
      false := by
    rw [hheight, hframe.rows_eq]
    simp
  have hnonempty : tui.previousLines ≠ [] := by
    rw [hprevious]
    rintro rfl
    simp at htop
  have hredraw : Draws blank paint rows columns
      (fullRender env tui frame (applyLineResets frame.lines) none true).2
      (Synced env paint columns rows tui lines)
      (Synced env paint columns rows
        (fullRender env tui frame (applyLineResets frame.lines) none true).1
        (applyLineResets frame.lines)) :=
    draws_fullRender hready hrows hframe.columns_eq hframe.rows_eq hkitty hrunning (by simp)
  unfold doRender
  simp only [hrunning, hsameWidth, hsameHeight, hnonempty, Bool.false_eq_true, if_false,
    decide_false, Bool.false_and, extractCursorPosition_of_unmarked env frame.rows hframe.noMarker]
  by_cases hshrink : (tui.clearOnShrink &&
      decide ((applyLineResets frame.lines).length < tui.maxLinesRendered) && !frame.overlays) = true
  · rw [if_pos hshrink]
    exact ⟨_, _, rfl, hredraw⟩
  · rw [if_neg hshrink, hprevious]
    cases hrange : changedRange lines (applyLineResets frame.lines) with
    | none =>
      have hsame := eq_of_changedRange_eq_none hplain hready.plain hrange
      refine ⟨_, _, rfl, (Draws.control "\x1b[?25l").weaken fun screen hw => ?_⟩
      rw [← hsame]
      exact ⟨hw.window, hw.previousLines, hw.plain, hw.noImages, hw.width, hframe.rows_eq,
        hw.running, hw.top_lt, hw.length_le⟩
    | some range =>
      obtain ⟨first, last⟩ := range
      have hchanged := changed_of_range hplain hready.plain hrange
      simp only [hplain.expand]
      by_cases hdeleted : (applyLineResets frame.lines).length ≤ first
      · rw [if_pos hdeleted]
        exact ⟨_, _, rfl, (draws_clearDeletedLines hready hrows hframe.columns_eq hframe.rows_eq
          hkitty hrunning hprevious hplain hchanged hdeleted hlength).strengthen
          fun _ hw => hw.window⟩
      · rw [if_neg hdeleted]
        by_cases habove : first < tui.previousViewportTop
        · rw [if_pos habove]
          exact ⟨_, _, rfl, hredraw⟩
        · rw [if_neg habove]
          obtain ⟨next, ops, hok, hdraws⟩ := draws_rewriteChangedLines hready hframe.columns_eq
            hframe.rows_eq hrows hrunning hprevious hplain hchanged (not_le.mp hdeleted)
            (not_lt.mp habove) htop hlength
          exact ⟨next, ops, hok, hdraws.strengthen fun _ hw => hw.window⟩

/-- The first render writes every line onto the cleared screen. -/
theorem doRender_first {tui : Renderer} {frame : Frame} (hrows : 0 < rows)
    (hpaint : ∀ line, (paint line).length = env.visibleWidth line)
    (hframe : Showable env columns rows frame) (hprevious : tui.previousLines = [])
    (hwidth : tui.previousWidth = 0) (hheight : tui.previousHeight = 0)
    (hkitty : tui.previousKittyImageIds = []) (hrunning : tui.stopped = false) :
    ∃ next ops, doRender env tui frame = .ok (next, ops) ∧
      Draws blank paint rows columns ops (fun screen => screen = Screen.cleared)
        (Synced env paint columns rows next (applyLineResets frame.lines)) := by
  have hready : Ready env paint columns (applyLineResets frame.lines) :=
    ⟨hframe.plain, hframe.lines_ne_nil, fun line hline => hframe.width_le hline,
      fun line hline => hpaint line ▸ hframe.width_le hline⟩
  have hdraw : Draws blank paint rows columns
      (fullRender env tui frame (applyLineResets frame.lines) none false).2
      (fun screen => screen = Screen.cleared)
      (Synced env paint columns rows
        (fullRender env tui frame (applyLineResets frame.lines) none false).1
        (applyLineResets frame.lines)) := by
    refine draws_fullRender hready hrows hframe.columns_eq hframe.rows_eq hkitty hrunning ?_
    rintro - screen rfl
    exact ⟨⟨fun _ _ => rfl, fun _ _ => rfl, rfl, hrows⟩, rfl⟩
  refine ⟨_, _, ?_, hdraw⟩
  · unfold doRender
    simp only [hrunning, hprevious, hwidth, hheight, extractCursorPosition_of_unmarked env frame.rows
      hframe.noMarker]
    rfl

/-- A renderer that has rendered nothing yet, with a cleared screen, or one whose screen is in
step. -/
def InStep (env : Env) (paint : Line → List Cell) (columns rows : Nat) (tui : Renderer)
    (screen : Screen Cell) : Prop :=
  (tui.previousLines = [] ∧ tui.previousWidth = 0 ∧ tui.previousHeight = 0 ∧
    tui.previousKittyImageIds = [] ∧ tui.stopped = false ∧ screen = Screen.cleared) ∨
  ∃ lines, Synced env paint columns rows tui lines screen

/-- A render brings its lines onto the screen. -/
theorem InStep.render {tui : Renderer} {screen : Screen Cell} {frame : Frame} (hrows : 0 < rows)
    (hpaint : ∀ line, (paint line).length = env.visibleWidth line)
    (hframe : Showable env columns rows frame) (h : InStep env paint columns rows tui screen) :
    ∃ next ops shown, doRender env tui frame = .ok (next, ops) ∧
      screen.run blank paint rows columns ops = some shown ∧
      Synced env paint columns rows next (applyLineResets frame.lines) shown := by
  rcases h with ⟨hprevious, hwidth, hheight, hkitty, hrunning, hscreen⟩ | ⟨lines, hsynced⟩
  · obtain ⟨next, ops, hok, hdraws⟩ := doRender_first blank hrows hpaint hframe hprevious hwidth
      hheight hkitty hrunning
    obtain ⟨shown, hrun, hshown⟩ := hdraws screen hscreen
    exact ⟨next, ops, shown, hok, hrun, hshown⟩
  · obtain ⟨next, ops, hok, hdraws⟩ := doRender_synced blank hrows hpaint hframe
      ⟨screen, hsynced⟩
    obtain ⟨shown, hrun, hshown⟩ := hdraws screen hsynced
    exact ⟨next, ops, shown, hok, hrun, hshown⟩

theorem InStep.congr {tui next : Renderer} {screen : Screen Cell}
    (h : InStep env paint columns rows tui screen)
    (hnext : next = { tui with clearOnShrink := next.clearOnShrink
                               showHardwareCursor := next.showHardwareCursor }) :
    InStep env paint columns rows next screen := by
  rw [hnext]
  rcases h with hfresh | ⟨lines, hsynced⟩
  · exact .inl hfresh
  · exact .inr ⟨lines, hsynced.window, hsynced.previousLines, hsynced.plain, hsynced.noImages,
      hsynced.width, hsynced.height, hsynced.running, hsynced.top_lt, hsynced.length_le⟩

/-- What may be asked of the renderer. -/
def Permitted (env : Env) (columns rows : Nat) : Action → Prop
  | .render frame => Showable env columns rows frame
  | .setClearOnShrink _ | .setShowHardwareCursor _ => True

/-- One action keeps the renderer in step. -/
theorem InStep.act {tui : Renderer} {screen : Screen Cell} {action : Action} (hrows : 0 < rows)
    (hpaint : ∀ line, (paint line).length = env.visibleWidth line)
    (haction : Permitted env columns rows action) (h : InStep env paint columns rows tui screen) :
    ∃ next ops shown, Tui.act env tui action = .ok (next, ops) ∧
      screen.run blank paint rows columns ops = some shown ∧
      InStep env paint columns rows next shown := by
  cases action with
  | render frame =>
    obtain ⟨next, ops, shown, hok, hrun, hsynced⟩ := h.render blank hrows hpaint haction
    exact ⟨next, ops, shown, hok, hrun, .inr ⟨_, hsynced⟩⟩
  | setClearOnShrink enabled => exact ⟨_, _, screen, rfl, rfl, h.congr rfl⟩
  | setShowHardwareCursor enabled =>
    simp only [Tui.act]
    by_cases hsame : tui.showHardwareCursor = enabled
    · rw [if_pos hsame]
      exact ⟨_, _, screen, rfl, rfl, h⟩
    · rw [if_neg hsame]
      cases enabled with
      | true => exact ⟨_, _, screen, rfl, rfl, h.congr rfl⟩
      | false => exact ⟨_, _, screen, rfl, rfl, h.congr rfl⟩

/-- A whole run keeps the renderer in step. -/
theorem InStep.runActions {tui : Renderer} {screen : Screen Cell} {actions : List Action}
    (hrows : 0 < rows) (hpaint : ∀ line, (paint line).length = env.visibleWidth line)
    (hactions : ∀ action ∈ actions, Permitted env columns rows action)
    (h : InStep env paint columns rows tui screen) :
    ∃ next shown, Tui.runActions env blank paint columns rows tui screen actions =
        some (next, shown) ∧ InStep env paint columns rows next shown := by
  induction actions generalizing tui screen with
  | nil => exact ⟨tui, screen, rfl, h⟩
  | cons action actions ih =>
    obtain ⟨middle, ops, drawn, hok, hrun, hstep⟩ :=
      h.act blank hrows hpaint (hactions action (by simp))
    obtain ⟨next, shown, hrest, hlast⟩ :=
      ih (fun other hother => hactions other (by simp [hother])) hstep
    refine ⟨next, shown, ?_, hlast⟩
    rw [Tui.runActions, hok]
    simp only [hrun, Option.bind_some]
    exact hrest

theorem runActions_append (env : Env) (blank : Cell) (paint : Line → List Cell) (columns rows : Nat)
    (tui : Renderer) (screen : Screen Cell) (first second : List Action) :
    Tui.runActions env blank paint columns rows tui screen (first ++ second) =
      (Tui.runActions env blank paint columns rows tui screen first).bind fun reached =>
        Tui.runActions env blank paint columns rows reached.1 reached.2 second := by
  induction first generalizing tui screen with
  | nil => rfl
  | cons action actions ih =>
    rw [List.cons_append, Tui.runActions, Tui.runActions]
    cases act env tui action with
    | error overflow => rfl
    | ok result =>
      obtain ⟨next, ops⟩ := result
      simp only [Option.bind_assoc]
      exact congrArg _ (funext fun shown => ih next shown)

end Render

/-- After every render of a run on a terminal of a fixed size, each row of the screen shows the line
of the window that the renderer remembers, and the cursor is where the renderer takes it to be. -/
theorem doRender_shows {Cell : Type} (env : Env) (blank : Cell) (paint : Line → List Cell)
    (columns rows : Nat) (hrows : 0 < rows)
    (hpaint : ∀ line, (paint line).length = env.visibleWidth line)
    (showHardwareCursor clearOnShrink : Bool) (actions : List Action) (frame : Frame)
    (hactions : ∀ action ∈ actions ++ [.render frame], Permitted env columns rows action) :
    ∃ tui screen,
      runActions env blank paint columns rows
          { showHardwareCursor := showHardwareCursor, clearOnShrink := clearOnShrink }
          Screen.cleared (actions ++ [.render frame]) = some (tui, screen) ∧
        (∀ row < rows, screen.row row =
          match (applyLineResets frame.lines)[tui.previousViewportTop + row]? with
          | some line => paint line
          | none => []) ∧
        (tui.hardwareCursorRow : Int) - tui.previousViewportTop = screen.cursorRow := by
  have hstart : InStep env paint columns rows
      { showHardwareCursor := showHardwareCursor, clearOnShrink := clearOnShrink }
      (Screen.cleared : Screen Cell) := .inl ⟨rfl, rfl, rfl, rfl, rfl, rfl⟩
  have hearlier : ∀ action ∈ actions, Permitted env columns rows action :=
    fun action haction => hactions action (List.mem_append_left _ haction)
  obtain ⟨reached, drawn, hbefore, hstep⟩ := hstart.runActions blank hrows hpaint hearlier
  obtain ⟨tui, ops, screen, hok, hrun, hsynced⟩ :=
    hstep.render blank hrows hpaint (hactions (.render frame) (by simp))
  refine ⟨tui, screen, ?_, fun row hrow => ?_, ?_⟩
  · rw [runActions_append, hbefore]
    simp only [Option.bind_some, runActions, act, hok, hrun]
  · rw [hsynced.window.row row hrow]
    unfold pageOf
    cases (applyLineResets frame.lines)[tui.previousViewportTop + row]? <;> rfl
  · have hcursor := hsynced.window.cursor
    omega

/-- Characters of one column each. -/
def sampleEnv : Env := ⟨List.length, fun _ => none⟩

def sampleFrame (lines : List Line) : Frame := ⟨80, 2, lines, false, false⟩

/-- Three lines scroll a screen of two rows, and the last two are then replaced by one. -/
theorem doRender_shows_sample :
    ∃ tui screen,
      runActions sampleEnv ' ' id 80 2 { showHardwareCursor := false, clearOnShrink := false }
          Screen.cleared
          ([.render (sampleFrame [['a'], ['b'], ['c']])] ++
            [.render (sampleFrame [['a'], ['d']])]) = some (tui, screen) ∧
        (∀ row < 2, screen.row row =
          match (applyLineResets (sampleFrame [['a'], ['d']]).lines)[tui.previousViewportTop + row]? with
          | some line => id line
          | none => []) ∧
        (tui.hardwareCursorRow : Int) - tui.previousViewportTop = screen.cursorRow := by
  refine doRender_shows sampleEnv ' ' id 80 2 (by decide) (fun _ => rfl) false false _ _ ?_
  intro action haction
  rcases List.mem_append.mp haction with hfirst | hlast
  · rw [List.mem_singleton.mp hfirst]
    exact ⟨rfl, rfl, by decide, by decide +kernel, by decide +kernel, by decide +kernel⟩
  · rw [List.mem_singleton.mp hlast]
    exact ⟨rfl, rfl, by decide, by decide +kernel, by decide +kernel, by decide +kernel⟩

end Tui
