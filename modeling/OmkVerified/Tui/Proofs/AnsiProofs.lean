import OmkVerified.Tui.Ansi

/-!
# Texts of printable characters, tabs and complete sequences

Such a text is read back token by token, and its width is that of its visible units.
-/

namespace Tui.Utils

open Lib StdinBuffer

/-! ### Sequences -/

theorem scanCsi_append {code text found rest : Text} (h : scanCsi code text = some (found, rest))
    (tail : Text) : scanCsi code (text ++ tail) = some (found, rest ++ tail) := by
  induction text generalizing code with
  | nil => cases h
  | cons unit text ih =>
    rw [scanCsi] at h
    rw [List.cons_append, scanCsi]
    split_ifs at h with hfinal
    · cases h
      rw [if_pos hfinal]
    · rw [if_neg hfinal]
      exact ih h

theorem scanString_append {code text found rest : Text}
    (h : scanString code text = some (found, rest)) (tail : Text) :
    scanString code (text ++ tail) = some (found, rest ++ tail) := by
  induction text generalizing code with
  | nil => cases h
  | cons unit text ih =>
    rw [scanString] at h
    rw [List.cons_append, scanString]
    by_cases hbel : unit = bel
    · rw [if_pos hbel] at h ⊢
      cases h
      rfl
    rw [if_neg hbel] at h ⊢
    cases text with
    | nil =>
      -- an escape at the very end does not end the string
      rw [if_neg (by simp)] at h
      cases h
    | cons next text =>
      rw [List.cons_append, List.head?_cons, List.tail_cons]
      rw [List.head?_cons, List.tail_cons] at h
      split_ifs at h with hend
      · cases h
        rw [if_pos hend]
      · rw [if_neg hend]
        exact ih h

theorem extractAnsiCode_append {text found rest : Text}
    (h : extractAnsiCode text = some (found, rest)) (tail : Text) :
    extractAnsiCode (text ++ tail) = some (found, rest ++ tail) := by
  match text, h with
  | first :: next :: text, h =>
    rw [extractAnsiCode] at h
    rw [List.cons_append, List.cons_append, extractAnsiCode]
    split_ifs at h ⊢
    · exact scanCsi_append h tail
    · exact scanString_append h tail
    · exact scanString_append h tail

theorem extractAnsiCode_of_ne_esc {unit : CodeUnit} (h : unit ≠ esc) (rest : Text) :
    extractAnsiCode (unit :: rest) = none := by
  cases rest with
  | nil => rfl
  | cons next rest => rw [extractAnsiCode, if_pos h]

/-! ### Tabs in sequences -/

@[simp]
theorem expandTabs_nil : expandTabs [] = [] := rfl

theorem expandTabs_cons_of_ne {unit : CodeUnit} (h : unit ≠ tab) (text : Text) :
    expandTabs (unit :: text) = unit :: expandTabs text := by
  rw [expandTabs, List.flatMap_cons, if_neg h]
  rfl

theorem expandTabs_cons_tab (text : Text) :
    expandTabs (tab :: text) = space :: space :: space :: expandTabs text := rfl

theorem expandTabs_append (front back : Text) :
    expandTabs (front ++ back) = expandTabs front ++ expandTabs back := List.flatMap_append

theorem expandTabs_of_notMem {text : Text} (h : tab ∉ text) : expandTabs text = text := by
  induction text with
  | nil => rfl
  | cons unit text ih =>
    rw [List.mem_cons, not_or] at h
    rw [expandTabs_cons_of_ne (Ne.symm h.1), ih h.2]

theorem scanCsi_spaces (code text : Text) :
    scanCsi code (space :: space :: space :: text) = scanCsi (code ++ spaces 3) text := by
  have hspace : space ∉ csiFinals := by decide
  rw [scanCsi, if_neg hspace, scanCsi, if_neg hspace, scanCsi, if_neg hspace]
  simp [spaces, List.replicate]

theorem scanString_spaces (code text : Text) :
    scanString code (space :: space :: space :: text) = scanString (code ++ spaces 3) text := by
  have hbel : space ≠ bel := by decide
  have hesc : ∀ rest : Text, ¬ (space = esc ∧ rest.head? = some backslash) :=
    fun rest h => absurd h.1 (by decide)
  rw [scanString, if_neg hbel, if_neg (hesc _), scanString, if_neg hbel, if_neg (hesc _), scanString,
    if_neg hbel, if_neg (hesc _)]
  simp [spaces, List.replicate]

theorem expandTabs_concat_tab (code : Text) : expandTabs (code ++ [tab]) = expandTabs code ++ spaces 3 := by
  rw [expandTabs_append]
  rfl

theorem expandTabs_concat_of_ne {unit : CodeUnit} (h : unit ≠ tab) (code : Text) :
    expandTabs (code ++ [unit]) = expandTabs code ++ [unit] := by
  rw [expandTabs_append, expandTabs_cons_of_ne h, expandTabs_nil]

theorem scanCsi_expandTabs {code text found rest : Text} (h : scanCsi code text = some (found, rest)) :
    scanCsi (expandTabs code) (expandTabs text) = some (expandTabs found, expandTabs rest) := by
  induction text generalizing code with
  | nil => cases h
  | cons unit text ih =>
    rw [scanCsi] at h
    by_cases htab : unit = tab
    · subst htab
      rw [if_neg (by decide)] at h
      rw [expandTabs_cons_tab, scanCsi_spaces, ← expandTabs_concat_tab]
      exact ih h
    · rw [expandTabs_cons_of_ne htab, scanCsi, ← expandTabs_concat_of_ne htab]
      split_ifs at h with hfinal
      · cases h
        rw [if_pos hfinal]
      · rw [if_neg hfinal]
        exact ih h

theorem head?_expandTabs_eq_backslash {text : Text} :
    (expandTabs text).head? = some backslash ↔ text.head? = some backslash := by
  cases text with
  | nil => exact Iff.rfl
  | cons unit text =>
    by_cases htab : unit = tab
    · subst htab
      exact iff_of_false (by rw [expandTabs_cons_tab, List.head?_cons]; decide)
        (by rw [List.head?_cons]; decide)
    · rw [expandTabs_cons_of_ne htab, List.head?_cons, List.head?_cons]

theorem scanString_expandTabs {code text found rest : Text}
    (h : scanString code text = some (found, rest)) :
    scanString (expandTabs code) (expandTabs text) = some (expandTabs found, expandTabs rest) := by
  induction text generalizing code with
  | nil => cases h
  | cons unit text ih =>
    rw [scanString] at h
    by_cases htab : unit = tab
    · subst htab
      rw [if_neg (by decide), if_neg (fun h => absurd h.1 (by decide))] at h
      rw [expandTabs_cons_tab, scanString_spaces, ← expandTabs_concat_tab]
      exact ih h
    · rw [expandTabs_cons_of_ne htab, scanString]
      simp only [head?_expandTabs_eq_backslash]
      by_cases hbel : unit = bel
      · rw [if_pos hbel] at h ⊢
        cases h
        rw [expandTabs_concat_of_ne htab]
      rw [if_neg hbel] at h ⊢
      by_cases hend : unit = esc ∧ text.head? = some backslash
      · rw [if_pos hend] at h ⊢
        cases h
        obtain ⟨rest, rfl⟩ : ∃ rest, text = backslash :: rest := by
          cases text with
          | nil => cases hend.2
          | cons next rest => exact ⟨rest, by rw [Option.some.inj hend.2]⟩
        rw [expandTabs_append, expandTabs_cons_of_ne (by decide : backslash ≠ tab), List.tail_cons,
          List.tail_cons]
        rw [expandTabs_cons_of_ne htab, expandTabs_cons_of_ne (by decide), expandTabs_nil]
      · rw [if_neg hend] at h ⊢
        rw [← expandTabs_concat_of_ne htab]
        exact ih h

theorem extractAnsiCode_expandTabs {text found rest : Text}
    (h : extractAnsiCode text = some (found, rest)) :
    extractAnsiCode (expandTabs text) = some (expandTabs found, expandTabs rest) := by
  match text, h with
  | first :: next :: text, h =>
    rw [extractAnsiCode] at h
    have htab : ∀ unit ∈ [esc, 0x5b, 0x5d, 0x5f], unit ≠ tab := by decide
    by_cases hfirst : first = esc
    · rw [if_neg (not_not.mpr hfirst)] at h
      have hcode : ∀ second ∈ [0x5b, 0x5d, 0x5f], expandTabs [first, second] = [first, second] := by
        intro second hsecond
        rw [hfirst]
        refine expandTabs_of_notMem ?_
        intro hmem
        rcases List.mem_cons.mp hmem with heq | hmem
        · exact htab esc List.mem_cons_self heq.symm
        · rw [List.mem_singleton] at hmem
          exact htab second (List.mem_cons_of_mem _ hsecond) hmem.symm
      have hnext : next ∈ [0x5b, 0x5d, 0x5f] := by
        split_ifs at h with h1 h2 h3
        · simp [h1]
        · simp [h2]
        · simp [h3]
      rw [expandTabs_cons_of_ne (by rw [hfirst]; decide),
        expandTabs_cons_of_ne (htab next (List.mem_cons_of_mem _ hnext)), extractAnsiCode,
        if_neg (not_not.mpr hfirst), ← hcode next hnext]
      split_ifs at h ⊢
      · exact scanCsi_expandTabs h
      · exact scanString_expandTabs h
      · exact scanString_expandTabs h
    · rw [if_pos hfirst] at h
      cases h

/-! ### Texts -/

/-- A printable character, a tab or a complete sequence. -/
def IsComplete : Scan.Token CodeUnit Text → Prop
  | .unit unit => isPrintable unit = true ∨ unit = tab
  | .found code => extractAnsiCode code = some (code, [])

instance : DecidablePred IsComplete
  | .unit unit => inferInstanceAs (Decidable (isPrintable unit = true ∨ unit = tab))
  | .found code => inferInstanceAs (Decidable (extractAnsiCode code = some (code, [])))

/-- A text of printable characters, tabs and complete sequences. -/
structure AnsiText where
  tokens : List (Scan.Token CodeUnit Text)
  complete : ∀ token ∈ tokens, IsComplete token

/-- The unit of a token that is seen. -/
def visibleUnit : Scan.Token CodeUnit Text → Option CodeUnit
  | .unit unit => some unit
  | .found _ => none

/-- The units of a text that are seen. -/
def visibleUnits (tokens : List (Scan.Token CodeUnit Text)) : Text := tokens.filterMap visibleUnit

def AnsiText.source (text : AnsiText) : Text := text.tokens.flatMap (Scan.Token.text id)

/-- What is seen of a text. -/
def AnsiText.visible (text : AnsiText) : Text := visibleUnits text.tokens

/-- The columns that a unit takes. -/
def columns (unit : CodeUnit) : Nat := if unit = tab then 3 else 1

/-- The columns that a text without sequences takes. -/
def totalColumns (text : Text) : Nat := (text.map columns).sum

theorem ne_esc_of_isPrintable {unit : CodeUnit} (h : isPrintable unit = true ∨ unit = tab) :
    unit ≠ esc := by
  rintro rfl
  revert h
  decide

theorem ne_tab_of_isPrintable {unit : CodeUnit} (h : isPrintable unit = true) : unit ≠ tab := by
  rintro rfl
  revert h
  decide

theorem readsBack_of_isComplete {token : Scan.Token CodeUnit Text} (h : IsComplete token) :
    Scan.ReadsBack extractAnsiCode id token := by
  cases token with
  | unit unit => exact fun rest => extractAnsiCode_of_ne_esc (ne_esc_of_isPrintable h) rest
  | found code =>
    refine ⟨?_, fun rest => extractAnsiCode_append h rest⟩
    rintro rfl
    cases h

theorem AnsiText.tokens_source (text : AnsiText) :
    Scan.tokens extractAnsiCode text.source = text.tokens :=
  Scan.tokens_flatMap fun token htoken => readsBack_of_isComplete (text.complete token htoken)

theorem flatMap_noCodes (tokens : List (Scan.Token CodeUnit Text)) :
    tokens.flatMap (Scan.Token.text fun _ => []) = visibleUnits tokens := by
  induction tokens with
  | nil => rfl
  | cons token tokens ih =>
    rw [List.flatMap_cons, ih]
    cases token with
    | unit unit => rfl
    | found code => rfl

theorem AnsiText.stripAnsi_source (text : AnsiText) : stripAnsi text.source = text.visible := by
  rw [stripAnsi, Scan.replaceAll_eq text.tokens_source, flatMap_noCodes]
  rfl

theorem AnsiText.isPrintable_or_tab (text : AnsiText) {unit : CodeUnit} (h : unit ∈ text.visible) :
    isPrintable unit = true ∨ unit = tab := by
  obtain ⟨token, htoken, hunit⟩ := List.mem_filterMap.mp h
  have hcomplete := text.complete token htoken
  cases token with
  | unit other =>
    cases hunit
    exact hcomplete
  | found code => cases hunit

@[simp]
theorem totalColumns_nil : totalColumns [] = 0 := rfl

@[simp]
theorem totalColumns_cons (unit : CodeUnit) (text : Text) :
    totalColumns (unit :: text) = columns unit + totalColumns text := by
  simp [totalColumns]

@[simp]
theorem totalColumns_append (front back : Text) :
    totalColumns (front ++ back) = totalColumns front + totalColumns back := by
  simp [totalColumns]

theorem columns_of_isPrintable {unit : CodeUnit} (h : isPrintable unit = true) : columns unit = 1 :=
  if_neg (ne_tab_of_isPrintable h)

theorem columns_pos (unit : CodeUnit) : 0 < columns unit := by
  rw [columns]
  split <;> omega

theorem totalColumns_of_printable {text : Text} (h : isPrintableAscii text = true) :
    totalColumns text = text.length := by
  rw [isPrintableAscii, List.all_eq_true] at h
  induction text with
  | nil => rfl
  | cons unit text ih =>
    rw [totalColumns_cons, columns_of_isPrintable (h unit List.mem_cons_self),
      ih fun other hother => h other (List.mem_cons_of_mem _ hother), List.length_cons]
    omega

theorem length_expandTabs (text : Text) : (expandTabs text).length = totalColumns text := by
  induction text with
  | nil => rfl
  | cons unit text ih =>
    by_cases htab : unit = tab
    · subst htab
      rw [expandTabs_cons_tab, totalColumns_cons, ← ih]
      simp only [List.length_cons, columns, if_pos]
      omega
    · rw [expandTabs_cons_of_ne htab, totalColumns_cons, ← ih, columns, if_neg htab, List.length_cons]
      omega

/-! ### Widths -/

/-- What the tables and the segmenter say of printable ASCII characters. -/
structure Unicode.Ascii (unicode : Unicode) : Prop where
  graphemes : ∀ text, isPrintableAscii text = true → unicode.graphemes text = text.map fun unit => [unit]
  zeroWidth : ∀ unit, isPrintable unit = true → unicode.isZeroWidth [unit] = false
  dropNonPrinting : ∀ unit, isPrintable unit = true → unicode.dropNonPrinting [unit] = [unit]
  eastAsianWidth : ∀ unit, isPrintable unit = true → unicode.eastAsianWidth unit = 1

variable {unicode : Unicode}

theorem graphemeWidth_of_isPrintable (h : unicode.Ascii) {unit : Nat}
    (hunit : isPrintable unit = true) : graphemeWidth unicode [unit] = 1 := by
  have htab : [unit] ≠ [tab] := fun heq => ne_tab_of_isPrintable hunit (List.singleton_inj.mp heq)
  have hrange : 0x20 ≤ unit ∧ unit ≤ 0x7e := by
    simpa [isPrintable] using hunit
  have hemoji : couldBeEmoji [unit] = false := by
    have hselector : ¬ 0xfe0f = unit := by omega
    simp [couldBeEmoji, codePoints, hselector]
    omega
  rw [graphemeWidth, if_neg htab, h.zeroWidth unit hunit, if_neg Bool.false_ne_true, hemoji,
    Bool.false_and, if_neg Bool.false_ne_true, h.dropNonPrinting unit hunit]
  simp only [codePoints]
  rw [if_neg (by omega), h.eastAsianWidth unit hunit]
  rfl

theorem sum_graphemeWidth (h : unicode.Ascii) {text : Text} (htext : isPrintableAscii text = true) :
    ((unicode.graphemes text).map (graphemeWidth unicode)).sum = text.length := by
  rw [h.graphemes text htext, List.map_map]
  rw [isPrintableAscii, List.all_eq_true] at htext
  induction text with
  | nil => rfl
  | cons unit text ih =>
    rw [List.map_cons, List.sum_cons, ih fun other hother => htext other (List.mem_cons_of_mem _ hother),
      Function.comp_apply, graphemeWidth_of_isPrintable h (htext unit List.mem_cons_self), List.length_cons]
    omega

/-- A token with spaces for its tabs. -/
def expandToken : Scan.Token CodeUnit Text → List (Scan.Token CodeUnit Text)
  | .unit unit => if unit = tab then (spaces 3).map .unit else [.unit unit]
  | .found code => [.found (expandTabs code)]

/-- A text with spaces for its tabs. -/
def AnsiText.expand (text : AnsiText) : AnsiText where
  tokens := text.tokens.flatMap expandToken
  complete := by
    intro token htoken
    obtain ⟨old, hold, htoken⟩ := List.mem_flatMap.mp htoken
    have hcomplete := text.complete old hold
    cases old with
    | unit unit =>
      by_cases htab : unit = tab
      · rw [expandToken, if_pos htab] at htoken
        obtain ⟨unit, hunit, rfl⟩ := List.mem_map.mp htoken
        rw [List.eq_of_mem_replicate hunit]
        exact .inl rfl
      · rw [expandToken, if_neg htab, List.mem_singleton] at htoken
        rw [htoken]
        exact hcomplete
    | found code =>
      rw [expandToken, List.mem_singleton] at htoken
      rw [htoken]
      exact extractAnsiCode_expandTabs hcomplete

theorem source_expandToken (token : Scan.Token CodeUnit Text) :
    (expandToken token).flatMap (Scan.Token.text id) = expandTabs (token.text id) := by
  cases token with
  | unit unit =>
    by_cases htab : unit = tab
    · subst htab
      rfl
    · rw [expandToken, if_neg htab, Scan.Token.text_unit, expandTabs_cons_of_ne htab]
      rfl
  | found code => simp [expandToken]

theorem visible_expandToken (token : Scan.Token CodeUnit Text) :
    visibleUnits (expandToken token) = expandTabs (visibleUnits [token]) := by
  cases token with
  | unit unit =>
    by_cases htab : unit = tab
    · subst htab
      rfl
    · rw [expandToken, if_neg htab]
      have hunits : visibleUnits [.unit unit] = [unit] := rfl
      rw [hunits, expandTabs_cons_of_ne htab, expandTabs_nil]
  | found code => rfl

theorem AnsiText.source_expand (text : AnsiText) : text.expand.source = expandTabs text.source := by
  rw [AnsiText.source, AnsiText.source, AnsiText.expand, List.flatMap_assoc]
  induction text.tokens with
  | nil => rfl
  | cons token tokens ih =>
    rw [List.flatMap_cons, List.flatMap_cons, expandTabs_append, ih, source_expandToken]

theorem AnsiText.visible_expand (text : AnsiText) : text.expand.visible = expandTabs text.visible := by
  rw [AnsiText.visible, AnsiText.visible, AnsiText.expand]
  dsimp only
  induction text.tokens with
  | nil => rfl
  | cons token tokens ih =>
    have hunits : visibleUnits (token :: tokens) = visibleUnits [token] ++ visibleUnits tokens :=
      List.filterMap_append (l := [token])
    rw [List.flatMap_cons, hunits, expandTabs_append, ← ih, ← visible_expandToken]
    exact List.filterMap_append

theorem isPrintableAscii_expandTabs (text : AnsiText) :
    isPrintableAscii (expandTabs text.visible) = true := by
  rw [isPrintableAscii, List.all_eq_true]
  intro unit hunit
  rw [← text.visible_expand] at hunit
  rcases text.expand.isPrintable_or_tab hunit with hprintable | rfl
  · exact hprintable
  · rw [text.visible_expand] at hunit
    obtain ⟨old, -, hold⟩ := List.mem_flatMap.mp hunit
    split_ifs at hold with htab
    · exact absurd (List.eq_of_mem_replicate hold) (by decide)
    · exact absurd (List.mem_singleton.mp hold).symm htab

theorem AnsiText.visible_of_printable {text : AnsiText} (h : isPrintableAscii text.source = true) :
    text.visible = text.source := by
  obtain ⟨tokens, complete⟩ := text
  rw [isPrintableAscii, AnsiText.source, List.all_eq_true] at h
  rw [AnsiText.visible, AnsiText.source]
  induction tokens with
  | nil => rfl
  | cons token tokens ih =>
    rw [List.flatMap_cons] at h
    have ih := ih (fun other hother => complete other (List.mem_cons_of_mem _ hother))
      fun unit hunit => h unit (List.mem_append_right _ hunit)
    cases token with
    | unit unit => exact congrArg (List.cons unit) ih
    | found code =>
      -- a sequence starts with an escape, which is not printable
      exfalso
      have hcode : extractAnsiCode code = some (code, []) := complete _ List.mem_cons_self
      cases code with
      | nil => cases hcode
      | cons first code =>
        have hfirst := h first List.mem_cons_self
        rw [extractAnsiCode_of_ne_esc (ne_esc_of_isPrintable (.inl hfirst))] at hcode
        cases hcode

theorem AnsiText.visibleWidth_source (h : unicode.Ascii) (text : AnsiText) :
    visibleWidth unicode text.source = totalColumns text.visible := by
  rw [visibleWidth]
  by_cases hempty : text.source.length = 0
  · rw [if_pos hempty]
    have htokens := text.tokens_source
    rw [List.length_eq_zero_iff.mp hempty] at htokens
    rw [AnsiText.visible, ← htokens]
    rfl
  rw [if_neg hempty]
  by_cases hprintable : isPrintableAscii text.source = true
  · rw [if_pos hprintable, text.visible_of_printable hprintable, totalColumns_of_printable hprintable]
  · rw [if_neg hprintable, ← text.source_expand, text.expand.stripAnsi_source, text.visible_expand,
      sum_graphemeWidth h (isPrintableAscii_expandTabs text), length_expandTabs]

/-! ### Loops over a text -/

namespace Scanner

variable {σ : Type} (scanner : Scanner σ)

/-- The loop over the tokens of a text, a segment for each character. -/
def tokens (state : σ) : List (Scan.Token CodeUnit Text) → σ × Bool
  | [] => (state, true)
  | .found code :: rest => tokens (scanner.code state code) rest
  | .unit unit :: rest =>
    let next := scanner.segment state [unit] (columns unit)
    if next.2 then tokens next.1 rest else next

theorem tokens_unit_of_stop {state next : σ} {unit : CodeUnit}
    (h : scanner.segment state [unit] (columns unit) = (next, false))
    (rest : List (Scan.Token CodeUnit Text)) :
    scanner.tokens state (.unit unit :: rest) = (next, false) := by
  rw [tokens]
  simp only [h]
  rfl

theorem tokens_unit_of_go {state next : σ} {unit : CodeUnit}
    (h : scanner.segment state [unit] (columns unit) = (next, true))
    (rest : List (Scan.Token CodeUnit Text)) :
    scanner.tokens state (.unit unit :: rest) = scanner.tokens next rest := by
  rw [tokens]
  simp only [h]
  rfl

/-- Behind one segment the loop goes on with the next, or it ends. -/
theorem items_run_cons (h : unicode.Ascii) (state : σ) {unit : CodeUnit} {text : Text}
    (hunit : isPrintable unit = true) (htext : isPrintableAscii text = true) (rest : List Item) :
    scanner.items unicode state (.run (unit :: text) :: rest) =
      if (scanner.segment state [unit] 1).2 then
        scanner.items unicode (scanner.segment state [unit] 1).1 (.run text :: rest)
      else scanner.segment state [unit] 1 := by
  have hall : isPrintableAscii (unit :: text) = true := by
    rw [isPrintableAscii, List.all_cons, hunit]
    exact htext
  rw [items, h.graphemes _ hall, List.map_cons, segments, graphemeWidth_of_isPrintable h hunit]
  by_cases hnext : (scanner.segment state [unit] 1).2 = true
  · rw [if_pos hnext, if_pos hnext, items, h.graphemes _ htext]
  · rw [if_neg hnext, if_neg hnext, if_neg hnext]

theorem items_run_singleton (h : unicode.Ascii) (state : σ) {unit : CodeUnit}
    (hunit : isPrintable unit = true) (rest : List Item) :
    scanner.items unicode state (.run [unit] :: rest) =
      if (scanner.segment state [unit] 1).2 then
        scanner.items unicode (scanner.segment state [unit] 1).1 rest
      else scanner.segment state [unit] 1 := by
  rw [items_run_cons scanner h state hunit rfl, items, h.graphemes [] rfl]
  rfl

end Scanner

/-- Whether a loop that cuts at tabs, or at none, sees the tokens one by one. -/
def SeesTokens (cutsTabs : Bool) (tokens : List (Scan.Token CodeUnit Text)) : Prop :=
  ∀ token ∈ tokens, IsComplete token ∧
    ∀ unit, token = .unit unit → isPrintable unit = true ∨ cutsTabs = true ∧ unit = tab

theorem isPrintable_of_run {cutsTabs : Bool} {tokens : List (Scan.Token CodeUnit Text)}
    (h : SeesTokens cutsTabs tokens) {text : Text} (htext : .run text ∈ groupItems cutsTabs tokens) :
    isPrintableAscii text = true := by
  induction tokens generalizing text with
  | nil => cases htext
  | cons token tokens ih =>
    have ih := fun {text} => @ih (fun other hother => h other (List.mem_cons_of_mem _ hother)) text
    cases token with
    | found code =>
      rw [groupItems] at htext
      rcases List.mem_cons.mp htext with heq | hmem
      · cases heq
      · exact ih hmem
    | unit unit =>
      rw [groupItems] at htext
      split at htext
      · rcases List.mem_cons.mp htext with heq | hmem
        · cases heq
        · exact ih hmem
      · rename_i hcut
        have hunit : isPrintable unit = true := by
          rcases (h _ List.mem_cons_self).2 unit rfl with hunit | ⟨hcuts, htab⟩
          · exact hunit
          · exact absurd (by rw [hcuts, htab]; decide) hcut
        split at htext
        · rename_i run items hgroup
          rcases List.mem_cons.mp htext with heq | hmem
          · cases heq
            rw [isPrintableAscii, List.all_cons, hunit]
            exact ih (by rw [hgroup]; exact List.mem_cons_self)
          · exact ih (by rw [hgroup]; exact List.mem_cons_of_mem _ hmem)
        · rcases List.mem_cons.mp htext with heq | hmem
          · cases heq
            rw [isPrintableAscii, List.all_cons, hunit]
            rfl
          · exact ih hmem

/-- The loop over the items of a text is the loop over its tokens. -/
theorem Scanner.items_groupItems {σ : Type} (scanner : Scanner σ) (h : unicode.Ascii) {cutsTabs : Bool}
    {tokens : List (Scan.Token CodeUnit Text)} (htokens : SeesTokens cutsTabs tokens) (state : σ) :
    scanner.items unicode state (groupItems cutsTabs tokens) = scanner.tokens state tokens := by
  induction tokens generalizing state with
  | nil => rfl
  | cons token tokens ih =>
    have hrest : SeesTokens cutsTabs tokens :=
      fun other hother => htokens other (List.mem_cons_of_mem _ hother)
    cases token with
    | found code =>
      rw [groupItems, Scanner.items, Scanner.tokens]
      exact ih hrest _
    | unit unit =>
      rw [groupItems, Scanner.tokens]
      split
      · rename_i hcut
        obtain ⟨-, htab⟩ : cutsTabs = true ∧ unit = tab := by simpa using hcut
        subst htab
        rw [Scanner.items]
        rw [ih hrest]
        rfl
      · rename_i hcut
        have hunit : isPrintable unit = true := by
          rcases (htokens _ List.mem_cons_self).2 unit rfl with hunit | ⟨hcuts, htab⟩
          · exact hunit
          · exact absurd (by rw [hcuts, htab]; decide) hcut
        rw [columns_of_isPrintable hunit, ← ih hrest]
        split
        · rename_i text items hgroup
          have htext : isPrintableAscii text = true :=
            isPrintable_of_run hrest (by rw [hgroup]; exact List.mem_cons_self)
          rw [Scanner.items_run_cons scanner h state hunit htext, hgroup]
        · rw [Scanner.items_run_singleton scanner h state hunit]

theorem AnsiText.seesTokens (text : AnsiText) : SeesTokens true text.tokens := by
  intro token htoken
  refine ⟨text.complete token htoken, ?_⟩
  rintro unit rfl
  rcases text.complete _ htoken with hunit | htab
  · exact .inl hunit
  · exact .inr ⟨rfl, htab⟩

/-- A loop over a text that looks for tabs. -/
theorem Scanner.items_source {σ : Type} (scanner : Scanner σ) (h : unicode.Ascii) (text : AnsiText)
    (state : σ) :
    scanner.items unicode state (Utils.items true text.source) = scanner.tokens state text.tokens := by
  rw [Utils.items, text.tokens_source]
  exact scanner.items_groupItems h text.seesTokens state

end Tui.Utils
