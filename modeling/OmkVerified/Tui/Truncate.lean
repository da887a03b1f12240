import OmkVerified.Tui.Proofs.AnsiProofs

/-!
# Cutting a text to a width

`truncateToWidth` of `packages/tui/src/utils.ts`. A text is scanned up to the first item that no longer fits;
escape sequences are held back until something visible follows them.
-/

namespace Tui.Utils

open Lib StdinBuffer

variable (unicode : Unicode)

/-- `"\x1b[0m"`. -/
def sgrReset : Text := [esc, 0x5b, 0x30, 0x6d]

/-! ## Fragments -/

/-- What a fragment keeps. -/
structure Fragment where
  text : Text
  width : Nat
  pendingAnsi : Text
deriving DecidableEq, Repr

def Fragment.empty : Fragment := ⟨[], 0, []⟩

/-- A visible segment with the sequences before it. -/
def Fragment.push (fragment : Fragment) (segment : Text) (width : Nat) : Fragment :=
  ⟨fragment.text ++ fragment.pendingAnsi ++ segment, fragment.width + width, []⟩

/-- The loop ends before the first segment that does not fit. -/
def fragmentScanner (maxWidth : Nat) : Scanner Fragment where
  code := fun fragment code => { fragment with pendingAnsi := fragment.pendingAnsi ++ code }
  segment := fun fragment segment width =>
    if fragment.width + width > maxWidth then (fragment, false) else (fragment.push segment width, true)

def truncateFragmentToWidth (text : Text) (maxWidth : Nat) : Text × Nat :=
  if maxWidth = 0 ∨ text.length = 0 then ([], 0)
  else if isPrintableAscii text then (text.take maxWidth, (text.take maxWidth).length)
  else if ¬ text.contains esc ∧ ¬ text.contains tab then
    let taken := (fragmentScanner maxWidth).segments unicode .empty (unicode.graphemes text)
    (taken.1.text, taken.1.width)
  else
    let taken := (fragmentScanner maxWidth).items unicode .empty (items true text)
    (taken.1.text, taken.1.width)

def finalizeTruncatedResult (front : Text) (prefixWidth : Nat) (ellipsis : Text)
    (ellipsisWidth maxWidth : Nat) (pad : Bool) : Text :=
  let visibleWidth := prefixWidth + ellipsisWidth
  let result :=
    if ellipsis.length > 0 then front ++ sgrReset ++ ellipsis ++ sgrReset else front ++ sgrReset
  if pad then result ++ spaces (maxWidth - visibleWidth) else result

/-! ## Texts -/

structure Truncation where
  result : Text
  pendingAnsi : Text
  visibleSoFar : Nat
  keptWidth : Nat
  keepContiguousPrefix : Bool
  overflowed : Bool
deriving DecidableEq, Repr

def Truncation.start : Truncation := ⟨[], [], 0, 0, true, false⟩

/-- A visible segment: it is kept, or nothing is kept from here on. -/
def Truncation.see (targetWidth maxWidth : Nat) (state : Truncation) (segment : Text) (width : Nat) :
    Truncation :=
  let state :=
    if state.keepContiguousPrefix && state.keptWidth + width ≤ targetWidth then
      { state with
        result := state.result ++ state.pendingAnsi ++ segment
        pendingAnsi := []
        keptWidth := state.keptWidth + width }
    else { state with keepContiguousPrefix := false, pendingAnsi := [] }
  let visibleSoFar := state.visibleSoFar + width
  { state with visibleSoFar, overflowed := visibleSoFar > maxWidth }

/-- The loop ends where the text overflows. -/
def truncationScanner (targetWidth maxWidth : Nat) : Scanner Truncation where
  code := fun state code => { state with pendingAnsi := state.pendingAnsi ++ code }
  segment := fun state segment width =>
    let state := state.see targetWidth maxWidth segment width
    (state, !state.overflowed)

/-- The input is exhausted exactly when nothing overflowed. -/
def truncateToWidth (text : Text) (maxWidth : Nat) (ellipsis : Text) (pad : Bool) : Text :=
  if maxWidth = 0 then []
  else if text.length = 0 then if pad then spaces maxWidth else []
  else
    let ellipsisWidth := visibleWidth unicode ellipsis
    if ellipsisWidth ≥ maxWidth then
      let textWidth := visibleWidth unicode text
      if textWidth ≤ maxWidth then if pad then text ++ spaces (maxWidth - textWidth) else text
      else
        let clippedEllipsis := truncateFragmentToWidth unicode ellipsis maxWidth
        if clippedEllipsis.2 = 0 then if pad then spaces maxWidth else []
        else finalizeTruncatedResult [] 0 clippedEllipsis.1 clippedEllipsis.2 maxWidth pad
    else if isPrintableAscii text then
      if text.length ≤ maxWidth then
        if pad then text ++ spaces (maxWidth - text.length) else text
      else
        let targetWidth := maxWidth - ellipsisWidth
        finalizeTruncatedResult (text.take targetWidth) targetWidth ellipsis ellipsisWidth maxWidth pad
    else
      let targetWidth := maxWidth - ellipsisWidth
      let scanner := truncationScanner targetWidth maxWidth
      let state :=
        if ¬ text.contains esc ∧ ¬ text.contains tab then
          (scanner.segments unicode .start (unicode.graphemes text)).1
        else (scanner.items unicode .start (items true text)).1
      if ¬ state.overflowed then
        if pad then text ++ spaces (maxWidth - state.visibleSoFar) else text
      else
        finalizeTruncatedResult state.result state.keptWidth ellipsis ellipsisWidth maxWidth pad

end Tui.Utils

/-!
# What is left of a text that is cut

Each of the scans keeps the longest prefix of what is visible that fits, and the sequences in it.
-/

namespace Tui.Utils

open Lib StdinBuffer

/-! ### Prefixes that fit -/

/-- The longest prefix of a text that fits the columns. -/
structure LongestPrefix (limit : Nat) (text kept : Text) : Prop where
  isPrefix : kept <+: text
  fits : totalColumns kept ≤ limit
  longest : ∀ longer, longer <+: text → totalColumns longer ≤ limit → longer.length ≤ kept.length

theorem totalColumns_le_of_prefix {front text : Text} (h : front <+: text) :
    totalColumns front ≤ totalColumns text := by
  obtain ⟨rest, rfl⟩ := h
  rw [totalColumns_append]
  omega

theorem length_le_totalColumns (text : Text) : text.length ≤ totalColumns text := by
  induction text with
  | nil => exact le_rfl
  | cons unit text ih =>
    have := columns_pos unit
    rw [List.length_cons, totalColumns_cons]
    omega

theorem LongestPrefix.all {limit : Nat} {text : Text} (h : totalColumns text ≤ limit) :
    LongestPrefix limit text text :=
  ⟨List.prefix_rfl, h, fun _ hlonger _ => hlonger.length_le⟩

/-- With the next unit it does not fit any more. -/
theorem LongestPrefix.of_next {limit : Nat} {text kept : Text} {unit : CodeUnit}
    (hpre : kept ++ [unit] <+: text) (hfits : totalColumns kept ≤ limit)
    (hnext : limit < totalColumns (kept ++ [unit])) : LongestPrefix limit text kept := by
  refine ⟨(List.prefix_append _ _).trans hpre, hfits, ?_⟩
  intro longer hlonger hlimit
  by_contra hlength
  have hmore : kept ++ [unit] <+: longer := by
    refine List.prefix_of_prefix_length_le hpre hlonger ?_
    rw [List.length_append, List.length_singleton]
    omega
  have := totalColumns_le_of_prefix hmore
  omega

theorem LongestPrefix.take {limit : Nat} {text : Text} (h : isPrintableAscii text = true) :
    LongestPrefix limit text (text.take limit) := by
  have hcolumns : ∀ front, front <+: text → totalColumns front = front.length := by
    intro front hfront
    apply totalColumns_of_printable
    rw [isPrintableAscii, List.all_eq_true] at h ⊢
    exact fun unit hunit => h unit (hfront.subset hunit)
  refine ⟨List.take_prefix _ _, ?_, ?_⟩
  · rw [hcolumns _ (List.take_prefix _ _), List.length_take]
    omega
  · intro longer hlonger hlimit
    rw [hcolumns _ hlonger] at hlimit
    rw [List.length_take]
    have := hlonger.length_le
    omega

/-! ### What a text shows -/

/-- A text of complete sequences with these visible units. -/
def Shows (raw visible : Text) : Prop := ∃ text : AnsiText, text.source = raw ∧ text.visible = visible

theorem shows_nil : Shows [] [] := ⟨⟨[], by simp⟩, rfl, rfl⟩

theorem Shows.append {raw raw' visible visible' : Text} (h : Shows raw visible)
    (h' : Shows raw' visible') : Shows (raw ++ raw') (visible ++ visible') := by
  obtain ⟨text, rfl, rfl⟩ := h
  obtain ⟨text', rfl, rfl⟩ := h'
  refine ⟨⟨text.tokens ++ text'.tokens, ?_⟩, List.flatMap_append, List.filterMap_append⟩
  intro token htoken
  rcases List.mem_append.mp htoken with hmem | hmem
  · exact text.complete token hmem
  · exact text'.complete token hmem

theorem shows_code {code : Text} (h : extractAnsiCode code = some (code, [])) : Shows code [] :=
  ⟨⟨[.found code], by simpa [IsComplete] using h⟩, by simp [AnsiText.source], rfl⟩

theorem shows_unit {unit : CodeUnit} (h : isPrintable unit = true ∨ unit = tab) :
    Shows [unit] [unit] :=
  ⟨⟨[.unit unit], by simpa [IsComplete] using h⟩, rfl, rfl⟩

theorem shows_printable {text : Text} (h : isPrintableAscii text = true) : Shows text text := by
  rw [isPrintableAscii, List.all_eq_true] at h
  induction text with
  | nil => exact shows_nil
  | cons unit text ih =>
    exact (shows_unit (.inl (h unit List.mem_cons_self))).append
      (ih fun other hother => h other (List.mem_cons_of_mem _ hother))

theorem isPrintableAscii_spaces (count : Nat) : isPrintableAscii (spaces count) = true := by
  rw [isPrintableAscii, List.all_eq_true]
  intro unit hunit
  rw [List.eq_of_mem_replicate hunit]
  decide

theorem shows_spaces (count : Nat) : Shows (spaces count) (spaces count) :=
  shows_printable (isPrintableAscii_spaces count)

theorem totalColumns_spaces (count : Nat) : totalColumns (spaces count) = count := by
  rw [totalColumns_of_printable (isPrintableAscii_spaces count), spaces, List.length_replicate]

theorem Shows.stripAnsi {raw visible : Text} (h : Shows raw visible) : stripAnsi raw = visible := by
  obtain ⟨text, rfl, rfl⟩ := h
  exact text.stripAnsi_source

variable {unicode : Unicode}

theorem Shows.visibleWidth {raw visible : Text} (h : Shows raw visible) (hascii : unicode.Ascii) :
    visibleWidth unicode raw = totalColumns visible := by
  obtain ⟨text, rfl, rfl⟩ := h
  exact text.visibleWidth_source hascii

theorem shows_sgrReset : Shows sgrReset [] := shows_code (by decide)

theorem AnsiText.isPrintableAscii_of_plain {text : AnsiText} (hesc : esc ∉ text.source)
    (htab : tab ∉ text.source) : isPrintableAscii text.source = true := by
  rw [isPrintableAscii, List.all_eq_true]
  intro unit hunit
  obtain ⟨token, htoken, hmem⟩ := List.mem_flatMap.mp hunit
  have hcomplete := text.complete token htoken
  cases token with
  | unit other =>
    rw [Scan.Token.text_unit, List.mem_singleton] at hmem
    subst hmem
    rcases hcomplete with hprintable | rfl
    · exact hprintable
    · exact absurd hunit htab
  | found code =>
    exfalso
    cases code with
    | nil => cases hcomplete
    | cons first code =>
      have hfirst : first = esc := by
        by_contra hne
        rw [IsComplete, extractAnsiCode_of_ne_esc hne] at hcomplete
        cases hcomplete
      exact hesc (List.mem_flatMap.mpr ⟨_, htoken, by rw [hfirst]; exact List.mem_cons_self⟩)

/-! ### Fragments -/

/-- Up to here everything was kept. -/
structure Fragment.Keeps (maxWidth : Nat) (seen : Text) (fragment : Fragment) : Prop where
  text : Shows fragment.text seen
  pending : Shows fragment.pendingAnsi []
  width : fragment.width = totalColumns seen
  fits : totalColumns seen ≤ maxWidth

/-- What a fragment has kept of a text. -/
def Fragment.Cut (maxWidth : Nat) (text : Text) (fragment : Fragment) : Prop :=
  ∃ kept, Shows fragment.text kept ∧ fragment.width = totalColumns kept ∧ LongestPrefix maxWidth text kept

theorem fragmentScanner_tokens {maxWidth : Nat} {tokens : List (Scan.Token CodeUnit Text)}
    (hcomplete : ∀ token ∈ tokens, IsComplete token) {seen : Text} {fragment : Fragment}
    (h : fragment.Keeps maxWidth seen) :
    ((fragmentScanner maxWidth).tokens fragment tokens).1.Cut maxWidth (seen ++ visibleUnits tokens) := by
  induction tokens generalizing seen fragment with
  | nil =>
    refine ⟨seen, h.text, h.width, ?_⟩
    rw [visibleUnits, List.filterMap_nil, List.append_nil]
    exact .all h.fits
  | cons token tokens ih =>
    have ih := fun {seen fragment} => @ih (fun other hother => hcomplete other (List.mem_cons_of_mem _ hother))
      seen fragment
    have htoken := hcomplete token List.mem_cons_self
    cases token with
    | found code =>
      rw [Scanner.tokens]
      refine ih ⟨h.text, ?_, h.width, h.fits⟩
      exact h.pending.append (shows_code htoken)
    | unit unit =>
      have hseen : seen ++ visibleUnits (.unit unit :: tokens) = seen ++ [unit] ++ visibleUnits tokens := by
        rw [List.append_assoc]
        rfl
      have hnext : totalColumns (seen ++ [unit]) = totalColumns seen + columns unit := by
        simp
      rw [hseen]
      by_cases hwide : fragment.width + columns unit > maxWidth
      · rw [Scanner.tokens_unit_of_stop _ (if_pos hwide)]
        refine ⟨seen, h.text, h.width, ?_⟩
        refine .of_next (List.prefix_append _ _) h.fits ?_
        rw [hnext, ← h.width]
        exact hwide
      · rw [Scanner.tokens_unit_of_go _ (if_neg hwide)]
        refine ih ⟨?_, shows_nil, ?_, ?_⟩
        · have hpush := (h.text.append h.pending).append (shows_unit htoken)
          rw [List.append_nil] at hpush
          exact hpush
        · rw [hnext, ← h.width]
          rfl
        · rw [hnext, ← h.width]
          omega

/-- The fragment is the longest prefix that fits. -/
theorem truncateFragmentToWidth_spec (h : unicode.Ascii) (text : AnsiText) (maxWidth : Nat) :
    ∃ kept, Shows (truncateFragmentToWidth unicode text.source maxWidth).1 kept ∧
      (truncateFragmentToWidth unicode text.source maxWidth).2 = totalColumns kept ∧
      LongestPrefix maxWidth text.visible kept := by
  rw [truncateFragmentToWidth]
  by_cases hempty : maxWidth = 0 ∨ text.source.length = 0
  · rw [if_pos hempty]
    refine ⟨[], shows_nil, rfl, List.nil_prefix, Nat.zero_le _, ?_⟩
    intro longer hlonger hfits
    rcases hempty with rfl | hsource
    · exact (length_le_totalColumns longer).trans hfits
    · have hvisible := text.stripAnsi_source
      rw [List.length_eq_zero_iff.mp hsource] at hvisible
      rw [← hvisible] at hlonger
      exact hlonger.length_le
  rw [if_neg hempty]
  by_cases hprintable : isPrintableAscii text.source = true
  · rw [if_pos hprintable, text.visible_of_printable hprintable]
    have htake := @LongestPrefix.take maxWidth _ hprintable
    have hshort : isPrintableAscii (text.source.take maxWidth) = true := by
      rw [isPrintableAscii, List.all_eq_true] at hprintable ⊢
      exact fun unit hunit => hprintable unit (List.mem_of_mem_take hunit)
    exact ⟨_, shows_printable hshort, (totalColumns_of_printable hshort).symm, htake⟩
  rw [if_neg hprintable]
  have hitems : ¬ (¬ text.source.contains esc = true ∧ ¬ text.source.contains tab = true) := by
    rintro ⟨hesc, htab⟩
    rw [List.contains_iff_mem] at hesc htab
    exact hprintable (text.isPrintableAscii_of_plain hesc htab)
  rw [if_neg hitems]
  dsimp only
  rw [Scanner.items_source _ h]
  have hstart : Fragment.empty.Keeps maxWidth [] := ⟨shows_nil, shows_nil, rfl, Nat.zero_le _⟩
  exact fragmentScanner_tokens text.complete hstart

/-! ### Scanning a text -/

/-- What was kept of the visible units seen so far: all of them, or those before the first that did not fit. -/
structure Truncation.Seen (targetWidth : Nat) (seen : Text) (state : Truncation) : Prop where
  pending : Shows state.pendingAnsi []
  seenWidth : state.visibleSoFar = totalColumns seen
  kept : ∃ kept, Shows state.result kept ∧ state.keptWidth = totalColumns kept ∧
    totalColumns kept ≤ targetWidth ∧ (state.keepContiguousPrefix = true → kept = seen) ∧
    (state.keepContiguousPrefix = false → ∃ unit, kept ++ [unit] <+: seen ∧
      targetWidth < totalColumns (kept ++ [unit]))

variable {targetWidth maxWidth : Nat}

theorem Truncation.Seen.code {seen : Text} {state : Truncation} (h : state.Seen targetWidth seen)
    {code : Text} (hcode : extractAnsiCode code = some (code, [])) :
    { state with pendingAnsi := state.pendingAnsi ++ code }.Seen targetWidth seen :=
  ⟨h.pending.append (shows_code hcode), h.seenWidth, h.kept⟩

theorem Truncation.Seen.see {seen : Text} {state : Truncation} (h : state.Seen targetWidth seen)
    {unit : CodeUnit} (hunit : isPrintable unit = true ∨ unit = tab) (maxWidth : Nat) :
    (state.see targetWidth maxWidth [unit] (columns unit)).Seen targetWidth (seen ++ [unit]) := by
  obtain ⟨kept, hshow, hwidth, hfits, hall, hcut⟩ := h.kept
  have hseen : totalColumns (seen ++ [unit]) = totalColumns seen + columns unit := by simp
  have hkept : totalColumns (kept ++ [unit]) = totalColumns kept + columns unit := by simp
  rw [Truncation.see]
  by_cases hkeep : (state.keepContiguousPrefix && decide (state.keptWidth + columns unit ≤ targetWidth)) = true
  · rw [if_pos hkeep]
    rw [Bool.and_eq_true, decide_eq_true_eq] at hkeep
    refine ⟨shows_nil, by rw [hseen, ← h.seenWidth], kept ++ [unit], ?_, ?_, ?_, ?_, ?_⟩
    · have hpush := (hshow.append h.pending).append (shows_unit hunit)
      rw [List.append_nil] at hpush
      exact hpush
    · rw [hkept, ← hwidth]
    · rw [hkept, ← hwidth]
      exact hkeep.2
    · intro _
      rw [hall hkeep.1]
    · intro hfalse
      rw [hkeep.1] at hfalse
      cases hfalse
  · rw [if_neg hkeep]
    refine ⟨shows_nil, by rw [hseen, ← h.seenWidth], kept, hshow, hwidth, hfits, ?_, ?_⟩
    · intro htrue
      cases htrue
    · intro _
      cases hcontiguous : state.keepContiguousPrefix with
      | true =>
        refine ⟨unit, ?_, ?_⟩
        · rw [hall hcontiguous]
        · rw [hcontiguous, Bool.true_and, decide_eq_true_eq, not_le] at hkeep
          rw [hkept, ← hwidth]
          exact hkeep
      | false =>
        obtain ⟨next, hpre, hwide⟩ := hcut hcontiguous
        exact ⟨next, hpre.trans (List.prefix_append _ _), hwide⟩

/-- What a scan ends with: the whole text was seen and fits, or what was seen is too wide. -/
def Truncation.Ends (targetWidth maxWidth : Nat) (text : Text) (state : Truncation) : Prop :=
  (state.overflowed = false ∧ state.Seen targetWidth text ∧ totalColumns text ≤ maxWidth) ∨
    (state.overflowed = true ∧ ∃ seen, seen <+: text ∧ state.Seen targetWidth seen ∧
      maxWidth < totalColumns seen)

theorem truncationScanner_tokens {tokens : List (Scan.Token CodeUnit Text)}
    (hcomplete : ∀ token ∈ tokens, IsComplete token) {seen : Text} {state : Truncation}
    (h : state.Seen targetWidth seen) (hover : state.overflowed = false)
    (hfits : totalColumns seen ≤ maxWidth) :
    ((truncationScanner targetWidth maxWidth).tokens state tokens).1.Ends targetWidth maxWidth
      (seen ++ visibleUnits tokens) := by
  induction tokens generalizing seen state with
  | nil =>
    rw [visibleUnits, List.filterMap_nil, List.append_nil]
    exact .inl ⟨hover, h, hfits⟩
  | cons token tokens ih =>
    have ih := fun {seen state} => @ih (fun other hother => hcomplete other (List.mem_cons_of_mem _ hother))
      seen state
    have htoken := hcomplete token List.mem_cons_self
    cases token with
    | found code =>
      rw [Scanner.tokens]
      exact ih (h.code htoken) hover hfits
    | unit unit =>
      have hseen : seen ++ visibleUnits (.unit unit :: tokens) = seen ++ [unit] ++ visibleUnits tokens := by
        rw [List.append_assoc]
        rfl
      have hnext := h.see htoken maxWidth
      have hflag : (state.see targetWidth maxWidth [unit] (columns unit)).overflowed =
          decide (maxWidth < totalColumns (seen ++ [unit])) := by
        rw [← hnext.seenWidth]
        rfl
      have hstep : (truncationScanner targetWidth maxWidth).segment state [unit] (columns unit) =
          (state.see targetWidth maxWidth [unit] (columns unit),
            !(state.see targetWidth maxWidth [unit] (columns unit)).overflowed) := rfl
      rw [hseen]
      by_cases hwide : maxWidth < totalColumns (seen ++ [unit])
      · rw [decide_eq_true hwide] at hflag
        rw [hflag] at hstep
        rw [Scanner.tokens_unit_of_stop _ hstep]
        exact .inr ⟨hflag, seen ++ [unit], List.prefix_append _ _, hnext, hwide⟩
      · rw [decide_eq_false hwide] at hflag
        rw [hflag] at hstep
        rw [Scanner.tokens_unit_of_go _ hstep]
        exact ih hnext hflag (not_lt.mp hwide)

/-- Of a text that overflows the longest prefix is kept. -/
theorem Truncation.Seen.longest {seen text : Text} {state : Truncation} (h : state.Seen targetWidth seen)
    (hpre : seen <+: text) (hwide : targetWidth < totalColumns seen) :
    ∃ kept, Shows state.result kept ∧ state.keptWidth = totalColumns kept ∧
      LongestPrefix targetWidth text kept := by
  obtain ⟨kept, hshow, hwidth, hfits, hall, hcut⟩ := h.kept
  refine ⟨kept, hshow, hwidth, ?_⟩
  cases hcontiguous : state.keepContiguousPrefix with
  | true =>
    rw [← hall hcontiguous] at hwide
    omega
  | false =>
    obtain ⟨unit, hnext, hlimit⟩ := hcut hcontiguous
    exact .of_next (hnext.trans hpre) hfits hlimit

/-! ### The result -/

/-- A text cut to a width: the longest prefix that fits before the ellipsis, the longest prefix of the ellipsis
that fits, and blanks. -/
structure Truncated (unicode : Unicode) (text ellipsis : AnsiText) (maxWidth : Nat) (pad : Bool)
    (result : Text) : Prop where
  width_le : visibleWidth unicode result ≤ maxWidth
  width_eq : pad = true → visibleWidth unicode result = maxWidth
  content : ∃ kept shown blanks, stripAnsi result = kept ++ shown ++ spaces blanks ∧
    LongestPrefix (maxWidth - visibleWidth unicode ellipsis.source) text.visible kept ∧
    LongestPrefix maxWidth ellipsis.visible shown ∧ (pad = false → blanks = 0)

theorem shows_finalize {front ellipsis kept shown : Text} (hfront : Shows front kept)
    (hellipsis : Shows ellipsis shown) (maxWidth : Nat) (pad : Bool) :
    Shows (finalizeTruncatedResult front (totalColumns kept) ellipsis (totalColumns shown) maxWidth pad)
      (kept ++ shown ++ spaces (if pad then maxWidth - (totalColumns kept + totalColumns shown) else 0)) := by
  have hresult : Shows (if ellipsis.length > 0 then front ++ sgrReset ++ ellipsis ++ sgrReset
      else front ++ sgrReset) (kept ++ shown) := by
    by_cases hlength : ellipsis.length > 0
    · rw [if_pos hlength]
      have hall := ((hfront.append shows_sgrReset).append hellipsis).append shows_sgrReset
      rw [List.append_nil, List.append_nil] at hall
      exact hall
    · rw [if_neg hlength]
      have hshown : shown = [] := by
        rw [← hellipsis.stripAnsi, List.length_eq_zero_iff.mp (by omega : ellipsis.length = 0)]
        rfl
      rw [hshown]
      exact hfront.append shows_sgrReset
  rw [finalizeTruncatedResult]
  cases pad with
  | true => exact hresult.append (shows_spaces _)
  | false =>
    have hnone : Shows [] (spaces 0) := shows_nil
    have hall := hresult.append hnone
    rw [List.append_nil] at hall
    exact hall

/-- What is put together from a kept prefix and an ellipsis. -/
theorem truncated_finalize (h : unicode.Ascii) {text ellipsis : AnsiText} {front clipped kept shown : Text}
    (hfront : Shows front kept) (hclipped : Shows clipped shown)
    (hkept : LongestPrefix (maxWidth - visibleWidth unicode ellipsis.source) text.visible kept)
    (hshown : LongestPrefix maxWidth ellipsis.visible shown)
    (hfits : totalColumns kept + totalColumns shown ≤ maxWidth) (pad : Bool) :
    Truncated unicode text ellipsis maxWidth pad
      (finalizeTruncatedResult front (totalColumns kept) clipped (totalColumns shown) maxWidth pad) := by
  have hshows := shows_finalize hfront hclipped maxWidth pad
  have hwidth := hshows.visibleWidth h
  rw [totalColumns_append, totalColumns_append, totalColumns_spaces] at hwidth
  refine ⟨?_, ?_, kept, shown, _, hshows.stripAnsi, hkept, hshown, ?_⟩
  · rw [hwidth]
    split <;> omega
  · rintro rfl
    rw [hwidth, if_pos rfl]
    omega
  · rintro rfl
    rfl

/-- A text that fits is returned as it is, padded if asked for; any other is cut. -/
theorem truncateToWidth_spec (h : unicode.Ascii) (text ellipsis : AnsiText) {maxWidth : Nat}
    (hpos : 0 < maxWidth) (pad : Bool) :
    (visibleWidth unicode text.source ≤ maxWidth →
        truncateToWidth unicode text.source maxWidth ellipsis.source pad =
          text.source ++ if pad then spaces (maxWidth - visibleWidth unicode text.source) else []) ∧
      (maxWidth < visibleWidth unicode text.source →
        Truncated unicode text ellipsis maxWidth pad
          (truncateToWidth unicode text.source maxWidth ellipsis.source pad)) := by
  have hself : ∀ blanks : Text, (if pad then text.source ++ blanks else text.source) =
      text.source ++ if pad then blanks else [] := by
    intro blanks
    cases pad
    · exact (List.append_nil _).symm
    · rfl
  have hellipsisWidth := ellipsis.visibleWidth_source h
  have htextWidth := text.visibleWidth_source h
  rw [truncateToWidth, if_neg (Nat.pos_iff_ne_zero.mp hpos)]
  by_cases hempty : text.source.length = 0
  · rw [if_pos hempty]
    rw [visibleWidth, if_pos hempty, List.length_eq_zero_iff.mp hempty]
    refine ⟨fun _ => rfl, fun hwide => ?_⟩
    omega
  rw [if_neg hempty]
  dsimp only
  by_cases hlong : visibleWidth unicode ellipsis.source ≥ maxWidth
  · -- there is no room beside the ellipsis
    rw [if_pos hlong]
    refine ⟨fun hfits => by rw [if_pos hfits, hself], fun hwide => ?_⟩
    rw [if_neg (not_le.mpr hwide)]
    obtain ⟨shown, hshow, hwidth, hlongest⟩ := truncateFragmentToWidth_spec h ellipsis maxWidth
    have hkept : LongestPrefix (maxWidth - visibleWidth unicode ellipsis.source) text.visible [] := by
      refine ⟨List.nil_prefix, Nat.zero_le _, ?_⟩
      intro longer _ hfits
      have := length_le_totalColumns longer
      rw [List.length_nil]
      omega
    rw [hwidth]
    by_cases hnone : totalColumns shown = 0
    · rw [if_pos hnone]
      have hshown : shown = [] := by
        have := length_le_totalColumns shown
        exact List.length_eq_zero_iff.mp (by omega)
      rw [hshown] at hlongest
      cases pad with
      | true =>
        have hspaces := shows_spaces maxWidth
        have hblank : visibleWidth unicode (spaces maxWidth) = maxWidth := by
          rw [hspaces.visibleWidth h, totalColumns_spaces]
        exact ⟨hblank.le, fun _ => hblank, [], [], maxWidth, hspaces.stripAnsi, hkept, hlongest,
          fun hpad => absurd hpad (by decide)⟩
      | false =>
        exact ⟨Nat.zero_le _, fun hpad => absurd hpad (by decide), [], [], 0, shows_nil.stripAnsi, hkept,
          hlongest, fun _ => rfl⟩
    · rw [if_neg hnone]
      have hfits := hlongest.fits
      exact truncated_finalize h shows_nil hshow hkept hlongest (by rw [totalColumns_nil]; omega) pad
  rw [if_neg hlong]
  have hshown : LongestPrefix maxWidth ellipsis.visible ellipsis.visible := .all (by omega)
  have hshowEllipsis : Shows ellipsis.source ellipsis.visible := ⟨ellipsis, rfl, rfl⟩
  by_cases hprintable : isPrintableAscii text.source = true
  · rw [if_pos hprintable]
    have hlength : visibleWidth unicode text.source = text.source.length := by
      rw [htextWidth, text.visible_of_printable hprintable, totalColumns_of_printable hprintable]
    rw [hlength]
    refine ⟨fun hfits => by rw [if_pos hfits, hself], fun hwide => ?_⟩
    rw [if_neg (not_le.mpr hwide)]
    have htake := @LongestPrefix.take (maxWidth - visibleWidth unicode ellipsis.source) _ hprintable
    have hshort : isPrintableAscii
        (text.source.take (maxWidth - visibleWidth unicode ellipsis.source)) = true := by
      rw [isPrintableAscii, List.all_eq_true] at hprintable ⊢
      exact fun unit hunit => hprintable unit (List.mem_of_mem_take hunit)
    have hcolumns := totalColumns_of_printable hshort
    rw [List.length_take, Nat.min_eq_left (by omega)] at hcolumns
    have hresult := truncated_finalize h (shows_printable hshort) hshowEllipsis
      (by rw [text.visible_of_printable hprintable]; exact htake) hshown
      (by rw [hcolumns, ← hellipsisWidth]; omega) pad
    rw [hcolumns, ← hellipsisWidth] at hresult
    exact hresult
  rw [if_neg hprintable]
  have hitems : ¬ (¬ text.source.contains esc = true ∧ ¬ text.source.contains tab = true) := by
    rintro ⟨hesc, htab⟩
    rw [List.contains_iff_mem] at hesc htab
    exact hprintable (text.isPrintableAscii_of_plain hesc htab)
  rw [if_neg hitems, Scanner.items_source _ h]
  have hstart : Truncation.start.Seen (maxWidth - visibleWidth unicode ellipsis.source) [] :=
    ⟨shows_nil, rfl, [], shows_nil, rfl, Nat.zero_le _, fun _ => rfl, fun hfalse => absurd hfalse (by decide)⟩
  have hends := @truncationScanner_tokens _ maxWidth _ text.complete _ _ hstart rfl (Nat.zero_le _)
  have hvisible : [] ++ visibleUnits text.tokens = text.visible := rfl
  rw [hvisible] at hends
  rcases hends with ⟨hover, hseen, hfits⟩ | ⟨hover, seen, hpre, hseen, hwide⟩
  · rw [if_pos (by rw [hover]; decide), hseen.seenWidth, ← htextWidth]
    rw [← htextWidth] at hfits
    refine ⟨fun _ => hself _, fun hwide => ?_⟩
    omega
  · rw [if_neg (by rw [hover]; decide)]
    have htotal := totalColumns_le_of_prefix hpre
    refine ⟨fun hfits => ?_, fun _ => ?_⟩
    · omega
    · obtain ⟨kept, hshow, hwidth, hlongest⟩ := hseen.longest hpre (by omega)
      have hfits := hlongest.fits
      rw [hwidth]
      have hresult := truncated_finalize h hshow hshowEllipsis hlongest hshown
        (by rw [← hellipsisWidth]; omega) pad
      rw [← hellipsisWidth] at hresult
      exact hresult

/-- Every unit is a grapheme of width one, as those of ASCII texts are. -/
def asciiUnicode : Unicode where
  graphemes := fun text => text.map fun unit => [unit]
  isZeroWidth := fun _ => false
  isRgiEmoji := fun _ => false
  dropNonPrinting := id
  eastAsianWidth := fun _ => 1

theorem ascii_asciiUnicode : asciiUnicode.Ascii :=
  ⟨fun _ _ => rfl, fun _ _ => rfl, fun _ _ => rfl, fun _ _ => rfl⟩

/-- A red `ab`, a tab and a `c`. -/
def redText : AnsiText where
  tokens := [.found [esc, 0x5b, 0x33, 0x31, 0x6d], .unit 0x61, .unit 0x62, .unit tab, .unit 0x63]
  complete := by decide

/-- The ellipsis `..`. -/
def dots : AnsiText where
  tokens := [.unit 0x2e, .unit 0x2e]
  complete := by decide

theorem truncateToWidth_redText :
    4 < visibleWidth asciiUnicode redText.source ∧
      visibleWidth asciiUnicode (truncateToWidth asciiUnicode redText.source 4 dots.source true) = 4 := by
  have hwide : 4 < visibleWidth asciiUnicode redText.source := by decide
  have hspec := @truncateToWidth_spec _ ascii_asciiUnicode redText dots 4 (by decide) true
  exact ⟨hwide, (hspec.2 hwide).width_eq rfl⟩

end Tui.Utils
