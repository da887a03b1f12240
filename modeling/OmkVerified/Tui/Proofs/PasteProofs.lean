import OmkVerified.Tui.Editor

/-!
# The marker grammar

What `markerFinder` reads is a text of one of three shapes, whatever stands behind it.
-/

namespace Tui.Components

open Lib StdinBuffer

/-- A non-empty text of digits. -/
structure Digits (digits : Text) : Prop where
  nonempty : digits ≠ []
  all : ∀ unit ∈ digits, isDigit unit = true

/-- What may follow the number of a marker. -/
inductive MarkerTail : Text → Prop
  | plain : MarkerTail (ascii "]")
  | lines {digits : Text} (h : Digits digits) : MarkerTail (ascii " +" ++ digits ++ ascii " lines]")
  | chars {digits : Text} (h : Digits digits) : MarkerTail (ascii " " ++ digits ++ ascii " chars]")

/-- A marker of a paste. -/
def IsMarker (pasteId : Nat) (marker : Text) : Prop :=
  ∃ tail, MarkerTail tail ∧ marker = ascii "[paste #" ++ decimal pasteId ++ tail

variable {rest part : Text}

theorem after_eq_some_iff {text : Text} : after part text = some rest ↔ text = part ++ rest := by
  unfold after
  constructor
  · intro h
    split_ifs at h with hpre
    cases h
    exact (List.prefix_iff_eq_append.mp (List.isPrefixOf_iff_prefix.mp hpre)).symm
  · rintro rfl
    rw [if_pos (List.isPrefixOf_iff_prefix.mpr (List.prefix_append _ _)), List.drop_left]

theorem after_eq_none_iff {text : Text} : after part text = none ↔ ¬ part <+: text := by
  unfold after
  rw [← List.isPrefixOf_iff_prefix]
  split_ifs with h <;> simp [h]

theorem readNumber_append {digits : Text} (h : Digits digits)
    (hrest : ∀ unit ∈ rest.head?, isDigit unit = false) :
    readNumber (digits ++ rest) = some (digits, rest) := by
  have htake : (digits ++ rest).takeWhile isDigit = digits := by
    rw [List.takeWhile_append_of_pos h.all]
    cases rest with
    | nil => simp
    | cons unit rest =>
      have hunit := hrest unit rfl
      rw [List.takeWhile_cons_of_neg (by simp [hunit]), List.append_nil]
  have hdrop : (digits ++ rest).dropWhile isDigit = rest := by
    rw [List.dropWhile_append_of_pos h.all]
    cases rest with
    | nil => rfl
    | cons unit rest =>
      have hunit := hrest unit rfl
      exact List.dropWhile_cons_of_neg (by simp [hunit])
  rw [readNumber, htake, hdrop, if_neg h.nonempty]

theorem readNumber_eq_some {text digits : Text} (h : readNumber text = some (digits, rest)) :
    Digits digits ∧ text = digits ++ rest := by
  unfold readNumber at h
  dsimp only at h
  split_ifs at h with hnil
  cases h
  exact ⟨⟨hnil, fun unit hunit => List.mem_takeWhile_imp hunit⟩, List.takeWhile_append_dropWhile.symm⟩

theorem markerEnd_eq_some {text back : Text} (h : markerEnd text = some back) :
    ∃ tail, MarkerTail tail ∧ text = tail ++ back := by
  unfold markerEnd at h
  split at h
  · next rest hplain =>
    cases h
    exact ⟨_, .plain, after_eq_some_iff.mp hplain⟩
  · split at h
    · next rest hplus =>
      split at h
      · next digits rest' hnumber =>
        obtain ⟨hdigits, hrest⟩ := readNumber_eq_some hnumber
        refine ⟨_, .lines hdigits, ?_⟩
        rw [after_eq_some_iff.mp hplus, hrest, after_eq_some_iff.mp h]
        simp
      · cases h
    · split at h
      · next rest hspace =>
        split at h
        · next digits rest' hnumber =>
          obtain ⟨hdigits, hrest⟩ := readNumber_eq_some hnumber
          refine ⟨_, .chars hdigits, ?_⟩
          rw [after_eq_some_iff.mp hspace, hrest, after_eq_some_iff.mp h]
          simp
        · cases h
      · cases h

theorem markerEnd_append {tail : Text} (h : MarkerTail tail) (back : Text) : markerEnd (tail ++ back) = some back := by
  cases h with
  | plain =>
    have hplain : after (ascii "]") (ascii "]" ++ back) = some back := after_eq_some_iff.mpr rfl
    rw [markerEnd, hplain]
  | @lines digits hdigits =>
    have hplain : after (ascii "]") (ascii " +" ++ digits ++ ascii " lines]" ++ back) = none := by
      rw [after_eq_none_iff]
      simp [ascii]
    have hplus : after (ascii " +") (ascii " +" ++ digits ++ ascii " lines]" ++ back) =
        some (digits ++ (ascii " lines]" ++ back)) := by
      rw [after_eq_some_iff]
      simp
    have hnumber : readNumber (digits ++ (ascii " lines]" ++ back)) = some (digits, ascii " lines]" ++ back) :=
      readNumber_append hdigits (by simp [ascii, isDigit])
    have hend : after (ascii " lines]") (ascii " lines]" ++ back) = some back := after_eq_some_iff.mpr rfl
    simp only [markerEnd, hplain, hplus, hnumber, hend]
  | @chars digits hdigits =>
    have hplain : after (ascii "]") (ascii " " ++ digits ++ ascii " chars]" ++ back) = none := by
      rw [after_eq_none_iff]
      simp [ascii]
    have hplus : after (ascii " +") (ascii " " ++ digits ++ ascii " chars]" ++ back) = none := by
      obtain ⟨first, rest, rfl⟩ := List.exists_cons_of_ne_nil hdigits.nonempty
      have hfirst := hdigits.all first List.mem_cons_self
      rw [after_eq_none_iff]
      intro hpre
      simp [ascii] at hpre
      rw [← hpre] at hfirst
      exact absurd hfirst (by decide)
    have hspace : after (ascii " ") (ascii " " ++ digits ++ ascii " chars]" ++ back) =
        some (digits ++ (ascii " chars]" ++ back)) := by
      rw [after_eq_some_iff]
      simp
    have hnumber : readNumber (digits ++ (ascii " chars]" ++ back)) = some (digits, ascii " chars]" ++ back) :=
      readNumber_append hdigits (by simp [ascii, isDigit])
    have hend : after (ascii " chars]") (ascii " chars]" ++ back) = some back := after_eq_some_iff.mpr rfl
    simp only [markerEnd, hplain, hplus, hspace, hnumber, hend]

theorem markerFinder_eq_some_iff {pasteId : Nat} {text marker back : Text} :
    markerFinder pasteId text = some (marker, back) ↔ IsMarker pasteId marker ∧ text = marker ++ back := by
  unfold markerFinder markerOf
  constructor
  · intro h
    obtain ⟨back', hback, heq⟩ := Option.map_eq_some_iff.mp h
    cases heq
    split at hback
    · next rest hhead =>
      obtain ⟨tail, htail, hrest⟩ := markerEnd_eq_some hback
      have htext := after_eq_some_iff.mp hhead
      rw [hrest, ← List.append_assoc] at htext
      have htake : text.take (text.length - back.length) = ascii "[paste #" ++ decimal pasteId ++ tail := by
        rw [htext, List.length_append, Nat.add_sub_cancel, List.take_left]
      exact ⟨⟨tail, htail, htake⟩, by rw [htake, htext]⟩
    · cases hback
  · rintro ⟨⟨tail, htail, rfl⟩, rfl⟩
    have hhead : after (ascii "[paste #" ++ decimal pasteId) (ascii "[paste #" ++ decimal pasteId ++ tail ++ back) =
        some (tail ++ back) := by
      rw [after_eq_some_iff]
      simp
    simp only [hhead, markerEnd_append htail, Option.map_some]
    rw [List.length_append, Nat.add_sub_cancel, List.take_left]

end Tui.Components

/-!
# Expanding paste markers

The markers in the text of the editor should be replaced by the contents of their pastes all at once. The code
replaces them paste by paste over the whole result, so that a content put in by an earlier pass is searched
by the later ones.
-/

namespace Tui.Components

open Lib StdinBuffer
open Lib.Scan (Token tokens)

/-- What a marker in the text tells: the number of its paste and the marker itself. -/
abbrev Mark := Nat × Text

/-- The marker of one of the pastes at the front. -/
def storedMarker (pastes : List (Nat × Text)) : Scan.Finder CodeUnit Mark := fun text =>
  pastes.findSome? fun paste => (markerFinder paste.1 text).map fun found => ((paste.1, found.1), found.2)

/-- A marker whose paste is among `done` is written as the content, any other as itself. -/
def written (done : List (Nat × Text)) (mark : Mark) : Text := (done.lookup mark.1).getD mark.2

/-- The text once the markers of the pastes `done` are replaced. -/
def fill (done : List (Nat × Text)) (read : List (Token CodeUnit Mark)) : Text :=
  read.flatMap (Token.text (written done))

/-- What a pass for one paste should find in a token: the marker of that paste. -/
def passToken (done : List (Nat × Text)) (pasteId : Nat) : Token CodeUnit Mark → List (Token CodeUnit Text)
  | .unit unit => [.unit unit]
  | .found mark => if mark.1 = pasteId then [.found mark.2] else (written done mark).map .unit

/-- In the pass for a paste nothing is found but the text's own markers of that paste. -/
def QuietPass (read : List (Token CodeUnit Mark)) (done : List (Nat × Text)) (pasteId : Nat) : Prop :=
  tokens (markerFinder pasteId) (fill done read) = read.flatMap (passToken done pasteId)

namespace Editor

variable {editor : Editor} {text : Text}

/-- The text with every marker of a stored paste replaced by the content, all at once. -/
def expanded (editor : Editor) (text : Text) : Text :=
  Scan.replaceAll (storedMarker editor.pastes.entries) (written editor.pastes.entries) text

/-- No pass finds anything but the text's own markers. -/
def Quiet (editor : Editor) (text : Text) : Prop :=
  ∀ done paste rest, editor.pastes.entries = done ++ paste :: rest →
    QuietPass (tokens (storedMarker editor.pastes.entries) text) done paste.1

end Editor

/-! ## Reading markers -/

variable {pasteId : Nat} {marker : Text} {done : List (Nat × Text)}

theorem IsMarker.ne_nil (h : IsMarker pasteId marker) : marker ≠ [] := by
  obtain ⟨tail, -, rfl⟩ := h
  simp [ascii]

theorem storedMarker_eq_some {pastes : List (Nat × Text)} {text back : Text} {mark : Mark}
    (h : storedMarker pastes text = some (mark, back)) :
    mark.1 ∈ pastes.map Prod.fst ∧ IsMarker mark.1 mark.2 ∧ text = mark.2 ++ back := by
  obtain ⟨paste, hpaste, hfound⟩ := List.exists_of_findSome?_eq_some h
  obtain ⟨⟨marker, back'⟩, hmarker, heq⟩ := Option.map_eq_some_iff.mp hfound
  cases heq
  exact ⟨List.mem_map.mpr ⟨paste, hpaste, rfl⟩, markerFinder_eq_some_iff.mp hmarker⟩

theorem storedMarker_reads (pastes : List (Nat × Text)) : Scan.Reads (storedMarker pastes) Prod.snd where
  cut := fun h => (storedMarker_eq_some h).2.2
  nonempty := fun h => (storedMarker_eq_some h).2.1.ne_nil

theorem fill_nil (pastes : List (Nat × Text)) (text : Text) : fill [] (tokens (storedMarker pastes) text) = text :=
  Scan.flatMap_tokens (storedMarker_reads pastes) text

/-! ## A pass -/

theorem lookup_concat (content : Text) (hnew : pasteId ∉ done.map Prod.fst) (i : Nat) :
    (done ++ [(pasteId, content)]).lookup i = if i = pasteId then some content else done.lookup i := by
  rw [List.lookup_append, List.lookup_cons, List.lookup_nil]
  by_cases hi : i = pasteId
  · have hnone : done.lookup i = none := by
      rw [List.lookup_eq_none_iff]
      intro p hp
      rw [bne_iff_ne, hi]
      rintro rfl
      exact hnew (List.mem_map_of_mem hp)
    rw [hnone, if_pos hi, hi, beq_self_eq_true]
    rfl
  · rw [if_neg hi, beq_false_of_ne hi]
    cases done.lookup i <;> rfl

/-- A quiet pass fills in the content of its paste. -/
theorem QuietPass.replaceAll {read : List (Token CodeUnit Mark)} (h : QuietPass read done pasteId)
    (content : Text) (hnew : pasteId ∉ done.map Prod.fst) :
    Scan.replaceAll (markerFinder pasteId) (fun _ => content) (fill done read) =
      fill (done ++ [(pasteId, content)]) read := by
  rw [Scan.replaceAll_eq h, List.flatMap_assoc, fill]
  refine List.flatMap_congr fun token _ => ?_
  cases token with
  | unit unit => rfl
  | found mark =>
    simp only [passToken, Token.text_found, written, lookup_concat content hnew]
    by_cases hid : mark.1 = pasteId
    · rw [if_pos hid, if_pos hid]
      exact List.append_nil content
    · rw [if_neg hid, if_neg hid, Scan.flatMap_unit]

namespace Editor

variable {editor : Editor} {text : Text}

theorem foldl_fill (h : editor.Quiet text) {rest : List (Nat × Text)}
    (hentries : editor.pastes.entries = done ++ rest) :
    rest.foldl (fun result paste => Scan.replaceAll (markerFinder paste.1) (fun _ => paste.2) result)
        (fill done (tokens (storedMarker editor.pastes.entries) text)) =
      fill editor.pastes.entries (tokens (storedMarker editor.pastes.entries) text) := by
  induction rest generalizing done with
  | nil => rw [List.foldl_nil, hentries, List.append_nil]
  | cons paste rest ih =>
    have hnew : paste.1 ∉ done.map Prod.fst := by
      have hnodup := editor.pastes.nodup_keys
      rw [hentries, List.map_append, List.map_cons] at hnodup
      intro hmem
      exact List.disjoint_of_nodup_append hnodup hmem List.mem_cons_self
    rw [List.foldl_cons, (h done paste rest hentries).replaceAll paste.2 hnew]
    refine ih ?_
    rw [hentries, List.append_cons]

theorem expandPasteMarkers_eq_expanded (h : editor.Quiet text) :
    editor.expandPasteMarkers text = editor.expanded text := by
  have hpasses := foldl_fill h (List.nil_append editor.pastes.entries).symm
  rw [fill_nil] at hpasses
  exact hpasses

end Editor

/-! ## Plain texts -/

/-- The unit that starts a marker. -/
def bracket : CodeUnit := 0x5b

theorem markerFinder_cons {unit : CodeUnit} (h : unit ≠ bracket) (rest : Text) :
    markerFinder pasteId (unit :: rest) = none := by
  rcases hfind : markerFinder pasteId (unit :: rest) with _ | ⟨marker, back⟩
  · rfl
  · obtain ⟨⟨tail, -, rfl⟩, hcut⟩ := markerFinder_eq_some_iff.mp hfind
    exact absurd (List.cons.inj hcut).1 h

/-- Nothing is found in a text without the unit that starts a marker. -/
theorem tokens_append_of_no_bracket {pasteId : Nat} {front : Text} (h : bracket ∉ front) (rest : Text) :
    tokens (markerFinder pasteId) (front ++ rest) =
      front.map Token.unit ++ tokens (markerFinder pasteId) rest := by
  induction front with
  | nil => rfl
  | cons unit front ih =>
    have hunit : unit ≠ bracket := fun heq => h (heq ▸ List.mem_cons_self)
    have hfront := ih fun hmem => h (List.mem_cons_of_mem _ hmem)
    simp only [tokens, List.cons_append, Scan.tokensFrom, markerFinder_cons hunit, List.map_cons] at hfront ⊢
    rw [hfront]

theorem decimal_digits (n : Nat) : Digits (decimal n) where
  nonempty := by
    rw [decimal, Ne, List.map_eq_nil_iff]
    exact Nat.toDigits_ne_nil
  all := by
    intro unit hunit
    obtain ⟨c, hc, rfl⟩ := List.mem_map.mp hunit
    have hdigit := Nat.isDigit_of_mem_toDigits (by omega) (by omega) hc
    simp only [Char.isDigit, Bool.and_eq_true, decide_eq_true_eq] at hdigit
    obtain ⟨hlow, hhigh⟩ := hdigit
    rw [isDigit, Bool.and_eq_true, decide_eq_true_eq, decide_eq_true_eq]
    exact ⟨hlow, hhigh⟩

theorem decimal_injective : Function.Injective decimal := by
  intro m n h
  have hchars := List.map_injective_iff.mpr (fun _ _ => Char.toNat_inj.mp) h
  rw [← Nat.ofDigitChars_ten_toDigits (n := m), hchars, Nat.ofDigitChars_ten_toDigits]

theorem Digits.bracket_notMem {digits : Text} (h : Digits digits) : bracket ∉ digits := fun hmem =>
  absurd (h.all _ hmem) (by decide)

theorem MarkerTail.bracket_notMem {tail : Text} (h : MarkerTail tail) : bracket ∉ tail := by
  cases h with
  | plain => decide
  | lines h => simpa [ascii, bracket] using h.bracket_notMem
  | chars h => simpa [ascii, bracket] using h.bracket_notMem

theorem MarkerTail.readNumber {tail digits : Text} (h : MarkerTail tail) (hdigits : Digits digits) (rest : Text) :
    readNumber (digits ++ (tail ++ rest)) = some (digits, tail ++ rest) := by
  refine readNumber_append hdigits ?_
  cases h <;> simp [ascii, isDigit]

theorem tokens_marker_append (h : IsMarker pasteId marker) (rest : Text) :
    tokens (markerFinder pasteId) (marker ++ rest) = .found marker :: tokens (markerFinder pasteId) rest := by
  have hfind := (@markerFinder_eq_some_iff _ _ _ rest).mpr ⟨h, rfl⟩
  obtain ⟨unit, front, hcons⟩ := List.exists_cons_of_ne_nil h.ne_nil
  rw [hcons, List.cons_append] at hfind
  rw [hcons, List.cons_append, tokens, Scan.tokensFrom, hfind]
  simp only [List.length_append, Nat.add_sub_cancel]
  rw [Scan.tokensFrom_append]

/-- The marker of another paste is passed over. -/
theorem tokens_other_append {other : Nat} (hother : other ≠ pasteId) (h : IsMarker other marker)
    (rest : Text) :
    tokens (markerFinder pasteId) (marker ++ rest) =
      marker.map Token.unit ++ tokens (markerFinder pasteId) rest := by
  obtain ⟨tail, htail, rfl⟩ := h
  have hnone : markerFinder pasteId (ascii "[paste #" ++ decimal other ++ tail ++ rest) = none := by
    rcases hfind : markerFinder pasteId _ with _ | ⟨marker, back⟩
    · rfl
    · obtain ⟨⟨tail', htail', rfl⟩, hcut⟩ := markerFinder_eq_some_iff.mp hfind
      simp only [List.append_assoc] at hcut
      have hnumbers := List.append_cancel_left hcut
      have hread := htail.readNumber (decimal_digits other) rest
      rw [hnumbers, htail'.readNumber (decimal_digits pasteId) back] at hread
      have hdecimal := (Prod.mk.inj (Option.some.inj hread)).1
      exact absurd (decimal_injective hdecimal).symm hother
  have hinner : bracket ∉ (ascii "paste #" ++ decimal other ++ tail) := by
    simpa [ascii, bracket] using And.intro (decimal_digits other).bracket_notMem htail.bracket_notMem
  have htokens := @tokens_append_of_no_bracket pasteId _ hinner rest
  have hcons : ascii "[paste #" ++ decimal other ++ tail ++ rest =
      bracket :: (ascii "paste #" ++ decimal other ++ tail ++ rest) := rfl
  rw [hcons] at hnone ⊢
  rw [tokens, Scan.tokensFrom, hnone]
  simp only [tokens] at htokens ⊢
  rw [htokens]
  rfl

/-- No content has an opening bracket, and in the text only markers of stored pastes start with one. -/
structure Plain (pastes : List (Nat × Text)) (text : Text) : Prop where
  contents : ∀ paste ∈ pastes, bracket ∉ paste.2
  text : Token.unit bracket ∉ tokens (storedMarker pastes) text

theorem isMarker_of_mem_tokens {pastes : List (Nat × Text)} {text : Text} {mark : Mark}
    (h : Token.found mark ∈ tokens (storedMarker pastes) text) : IsMarker mark.1 mark.2 := by
  obtain ⟨text', rest, hfind⟩ := Scan.exists_find_of_mem_tokensFrom h
  exact (storedMarker_eq_some hfind).2.1

theorem quietPass_of_no_bracket {read : List (Token CodeUnit Mark)}
    (hnew : pasteId ∉ done.map Prod.fst) (hdone : ∀ paste ∈ done, bracket ∉ paste.2)
    (hunits : Token.unit bracket ∉ read)
    (hmarks : ∀ mark, Token.found mark ∈ read → IsMarker mark.1 mark.2) :
    QuietPass read done pasteId := by
  induction read with
  | nil => rfl
  | cons token read ih =>
    have ih := ih (fun hmem => hunits (List.mem_cons_of_mem _ hmem))
      fun mark hmem => hmarks mark (List.mem_cons_of_mem _ hmem)
    rw [QuietPass] at ih ⊢
    rw [fill, List.flatMap_cons, List.flatMap_cons, ← ih, ← fill]
    cases token with
    | unit unit =>
      have hunit : bracket ∉ [unit] := by
        intro hmem
        rw [← List.mem_singleton.mp hmem] at hunits
        exact hunits List.mem_cons_self
      exact tokens_append_of_no_bracket hunit _
    | found mark =>
      have hmark := hmarks mark List.mem_cons_self
      rw [Token.text_found, passToken]
      rcases hlookup : done.lookup mark.1 with _ | content
      · have hwritten : written done mark = mark.2 := by rw [written, hlookup, Option.getD_none]
        rw [hwritten]
        by_cases hid : mark.1 = pasteId
        · rw [if_pos hid]
          exact tokens_marker_append (hid ▸ hmark) _
        · rw [if_neg hid]
          exact tokens_other_append hid hmark _
      · -- a content that was put in has no bracket
        have hmem : (mark.1, content) ∈ done := List.lookup_eq_some_iff.mp hlookup |> fun ⟨l, r, heq, _⟩ => by simp [heq]
        have hwritten : written done mark = content := by rw [written, hlookup, Option.getD_some]
        have hid : mark.1 ≠ pasteId := by
          rintro rfl
          exact hnew (List.mem_map.mpr ⟨_, hmem, rfl⟩)
        rw [hwritten, if_neg hid]
        exact tokens_append_of_no_bracket (hdone _ hmem) _

namespace Editor

variable {editor : Editor} {text : Text}

theorem quiet_of_plain (h : Plain editor.pastes.entries text) : editor.Quiet text := by
  intro done paste rest hentries
  have hnodup := editor.pastes.nodup_keys
  rw [hentries, List.map_append, List.map_cons] at hnodup
  refine quietPass_of_no_bracket ?_ ?_ h.text fun mark => isMarker_of_mem_tokens
  · intro hmem
    exact List.disjoint_of_nodup_append hnodup hmem List.mem_cons_self
  · intro other hother
    exact h.contents other (hentries ▸ List.mem_append_left _ hother)

/-- The submitted text is the text of the editor with the markers of stored pastes replaced all at once by their
contents, when no pass over the text finds anything but the text's own markers. -/
theorem submittedText_eq_expanded (h : editor.Quiet editor.state.getText) :
    editor.submittedText = editor.expanded editor.state.getText :=
  expandPasteMarkers_eq_expanded h

/-- Eleven lines. -/
def elevenLines (first : Text) : Text := first ++ List.replicate 10 newline

/-- One paste of eleven lines. -/
def onePaste : Editor := initial.handlePaste (elevenLines (ascii "a"))

theorem onePaste_quiet : onePaste.Quiet onePaste.state.getText := by
  refine quiet_of_plain ⟨?_, ?_⟩
  · decide
  · decide

theorem submittedText_onePaste :
    onePaste.Quiet onePaste.state.getText ∧
      onePaste.submittedText = onePaste.expanded onePaste.state.getText :=
  ⟨onePaste_quiet, submittedText_eq_expanded onePaste_quiet⟩

/-- The first paste has the marker that the second will get. -/
def twoPastes : Editor :=
  (initial.handlePaste (elevenLines (ascii "[paste #2 +11 lines]"))).handlePaste (elevenLines (ascii "a"))

/-- The marker in the first paste is expanded too. -/
theorem twoPastes_expanded_again :
    twoPastes.state.getText = ascii "[paste #1 +11 lines][paste #2 +11 lines]" ∧
      twoPastes.expanded twoPastes.state.getText =
        elevenLines (ascii "[paste #2 +11 lines]") ++ elevenLines (ascii "a") ∧
      twoPastes.submittedText = elevenLines (elevenLines (ascii "a")) ++ elevenLines (ascii "a") ∧
      twoPastes.submittedText ≠ twoPastes.expanded twoPastes.state.getText := by
  decide

end Editor

end Tui.Components
