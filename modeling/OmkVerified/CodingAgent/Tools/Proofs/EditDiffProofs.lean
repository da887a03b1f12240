import OmkVerified.CodingAgent.Tools.EditDiff
import OmkVerified.Lib.Lines
import OmkVerified.Lib.Text

/-!
# The places that edits are matched at

What a successful run of `applyEditsToNormalizedContent` says about each edit, and when the counted
occurrences are all that there are.
-/

namespace CodingAgent.EditDiff

open Lib

variable {unicode : Unicode}

/-! ## The loop over the edits -/

/-- An edit was located at the number `i`, and its text was counted at most once. -/
structure Located (unicode : Unicode) (baseContent : Text) (edit : Edit) (matched : MatchedEdit) :
    Prop where
  found : ∃ usedFuzzyMatch,
    fuzzyFindText unicode baseContent edit.oldText = some ⟨matched.span, usedFuzzyMatch⟩
  counted : countOccurrences unicode baseContent edit.oldText ≤ 1
  newText_eq : matched.newText = edit.newText

theorem matchEdits_located {baseContent : Text} {totalEdits i : Nat} {edits : List Edit}
    {matched : List MatchedEdit}
    (h : matchEdits unicode baseContent totalEdits i edits = .ok matched) :
    List.Forall₂ (Located unicode baseContent) edits matched := by
  induction edits generalizing i matched with
  | nil =>
    cases h
    exact .nil
  | cons edit rest ih =>
    rw [matchEdits] at h
    cases hfound : fuzzyFindText unicode baseContent edit.oldText with
    | none => simp [hfound] at h
    | some matchResult =>
      rw [hfound] at h
      dsimp only at h
      split_ifs at h with hmany
      cases hrest : matchEdits unicode baseContent totalEdits (i + 1) rest with
      | error error => simp [hrest] at h
      | ok more =>
        rw [hrest] at h
        cases h
        exact .cons ⟨⟨matchResult.usedFuzzyMatch, hfound⟩, Int.not_lt.mp hmany, rfl⟩ (ih hrest)

theorem exists_right {α β : Type} {R : α → β → Prop} {as : List α} {bs : List β}
    (h : List.Forall₂ R as bs) {a : α} (ha : a ∈ as) : ∃ b ∈ bs, R a b := by
  induction h with
  | nil => exact absurd ha List.not_mem_nil
  | cons hfirst _ ih =>
    rcases List.mem_cons.mp ha with rfl | ha
    · exact ⟨_, List.mem_cons_self, hfirst⟩
    · obtain ⟨b, hb, hab⟩ := ih ha
      exact ⟨b, List.mem_cons_of_mem _ hb, hab⟩

theorem exists_left {α β : Type} {R : α → β → Prop} {as : List α} {bs : List β}
    (h : List.Forall₂ R as bs) {b : β} (hb : b ∈ bs) : ∃ a ∈ as, R a b :=
  exists_right (List.Forall₂.flip (show List.Forall₂ (flip (flip R)) as bs from h)) hb

/-- A run that succeeds: the located edits, and the content that they give. -/
theorem applyEdits_ok {baseContent newContent : Text} {edits : List Edit}
    (h : applyEditsToNormalizedContent unicode baseContent edits = .ok newContent) :
    ∃ matched, matchEdits unicode baseContent edits.length 0 (edits.map normalizeEdit) = .ok matched ∧
      (∀ edit ∈ edits.map normalizeEdit, edit.oldText ≠ []) ∧ findOverlap (sortEdits matched) = none ∧
      newContent = (sortEdits matched).reverse.foldl replaceSpan baseContent := by
  unfold applyEditsToNormalizedContent at h
  dsimp only at h
  rw [List.length_map] at h
  cases hempty : (edits.map normalizeEdit).findIdx? fun edit => edit.oldText.length = 0 with
  | some i => simp only [hempty, reduceCtorEq] at h
  | none =>
    simp only [hempty] at h
    cases hmatched : matchEdits unicode baseContent edits.length 0 (edits.map normalizeEdit) with
    | error error => simp [hmatched] at h
    | ok matched =>
      simp only [hmatched] at h
      cases hoverlap : findOverlap (sortEdits matched) with
      | some pair => simp [hoverlap] at h
      | none =>
        simp only [hoverlap] at h
        split_ifs at h with hsame
        refine ⟨matched, rfl, ?_, hoverlap, (Except.ok.inj h).symm⟩
        intro edit hedit hnil
        have hnone := List.findIdx?_eq_none_iff.mp hempty edit hedit
        simp [hnil] at hnone

/-! ## Counted occurrences -/

/-- A text stands in a content, not with no units in one that has some, and never across an occurrence
of itself. -/
structure Unentangled (piece text : Text) : Prop where
  isInfix : piece <:+: text
  not_empty : piece = [] → text = []
  apart : ∀ p q, OccursAt piece text p → OccursAt piece text q → p < q → p + piece.length ≤ q

theorem existsUnique_iff_of_splitLength {piece text : Text} (h : splitLength text piece ≤ 2) :
    (∃! p, p ≤ text.length ∧ OccursAt piece text p) ↔ Unentangled piece text := by
  unfold splitLength at h
  by_cases hempty : piece = []
  · subst hempty
    have hall : ∀ p, OccursAt [] text p := fun p => List.nil_prefix
    constructor
    · rintro ⟨p, -, hunique⟩
      have hzero := hunique 0 ⟨Nat.zero_le _, hall 0⟩
      have hend := hunique text.length ⟨le_rfl, hall _⟩
      exact ⟨List.nil_infix, fun _ => List.eq_nil_of_length_eq_zero (hend.trans hzero.symm),
        fun p q _ _ hlt => hlt.le⟩
    · intro hone
      refine ⟨0, ⟨Nat.zero_le _, hall 0⟩, ?_⟩
      rintro q ⟨hq, -⟩
      rw [hone.not_empty rfl] at hq
      exact Nat.le_zero.mp hq
  · rw [if_neg hempty] at h
    constructor
    · rintro ⟨p, ⟨-, hp⟩, hunique⟩
      refine ⟨hp.isInfix, fun hnil => absurd hnil hempty, ?_⟩
      have hbound : ∀ k, OccursAt piece text k → k ≤ text.length := by
        rintro k ⟨rest, hrest⟩
        by_contra hlong
        rw [List.drop_eq_nil_of_le (by omega)] at hrest
        exact hempty (List.append_eq_nil_iff.mp hrest).1
      intro k l hk hl hlt
      have := hunique k ⟨hbound k hk, hk⟩
      have := hunique l ⟨hbound l hl, hl⟩
      omega
    · intro hone
      have hpos : countFrom piece (text.length + 1) text ≠ 0 :=
        fun hzero => (countFrom_eq_zero_iff (Nat.succ_pos _)).mp hzero hone.isInfix
      have hcount : countFrom piece (text.length + 1) text = 1 := by omega
      obtain ⟨p, hp, hnear⟩ := (countFrom_eq_one_iff hempty (Nat.lt_succ_self _)).mp hcount
      have hp' : p ≤ text.length := by
        by_contra hlong
        obtain ⟨rest, hrest⟩ := hp
        rw [List.drop_eq_nil_of_le (by omega)] at hrest
        exact hempty (List.append_eq_nil_iff.mp hrest).1
      refine ⟨p, ⟨hp', hp⟩, ?_⟩
      rintro q ⟨-, hq⟩
      obtain ⟨hle, hlt⟩ := hnear q hq
      by_contra hne
      have := hone.apart p q hp hq (by omega)
      omega

/-- The text that an edit is searched as. -/
def searchText (unicode : Unicode) (edit : Edit) : Text :=
  normalizeForFuzzyMatch unicode (normalizeToLF edit.oldText)

/-- When the edits of a successful run name one place each. -/
theorem edits_one_place_iff {baseContent newContent : Text} {edits : List Edit}
    (h : applyEditsToNormalizedContent unicode baseContent edits = .ok newContent) :
    (∀ edit ∈ edits, ∃! p, p ≤ (normalizeForFuzzyMatch unicode baseContent).length ∧
      OccursAt (searchText unicode edit) (normalizeForFuzzyMatch unicode baseContent) p) ↔
    ∀ edit ∈ edits,
      Unentangled (searchText unicode edit) (normalizeForFuzzyMatch unicode baseContent) := by
  obtain ⟨matched, hmatched, -, -, -⟩ := applyEdits_ok h
  have hcounted : ∀ edit ∈ edits, splitLength (normalizeForFuzzyMatch unicode baseContent)
      (searchText unicode edit) ≤ 2 := by
    intro edit hedit
    obtain ⟨located, -, hlocated⟩ :=
      exists_right (matchEdits_located hmatched) (List.mem_map_of_mem hedit)
    have hcount : (splitLength (normalizeForFuzzyMatch unicode baseContent)
        (searchText unicode edit) : Int) - 1 ≤ 1 := hlocated.counted
    omega
  exact forall₂_congr fun edit hedit => existsUnique_iff_of_splitLength (hcounted edit hedit)

/-- Unicode among texts without combining marks that NFKC leaves as they are. -/
def plain : Unicode := ⟨id, fun _ => false⟩

def units (text : String) : Text := utf16 text.toList

theorem edit_one_place : applyEditsToNormalizedContent plain (units "ab")
      [⟨units "a", units "c"⟩] = .ok (units "cb") ∧
    ((∀ edit ∈ [(⟨units "a", units "c"⟩ : Edit)], ∃! p,
      p ≤ (normalizeForFuzzyMatch plain (units "ab")).length ∧
        OccursAt (searchText plain edit) (normalizeForFuzzyMatch plain (units "ab")) p) ↔
      ∀ edit ∈ [(⟨units "a", units "c"⟩ : Edit)],
        Unentangled (searchText plain edit) (normalizeForFuzzyMatch plain (units "ab"))) :=
  ⟨by decide +kernel, edits_one_place_iff (by decide +kernel : applyEditsToNormalizedContent plain
    (units "ab") [⟨units "a", units "c"⟩] = .ok (units "cb"))⟩

/-- `aa` stands at two places of `aaa`, and is replaced at the first. -/
theorem overlapping_places_accepted :
    applyEditsToNormalizedContent plain (units "aaa") [⟨units "aa", units "b"⟩] = .ok (units "ba") ∧
      ¬ ∃! p, p ≤ (normalizeForFuzzyMatch plain (units "aaa")).length ∧
        OccursAt (searchText plain ⟨units "aa", units "b"⟩)
          (normalizeForFuzzyMatch plain (units "aaa")) p := by
  refine ⟨by decide +kernel, ?_⟩
  rintro ⟨p, -, hunique⟩
  have hzero : (0 : Nat) = p := hunique 0 ⟨Nat.zero_le _, by unfold OccursAt; decide +kernel⟩
  have hone : (1 : Nat) = p := hunique 1 ⟨by decide +kernel, by unfold OccursAt; decide +kernel⟩
  omega

end CodingAgent.EditDiff

/-!
# The map of a normalized content

The normalization of a text and the map that is built from its chunks strip and fold in the same way. What
the map has of some neighbouring chunks is a part of it, and their own normalization only loses white space
at its end.
-/

namespace CodingAgent.EditDiff

open Lib Lib.TrailingSpace

/-! ## Folding -/

theorem isSpace_foldFuzzyChar (unit : Nat) : isSpace (foldFuzzyChar unit) = isSpace unit := by
  unfold foldFuzzyChar
  split_ifs with hsingle hdouble hdash hspace
  · simp only [isSmartSingleQuote, Bool.and_eq_true, decide_eq_true_eq] at hsingle
    obtain ⟨hlow, hhigh⟩ := hsingle
    interval_cases unit <;> decide
  · simp only [isSmartDoubleQuote, Bool.and_eq_true, decide_eq_true_eq] at hdouble
    obtain ⟨hlow, hhigh⟩ := hdouble
    interval_cases unit <;> decide
  · simp only [isUnicodeDash, Bool.or_eq_true, Bool.and_eq_true, decide_eq_true_eq] at hdash
    rcases hdash with ⟨hlow, hhigh⟩ | rfl
    · interval_cases unit <;> decide
    · decide
  · simp only [isUnicodeSpace, Bool.or_eq_true, Bool.and_eq_true, decide_eq_true_eq] at hspace
    rcases hspace with (((rfl | ⟨hlow, hhigh⟩) | rfl) | rfl) | rfl
    · decide
    · interval_cases unit <;> decide
    all_goals decide
  · rfl

theorem foldFuzzyChar_eq_lineFeed (unit : Nat) : foldFuzzyChar unit = lineFeed ↔ unit = lineFeed := by
  constructor
  · intro h
    unfold foldFuzzyChar at h
    split_ifs at h
    all_goals first | exact h | exact absurd h (by decide)
  · rintro rfl
    decide

/-- The replacements of the normalization, one after the other, fold each code unit. -/
theorem replaceUnits_eq_map (text : Text) :
    replaceUnits isUnicodeSpace 0x20 (replaceUnits isUnicodeDash 0x2d
      (replaceUnits isSmartDoubleQuote 0x22 (replaceUnits isSmartSingleQuote 0x27 text))) =
      text.map foldFuzzyChar := by
  unfold replaceUnits
  rw [List.map_map, List.map_map, List.map_map]
  refine List.map_congr_left fun unit _ => ?_
  have hquote : isSmartDoubleQuote 0x27 = false ∧ isUnicodeDash 0x27 = false ∧
      isUnicodeSpace 0x27 = false := by decide
  have hdouble : isUnicodeDash 0x22 = false ∧ isUnicodeSpace 0x22 = false := by decide
  have hdash : isUnicodeSpace 0x2d = false := by decide
  unfold foldFuzzyChar
  cases h₁ : isSmartSingleQuote unit <;> cases h₂ : isSmartDoubleQuote unit <;>
    cases h₃ : isUnicodeDash unit <;> cases h₄ : isUnicodeSpace unit <;>
    simp [h₁, h₂, h₃, h₄, hquote, hdouble, hdash]

/-! ## Stripping -/

def isBreak (unit : Nat) : Bool := unit = lineFeed

/-- White space inside of a line. -/
def isBlank (unit : Nat) : Bool := isSpace unit && unit ≠ lineFeed

theorem isBlank_lineFeed : isBlank lineFeed = false := by decide

theorem isBlank_foldFuzzyChar (unit : Nat) : isBlank (foldFuzzyChar unit) = isBlank unit := by
  rw [isBlank, isBlank, isSpace_foldFuzzyChar]
  simp only [ne_eq, foldFuzzyChar_eq_lineFeed]

/-- A text without the white space that ends its lines. -/
def strip (text : Text) : Text := kept isBreak isBlank [] text

theorem isBreak_eq_false {unit : Nat} {line : Text} (hline : lineFeed ∉ line) (hunit : unit ∈ line) :
    isBreak unit = false :=
  decide_eq_false fun heq => hline (heq ▸ hunit)

theorem rdropWhile_congr {α : Type} {p q : α → Bool} {l : List α} (h : ∀ a ∈ l, p a = q a) :
    l.rdropWhile p = l.rdropWhile q := by
  induction l using List.reverseRecOn with
  | nil => rw [List.rdropWhile_nil, List.rdropWhile_nil]
  | append_singleton l a ih =>
    rw [List.rdropWhile_concat, List.rdropWhile_concat, h a (by simp),
      ih fun b hb => h b (by simp [hb])]

theorem trimEnd_eq {line : Text} (hline : lineFeed ∉ line) : trimEnd line = line.rdropWhile isBlank :=
  rdropWhile_congr fun unit hunit => by
    have hne : unit ≠ lineFeed := fun heq => hline (heq ▸ hunit)
    simp [isBlank, hne]

/-- Splitting at line feeds, trimming each line and joining the lines again. -/
theorem intercalate_trimEnd {lines : List Text} (hne : lines ≠ [])
    (hlines : ∀ line ∈ lines, lineFeed ∉ line) :
    [lineFeed].intercalate (lines.map trimEnd) = strip ([lineFeed].intercalate lines) := by
  induction lines with
  | nil => exact absurd rfl hne
  | cons line lines ih =>
    have hline := hlines line List.mem_cons_self
    have hbreaks : ∀ unit ∈ line, isBreak unit = false := fun unit => isBreak_eq_false hline
    cases lines with
    | nil =>
      rw [List.map_cons, List.map_nil, List.intercalate_singleton, List.intercalate_singleton,
        trimEnd_eq hline, strip, kept_line rfl hbreaks]
    | cons next lines =>
      have hrest := ih (List.cons_ne_nil _ _) fun l hl => hlines l (List.mem_cons_of_mem _ hl)
      rw [List.map_cons] at hrest
      rw [List.map_cons, List.map_cons, List.intercalate_cons_cons, hrest,
        List.intercalate_cons_cons, List.append_assoc, List.append_assoc, List.singleton_append,
        List.singleton_append, strip, strip, kept_line_break (by decide) isBlank_lineFeed hbreaks,
        trimEnd_eq hline]

theorem normalizeForFuzzyMatch_eq (unicode : Unicode) (text : Text) :
    normalizeForFuzzyMatch unicode text = (strip (unicode.nfkc text)).map foldFuzzyChar := by
  unfold normalizeForFuzzyMatch
  dsimp only
  rw [replaceUnits_eq_map, intercalate_trimEnd (List.splitOn_ne_nil _ _)
    (fun line hline => Lines.notMem_of_mem_splitOn hline), List.intercalate_splitOn]

/-- The mapped units that stay. -/
def stripMapped (rest units : List MappedUnit) : List MappedUnit :=
  kept (fun u => isBreak u.unit) (fun u => isBlank u.unit) rest units

def foldMapped (u : MappedUnit) : MappedUnit := { u with unit := foldFuzzyChar u.unit }

theorem stripMapped_units (units : List MappedUnit) :
    (stripMapped [] units).map (·.unit) = strip (units.map (·.unit)) :=
  (kept_map (fun _ => rfl) (fun _ => rfl) units).symm

theorem mapLines_eq (line units : List MappedUnit) (hline : ∀ u ∈ line, u.unit ≠ lineFeed) :
    mapLines line units = (stripMapped [] (line ++ units)).map foldMapped := by
  have hbreaks : ∀ line : List MappedUnit, (∀ u ∈ line, u.unit ≠ lineFeed) →
      ∀ u ∈ line, isBreak u.unit = false :=
    fun _ h u hu => decide_eq_false (h u hu)
  have hkeep : ∀ line : List MappedUnit, (∀ u ∈ line, u.unit ≠ lineFeed) →
      keepLine line = (line.rdropWhile fun u => isBlank u.unit).map foldMapped := by
    intro line h
    unfold keepLine
    rw [rdropWhile_congr fun u hu => show isSpace u.unit = isBlank u.unit by simp [isBlank, h u hu]]
    rfl
  induction units generalizing line with
  | nil =>
    rw [mapLines, hkeep line hline, List.append_nil, stripMapped, kept_line rfl (hbreaks line hline)]
  | cons u units ih =>
    rw [mapLines]
    split_ifs with hu
    · have hfold : foldMapped u = u := by
        obtain ⟨unit, startOffset, endOffset⟩ := u
        obtain rfl : unit = lineFeed := hu
        rfl
      rw [ih [] (by simp), hkeep line hline, stripMapped, stripMapped, List.nil_append,
        kept_line_break (by simp [isBreak, hu]) (by rw [hu]; exact isBlank_lineFeed)
          (hbreaks line hline), List.map_append, List.map_cons, hfold]
    · rw [ih (line ++ [u]), List.append_assoc, List.singleton_append]
      intro v hv
      rcases List.mem_append.mp hv with hv | hv
      · exact hline v hv
      · rw [List.mem_singleton.mp hv]
        exact hu

theorem buildNormalizedContentMap_units (unicode : Unicode) (text : Text) :
    (buildNormalizedContentMap unicode text).units =
      (stripMapped [] (mapChunks unicode 0 (chunks unicode text))).map foldMapped :=
  mapLines_eq [] _ (by simp)

/-! ## Chunks -/

theorem codePoints_flatten (text : Text) : (codePoints text).flatten = text := by
  fun_induction codePoints text with
  | case1 high low rest _ ih => simp [ih]
  | case2 high low rest _ ih => simp [ih]
  | case3 unit => rfl
  | case4 => rfl

theorem ne_nil_of_mem_codePoints {text units : Text} (h : units ∈ codePoints text) : units ≠ [] := by
  fun_induction codePoints text with
  | case1 high low rest _ ih =>
    rcases List.mem_cons.mp h with rfl | h
    · exact List.cons_ne_nil _ _
    · exact ih h
  | case2 high low rest _ ih =>
    rcases List.mem_cons.mp h with rfl | h
    · exact List.cons_ne_nil _ _
    · exact ih h
  | case3 unit =>
    rw [List.mem_singleton.mp h]
    exact List.cons_ne_nil _ _
  | case4 => exact absurd h List.not_mem_nil

variable {i : Nat} {cs : List Text} {u : MappedUnit}

section Chunks

variable {unicode : Unicode}

theorem chunksFrom_flatten (chunk : Text) (previousCodePoint : Nat) (rest : List Text) :
    (chunksFrom unicode chunk previousCodePoint rest).flatten = chunk ++ rest.flatten := by
  fun_induction chunksFrom unicode chunk previousCodePoint rest with
  | case1 chunk => simp
  | case2 chunk _ units rest _ _ ih => simp [ih]
  | case3 chunk _ units rest _ _ ih => simp [ih]

theorem ne_nil_of_mem_chunksFrom {chunk c : Text} {previousCodePoint : Nat} {rest : List Text}
    (hchunk : chunk ≠ []) (hrest : ∀ units ∈ rest, units ≠ [])
    (h : c ∈ chunksFrom unicode chunk previousCodePoint rest) : c ≠ [] := by
  fun_induction chunksFrom unicode chunk previousCodePoint rest with
  | case1 chunk =>
    rw [List.mem_singleton.mp h]
    exact hchunk
  | case2 chunk _ units rest _ _ ih =>
    exact ih (by simp [hchunk]) (fun u hu => hrest u (List.mem_cons_of_mem _ hu)) h
  | case3 chunk _ units rest _ _ ih =>
    rcases List.mem_cons.mp h with rfl | h
    · exact hchunk
    · exact ih (hrest units List.mem_cons_self) (fun u hu => hrest u (List.mem_cons_of_mem _ hu)) h

theorem chunks_flatten (text : Text) : (chunks unicode text).flatten = text := by
  have hflatten := codePoints_flatten text
  unfold chunks
  cases hpoints : codePoints text with
  | nil =>
    rw [hpoints] at hflatten
    exact hflatten
  | cons units rest =>
    rw [hpoints, List.flatten_cons] at hflatten
    exact (chunksFrom_flatten units _ rest).trans hflatten

theorem ne_nil_of_mem_chunks {text chunk : Text} (h : chunk ∈ chunks unicode text) : chunk ≠ [] := by
  have hne : ∀ units ∈ codePoints text, units ≠ [] := fun _ => ne_nil_of_mem_codePoints
  unfold chunks at h
  cases hpoints : codePoints text with
  | nil =>
    rw [hpoints] at h
    exact absurd h List.not_mem_nil
  | cons units rest =>
    rw [hpoints] at h hne
    exact ne_nil_of_mem_chunksFrom (hne units List.mem_cons_self)
      (fun u hu => hne u (List.mem_cons_of_mem _ hu)) h

theorem mapChunks_append (i : Nat) (a b : List Text) :
    mapChunks unicode i (a ++ b) =
      mapChunks unicode i a ++ mapChunks unicode (i + a.flatten.length) b := by
  induction a generalizing i with
  | nil => rfl
  | cons chunk a ih =>
    rw [List.cons_append, mapChunks, mapChunks, ih, List.append_assoc, List.flatten_cons,
      List.length_append, Nat.add_assoc]

theorem mapChunks_units (i : Nat) (cs : List Text) :
    (mapChunks unicode i cs).map (·.unit) = cs.flatMap unicode.nfkc := by
  induction cs generalizing i with
  | nil => rfl
  | cons chunk cs ih =>
    rw [mapChunks, List.map_append, ih, List.map_map, List.flatMap_cons]
    exact congrArg (· ++ _) (List.map_id' _)

/-- The chunk that a mapped unit comes from. -/
theorem exists_chunk (h : u ∈ mapChunks unicode i cs) :
    ∃ before chunk after, cs = before ++ chunk :: after ∧
      u.startOffset = i + before.flatten.length ∧ u.endOffset = u.startOffset + chunk.length := by
  induction cs generalizing i with
  | nil => exact absurd h List.not_mem_nil
  | cons chunk cs ih =>
    rcases List.mem_append.mp h with h | h
    · obtain ⟨unit, -, rfl⟩ := List.mem_map.mp h
      exact ⟨[], chunk, cs, rfl, rfl, rfl⟩
    · obtain ⟨before, c, after, rfl, hstart, hend⟩ := ih h
      refine ⟨chunk :: before, c, after, rfl, ?_, hend⟩
      rw [hstart, List.flatten_cons, List.length_append, Nat.add_assoc]

theorem startOffset_ge (h : u ∈ mapChunks unicode i cs) : i ≤ u.startOffset := by
  obtain ⟨before, -, -, -, hstart, -⟩ := exists_chunk h
  omega

theorem endOffset_le (h : u ∈ mapChunks unicode i cs) : u.endOffset ≤ i + cs.flatten.length := by
  obtain ⟨before, chunk, after, rfl, hstart, hend⟩ := exists_chunk h
  rw [List.flatten_append, List.flatten_cons, List.length_append, List.length_append]
  omega

theorem startOffset_lt (hcs : ∀ c ∈ cs, c ≠ []) (h : u ∈ mapChunks unicode i cs) :
    u.startOffset < i + cs.flatten.length := by
  have hle := endOffset_le h
  obtain ⟨before, chunk, after, rfl, -, hend⟩ := exists_chunk h
  have hpos := List.length_pos_of_ne_nil (hcs chunk (by simp))
  omega

theorem mapChunks_sorted (i : Nat) (cs : List Text) :
    (mapChunks unicode i cs).Pairwise fun u v => u.startOffset ≤ v.startOffset := by
  induction cs generalizing i with
  | nil => exact List.Pairwise.nil
  | cons chunk cs ih =>
    refine List.pairwise_append.mpr ⟨?_, ih _, ?_⟩
    · rw [List.pairwise_map]
      exact List.pairwise_of_forall fun _ _ => le_rfl
    · intro u hu v hv
      obtain ⟨unit, -, rfl⟩ := List.mem_map.mp hu
      have hge := startOffset_ge hv
      dsimp only
      omega

end Chunks

end CodingAgent.EditDiff
