import OmkVerified.Lib.JsNumber

/-!
# Comparing texts without case
-/

namespace Lib

/-- A letter of `text.toLowerCase()`, as far as comparisons with ASCII texts can tell: among the
letters outside of ASCII only the Kelvin sign becomes one of ASCII. -/
def lowerLetter (c : Char) : Char := if c = '\u212a' then 'k' else c.toLower

/-- `text.toLowerCase()`. -/
def lowerCase (text : List Char) : List Char := text.map lowerLetter

/-- `/part/i.test(text)` for a part of lower case letters, where only ASCII letters lose their
case. -/
def matchesPart (part text : List Char) : Bool :=
  (text.map Char.toLower).tails.any part.isPrefixOf

end Lib

/-!
# What `trim` keeps

A text is blank space, its trimmed part and blank space; the trimmed part is the only one that neither
starts nor ends with white space.
-/

namespace Lib

/-- Only white space. -/
def IsBlank (text : List Char) : Prop := ∀ c ∈ text, isWhitespace c = true

/-- Neither the first nor the last character is white space. -/
def IsTrimmed (text : List Char) : Prop :=
  (∀ c ∈ text.head?, isWhitespace c = false) ∧ ∀ c ∈ text.getLast?, isWhitespace c = false

theorem IsBlank.nil : IsBlank [] := by
  intro c hc
  exact absurd hc List.not_mem_nil

theorem IsBlank.append {left right : List Char} (hleft : IsBlank left) (hright : IsBlank right) :
    IsBlank (left ++ right) := by
  intro c hc
  rcases List.mem_append.mp hc with hc | hc
  · exact hleft c hc
  · exact hright c hc

theorem dropWhile_blank {blank : List Char} (h : IsBlank blank) (text : List Char) :
    (blank ++ text).dropWhile isWhitespace = text.dropWhile isWhitespace := by
  induction blank with
  | nil => rfl
  | cons c blank ih =>
    have hc := h c List.mem_cons_self
    have hblank : IsBlank blank := fun d hd => h d (List.mem_cons_of_mem c hd)
    rw [List.cons_append, List.dropWhile_cons_of_pos hc, ih hblank]

theorem dropWhile_trimmed {text rest : List Char} (h : ∀ c ∈ text.head?, isWhitespace c = false)
    (hne : text ≠ []) : (text ++ rest).dropWhile isWhitespace = text ++ rest := by
  cases text with
  | nil => exact absurd rfl hne
  | cons c text =>
    have hc := h c rfl
    rw [List.cons_append, List.dropWhile_cons_of_neg (by simp [hc])]

theorem trim_of_blank {text : List Char} (h : IsBlank text) : trim text = [] := by
  have hdrop := dropWhile_blank h []
  rw [List.append_nil] at hdrop
  unfold trim
  rw [hdrop]
  rfl

theorem trim_between {lead text trail : List Char} (hlead : IsBlank lead) (htext : IsTrimmed text)
    (htrail : IsBlank trail) : trim (lead ++ text ++ trail) = text := by
  by_cases hne : text = []
  · subst hne
    rw [List.append_nil]
    exact trim_of_blank (hlead.append htrail)
  · have hreverse : IsBlank trail.reverse := fun c hc => htrail c (List.mem_reverse.mp hc)
    have hlast : ∀ c ∈ text.reverse.head?, isWhitespace c = false := by
      intro c hc
      rw [List.head?_reverse] at hc
      exact htext.2 c hc
    have hback : (text.reverse ++ []).dropWhile isWhitespace = text.reverse ++ [] :=
      dropWhile_trimmed hlast (by simpa using hne)
    rw [List.append_nil] at hback
    unfold trim
    rw [List.append_assoc, dropWhile_blank hlead, dropWhile_trimmed htext.1 hne, List.reverse_append,
      dropWhile_blank hreverse, hback, List.reverse_reverse]

theorem head?_dropWhile {text : List Char} :
    ∀ c ∈ (text.dropWhile isWhitespace).head?, isWhitespace c = false := by
  intro c hc
  have hnot := List.head?_dropWhile_not isWhitespace text
  rw [Option.mem_def.mp hc] at hnot
  simpa using hnot

theorem isBlank_takeWhile (text : List Char) : IsBlank (text.takeWhile isWhitespace) := by
  intro c hc
  exact List.mem_takeWhile_imp hc

theorem trim_decompose (text : List Char) :
    ∃ lead trail, IsBlank lead ∧ IsBlank trail ∧ IsTrimmed (trim text) ∧
      text = lead ++ trim text ++ trail := by
  have hfront := List.takeWhile_append_dropWhile (p := isWhitespace) (l := text)
  have hback := List.takeWhile_append_dropWhile (p := isWhitespace)
    (l := (text.dropWhile isWhitespace).reverse)
  have hsplit : text.dropWhile isWhitespace =
      trim text ++ ((text.dropWhile isWhitespace).reverse.takeWhile isWhitespace).reverse := by
    have hreversed := congrArg List.reverse hback
    rw [List.reverse_append, List.reverse_reverse] at hreversed
    exact hreversed.symm
  refine ⟨text.takeWhile isWhitespace,
    ((text.dropWhile isWhitespace).reverse.takeWhile isWhitespace).reverse, isBlank_takeWhile text,
    fun c hc => isBlank_takeWhile _ c (List.mem_reverse.mp hc), ⟨?_, ?_⟩, ?_⟩
  · intro c hc
    have hhead : c ∈ (text.dropWhile isWhitespace).head? := by
      rw [hsplit, List.head?_append]
      rw [Option.mem_def.mp hc]
      rfl
    exact head?_dropWhile c hhead
  · intro c hc
    unfold trim at hc
    rw [List.getLast?_reverse] at hc
    exact head?_dropWhile c hc
  · rw [List.append_assoc, ← hsplit]
    exact hfront.symm

@[simp]
theorem trim_trim (text : List Char) : trim (trim text) = trim text := by
  obtain ⟨-, -, -, -, htrimmed, -⟩ := trim_decompose text
  have hbetween := trim_between .nil htrimmed .nil
  rwa [List.nil_append, List.append_nil] at hbetween

theorem trim_ne_nil {text : List Char} {c : Char} (hmem : c ∈ text) (hc : isWhitespace c = false) :
    trim text ≠ [] := by
  intro hnil
  obtain ⟨lead, trail, hlead, htrail, -, hsplit⟩ := trim_decompose text
  rw [hnil, List.append_nil] at hsplit
  rw [hsplit] at hmem
  exact absurd (hlead.append htrail c hmem) (by simp [hc])

end Lib

/-!
# Trailing space of lines

A text without the blank elements that end its lines, in front of a rest that belongs to the same text. What
is kept of a text is told by its last line only from what follows.
-/

namespace Lib.TrailingSpace

variable {α β : Type*} (isBreak isBlank : α → Bool)

/-- The line ends here: nothing follows, or a line break. -/
def endsLine (rest : List α) : Bool := rest.head?.all isBreak

/-- What is kept of a text in front of `rest`. -/
def kept (rest : List α) : List α → List α
  | [] => []
  | a :: text =>
    if isBlank a && endsLine isBreak (kept rest text ++ rest) then kept rest text
    else a :: kept rest text

variable {isBreak isBlank} {rest text line : List α}

theorem kept_append (a b : List α) : kept isBreak isBlank rest (a ++ b) =
    kept isBreak isBlank (kept isBreak isBlank rest b ++ rest) a ++ kept isBreak isBlank rest b := by
  induction a with
  | nil => rfl
  | cons c a ih =>
    rw [List.cons_append, kept, kept, ih, List.append_assoc]
    split_ifs <;> rfl

theorem kept_sublist (text : List α) : (kept isBreak isBlank rest text).Sublist text := by
  induction text with
  | nil => exact List.Sublist.refl []
  | cons a text ih =>
    rw [kept]
    split_ifs
    · exact ih.cons a
    · exact ih.cons_cons a

/-- What is kept depends on what the predicates say only. -/
theorem kept_map {isBreak' isBlank' : β → Bool} {f : α → β} (hbreak : ∀ a, isBreak' (f a) = isBreak a)
    (hblank : ∀ a, isBlank' (f a) = isBlank a) (text : List α) :
    kept isBreak' isBlank' (rest.map f) (text.map f) = (kept isBreak isBlank rest text).map f := by
  induction text with
  | nil => rfl
  | cons a text ih =>
    have hends : endsLine isBreak' ((kept isBreak isBlank rest text).map f ++ rest.map f) =
        endsLine isBreak (kept isBreak isBlank rest text ++ rest) := by
      rw [← List.map_append, endsLine, endsLine, List.head?_map]
      cases (kept isBreak isBlank rest text ++ rest).head? with
      | none => rfl
      | some b => exact hbreak b
    rw [List.map_cons, kept, kept, ih, hblank, hends]
    split_ifs <;> rfl

theorem kept_congr {rest' : List α} (h : rest.head? = rest'.head?) (text : List α) :
    kept isBreak isBlank rest text = kept isBreak isBlank rest' text := by
  induction text with
  | nil => rfl
  | cons a text ih =>
    have hends : endsLine isBreak (kept isBreak isBlank rest text ++ rest) =
        endsLine isBreak (kept isBreak isBlank rest' text ++ rest') := by
      rw [endsLine, endsLine, List.head?_append, List.head?_append, ih, h]
    rw [kept, kept, hends, ih]

theorem kept_singleton (a : α) : kept isBreak isBlank rest [a] =
    if isBlank a && endsLine isBreak rest then [] else [a] := rfl

theorem kept_nil (rest text : List α) :
    kept isBreak isBlank [] text = (kept isBreak isBlank rest text).rdropWhile isBlank := by
  induction text using List.reverseRecOn generalizing rest with
  | nil => exact (List.rdropWhile_nil _).symm
  | append_singleton text a ih =>
    rw [kept_append, kept_append, kept_singleton, kept_singleton]
    by_cases hblank : isBlank a = true
    · rw [if_pos (by simp [hblank, endsLine]), List.nil_append, List.append_nil]
      split_ifs
      · rw [List.nil_append, List.append_nil]
        exact ih rest
      · rw [List.rdropWhile_concat_pos _ _ _ hblank]
        exact ih ([a] ++ rest)
    · rw [if_neg (by simp [hblank]), if_neg (by simp [hblank]), List.append_nil,
        List.rdropWhile_concat_neg _ _ _ hblank]
      have hcongr : kept isBreak isBlank [a] text = kept isBreak isBlank ([a] ++ rest) text :=
        kept_congr (by rfl) text
      rw [hcongr]

theorem rdropWhile_kept_nil (text : List α) :
    (kept isBreak isBlank [] text).rdropWhile isBlank = kept isBreak isBlank [] text :=
  (kept_nil [] text).symm

theorem rdropWhile_append {p : α → Bool} {front : List α} (hfront : front.rdropWhile p = front)
    (text : List α) : (front ++ text).rdropWhile p = front ++ text.rdropWhile p := by
  induction text using List.reverseRecOn with
  | nil => rw [List.append_nil, List.rdropWhile_nil, List.append_nil, hfront]
  | append_singleton text a ih =>
    rw [← List.append_assoc, List.rdropWhile_concat, List.rdropWhile_concat, ih]
    split_ifs
    · rfl
    · rw [List.append_assoc]

/-! ## Lines -/

theorem kept_line (hrest : endsLine isBreak rest = true) (hline : ∀ a ∈ line, isBreak a = false) :
    kept isBreak isBlank rest line = line.rdropWhile isBlank := by
  induction line using List.reverseRecOn with
  | nil => exact (List.rdropWhile_nil _).symm
  | append_singleton line a ih =>
    have ha : isBreak a = false := hline a (by simp)
    have hline' : ∀ b ∈ line, isBreak b = false := fun b hb => hline b (by simp [hb])
    rw [kept_append, kept_singleton, hrest, Bool.and_true]
    by_cases hblank : isBlank a = true
    · rw [if_pos hblank, List.nil_append, List.append_nil, List.rdropWhile_concat_pos _ _ _ hblank]
      exact ih hline'
    · rw [if_neg hblank, List.rdropWhile_concat_neg _ _ _ hblank]
      -- in front of an element of its line all of it is kept
      have hall : ∀ front : List α, (∀ b ∈ front, isBreak b = false) →
          kept isBreak isBlank ([a] ++ rest) front = front := by
        intro front hfront
        induction front with
        | nil => rfl
        | cons b front ihf =>
          rw [kept, ihf fun c hc => hfront c (List.mem_cons_of_mem b hc), if_neg]
          rw [Bool.and_eq_true, not_and]
          intro _
          cases front with
          | nil => simp [endsLine, ha]
          | cons c front => simp [endsLine, hfront c (by simp)]
      rw [hall line hline']

/-- A line in front of a line break. -/
theorem kept_line_break {a : α} (ha : isBreak a = true) (hblank : isBlank a = false)
    (hline : ∀ b ∈ line, isBreak b = false) (text : List α) :
    kept isBreak isBlank [] (line ++ a :: text) =
      line.rdropWhile isBlank ++ a :: kept isBreak isBlank [] text := by
  have hcons : kept isBreak isBlank [] (a :: text) = a :: kept isBreak isBlank [] text := by
    rw [kept, if_neg (by simp [hblank])]
  rw [kept_append, hcons, kept_line (by simp [endsLine, ha]) hline]

end Lib.TrailingSpace
