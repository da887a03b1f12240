import OmkVerified.Lib.Substitution

/-!
# Prompt templates

`substituteArgs` of `prompt-templates.ts`: four replacement passes over a template.
-/

namespace CodingAgent.PromptTemplates

open Lib.Substitution

/-! ## Placeholders -/

/-- The digits that `\d+` matches. -/
structure Digits where
  chars : List Char
  ne_nil : chars ≠ []
  isDigit : chars.all Char.isDigit = true
deriving DecidableEq

/-- `parseInt(digits, 10)`. -/
def Digits.value (digits : Digits) : Nat := Nat.ofDigitChars 10 digits.chars 0

/-- All digits at the start of a text. -/
def readDigits (text : List Char) : Option (Digits × List Char) :=
  if h : text.takeWhile Char.isDigit = [] then none
  else some (⟨text.takeWhile Char.isDigit, h, List.all_takeWhile⟩, text.dropWhile Char.isDigit)

/-- `${@:start}` and `${@:start:length}`. -/
structure Slice where
  start : Digits
  length : Option Digits
deriving DecidableEq

def Slice.source (slice : Slice) : List Char :=
  ['$', '{', '@', ':'] ++ slice.start.chars ++
    (match slice.length with
      | some length => ':' :: length.chars
      | none => []) ++ ['}']

/-- `/\$(\d+)/`. -/
def positionalAt : Finder Digits
  | '$' :: text => readDigits text
  | _ => none

/-- `/\$\{@:(\d+)(?::(\d+))?\}/`. -/
def sliceAt : Finder Slice
  | '$' :: '{' :: '@' :: ':' :: text =>
    match readDigits text with
    | some (start, '}' :: rest) => some (⟨start, none⟩, rest)
    | some (start, ':' :: rest) =>
      match readDigits rest with
      | some (length, '}' :: rest) => some (⟨start, some length⟩, rest)
      | _ => none
    | _ => none
  | _ => none

/-- `/\$ARGUMENTS/`. -/
def argumentsAt : Finder Unit
  | '$' :: 'A' :: 'R' :: 'G' :: 'U' :: 'M' :: 'E' :: 'N' :: 'T' :: 'S' :: rest => some ((), rest)
  | _ => none

/-- `/\$@/`. -/
def allAt : Finder Unit
  | '$' :: '@' :: rest => some ((), rest)
  | _ => none

/-! ## Substitution -/

/-- `args[index] ?? ""` with `index = parseInt(digits, 10) - 1`. -/
def positionalValue (args : List (List Char)) (digits : Digits) : List Char :=
  if digits.value = 0 then [] else (args[digits.value - 1]?).getD []

/-- `args.join(" ")`. -/
def joinArgs (args : List (List Char)) : List Char := [' '].intercalate args

/-- The arguments of a slice. A start of 0 is one of 1. -/
def sliceValue (args : List (List Char)) (slice : Slice) : List Char :=
  let rest := args.drop (slice.start.value - 1)
  match slice.length with
  | some length => joinArgs (rest.take length.value)
  | none => joinArgs rest

def substituteArgs (content : List Char) (args : List (List Char)) : List Char :=
  let result := replaceAll positionalAt (fun _ digits _ => positionalValue args digits) content
  let result := replaceAll sliceAt (fun _ slice _ => sliceValue args slice) result
  let allArgs := joinArgs args
  let result := replaceAll argumentsAt
    (fun front _ back => expand "$ARGUMENTS".toList front back allArgs) result
  replaceAll allAt (fun front _ back => expand "$@".toList front back allArgs) result

/-! ## The simultaneous substitution -/

inductive Placeholder
  | positional (digits : Digits)
  | slice (slice : Slice)
  | arguments
  | all
deriving DecidableEq

def Placeholder.source : Placeholder → List Char
  | .positional digits => '$' :: digits.chars
  | .slice s => s.source
  | .arguments => "$ARGUMENTS".toList
  | .all => "$@".toList

/-- The placeholder at the start of a text. -/
def placeholderAt (text : List Char) : Option (Placeholder × List Char) :=
  match positionalAt text, sliceAt text, argumentsAt text, allAt text with
  | some (digits, rest), _, _, _ => some (.positional digits, rest)
  | _, some (slice, rest), _, _ => some (.slice slice, rest)
  | _, _, some (_, rest), _ => some (.arguments, rest)
  | _, _, _, some (_, rest) => some (.all, rest)
  | _, _, _, _ => none

/-- The segments of a text of which `skip` characters belong to the last placeholder. -/
def segmentsFrom : (skip : Nat) → List Char → List (Segment Placeholder)
  | _, [] => []
  | skip + 1, _ :: text => segmentsFrom skip text
  | 0, c :: text =>
    match placeholderAt (c :: text) with
    | some (placeholder, rest) => .hole placeholder :: segmentsFrom (text.length - rest.length) text
    | none => .lit c :: segmentsFrom 0 text

/-- The template with its placeholders, from left to right. -/
def segments (template : List Char) : List (Segment Placeholder) := segmentsFrom 0 template

/-- The text of the arguments that a placeholder denotes. -/
def denoted (args : List (List Char)) : Placeholder → List Char
  | .positional digits => positionalValue args digits
  | .slice slice => sliceValue args slice
  | .arguments => joinArgs args
  | .all => joinArgs args

/-- The template with each placeholder replaced by the text it denotes. -/
def substituted (template : List Char) (args : List (List Char)) : List Char :=
  (segments template).flatMap fun
    | .lit c => [c]
    | .hole placeholder => denoted args placeholder

/-- The value of the placeholders that a pass replaces. -/
def valueIf (args : List (List Char)) (kind : Placeholder → Bool) (placeholder : Placeholder) :
    Option (List Char) :=
  if kind placeholder then some (denoted args placeholder) else none

def isPositional : Placeholder → Bool
  | .positional _ => true
  | _ => false

def isSlice : Placeholder → Bool
  | .slice _ => true
  | _ => false

def isArguments : Placeholder → Bool
  | .arguments => true
  | _ => false

def isAll : Placeholder → Bool
  | .all => true
  | _ => false

/-- The template after the positional placeholders are filled, after the slices too, and after
`$ARGUMENTS` too. -/
def afterPositional (template : List Char) (args : List (List Char)) : List (Segment Placeholder) :=
  fill (valueIf args isPositional) (segments template)

def afterSlices (template : List Char) (args : List (List Char)) : List (Segment Placeholder) :=
  fill (valueIf args isSlice) (afterPositional template args)

def afterArguments (template : List Char) (args : List (List Char)) : List (Segment Placeholder) :=
  fill (valueIf args isArguments) (afterSlices template args)

/-- No pass finds a placeholder that starts outside the placeholders of the template, and the joined
arguments have no replacement pattern if they are used as one. -/
structure Undisturbed (template : List Char) (args : List (List Char)) : Prop where
  slices : Quiet Placeholder.source sliceAt (afterPositional template args)
  arguments : Quiet Placeholder.source argumentsAt (afterSlices template args)
  all : Quiet Placeholder.source allAt (afterArguments template args)
  verbatim : (∃ placeholder, .hole placeholder ∈ segments template ∧
      (isArguments placeholder || isAll placeholder) = true) → hasPattern (joinArgs args) = false

end CodingAgent.PromptTemplates

/-!
# Substitution of arguments

The first pass works on the template itself, so it finds the positional placeholders. A later pass finds
its own placeholders too, whatever follows them, so it goes wrong only at a dollar sign outside the
placeholders, which comes from the template or from an argument.
-/

namespace CodingAgent.PromptTemplates

open Lib.Substitution

variable {args : List (List Char)} {template : List Char}

/-! ## Finding placeholders -/

theorem Digits.exists_cons (digits : Digits) :
    ∃ c tail, digits.chars = c :: tail ∧ c.isDigit = true := by
  obtain ⟨c, tail, hchars⟩ := List.exists_cons_of_ne_nil digits.ne_nil
  refine ⟨c, tail, hchars, List.all_eq_true.mp digits.isDigit c ?_⟩
  rw [hchars]
  exact List.mem_cons_self ..

variable {rest : List Char} {placeholder : Placeholder}

theorem readDigits_eq_some {text : List Char} {digits : Digits}
    (h : readDigits text = some (digits, rest)) : text = digits.chars ++ rest := by
  unfold readDigits at h
  split_ifs at h with hnil
  cases h
  exact List.takeWhile_append_dropWhile.symm

theorem readDigits_append (digits : Digits) {rest : List Char}
    (h : ∀ c ∈ rest.head?, c.isDigit = false) :
    readDigits (digits.chars ++ rest) = some (digits, rest) := by
  have hall : ∀ c ∈ digits.chars, Char.isDigit c = true := List.all_eq_true.mp digits.isDigit
  have htake : (digits.chars ++ rest).takeWhile Char.isDigit = digits.chars := by
    rw [List.takeWhile_append_of_pos hall]
    cases rest with
    | nil => simp
    | cons c rest => simp [h c rfl]
  have hdrop : (digits.chars ++ rest).dropWhile Char.isDigit = rest := by
    rw [List.dropWhile_append_of_pos hall]
    cases rest with
    | nil => rfl
    | cons c rest => simp [h c rfl]
  unfold readDigits
  rw [dif_neg (by rw [htake]; exact digits.ne_nil)]
  congr 1
  ext1
  · cases digits
    simpa using htake
  · exact hdrop

theorem readDigits_none {c : Char} {text : List Char} (h : c.isDigit = false) :
    readDigits (c :: text) = none := by
  unfold readDigits
  rw [dif_pos]
  simp [h]

theorem positionalAt_eq_some {text : List Char} {digits : Digits}
    (h : positionalAt text = some (digits, rest)) : text = '$' :: digits.chars ++ rest := by
  unfold positionalAt at h
  split at h
  · rw [readDigits_eq_some h, List.cons_append]
  · cases h

theorem sliceAt_eq_some {text : List Char} {slice : Slice} (h : sliceAt text = some (slice, rest)) :
    text = slice.source ++ rest := by
  unfold sliceAt at h
  split at h
  · split at h
    · rename_i hstart
      cases h
      rw [readDigits_eq_some hstart]
      simp [Slice.source]
    · rename_i hstart
      split at h
      · rename_i hlength
        cases h
        rw [readDigits_eq_some hstart, readDigits_eq_some hlength]
        simp [Slice.source]
      · cases h
    · cases h
  · cases h

theorem sliceAt_source (slice : Slice) (rest : List Char) :
    sliceAt (slice.source ++ rest) = some (slice, rest) := by
  obtain ⟨start, length⟩ := slice
  cases length with
  | none =>
    have hread := @readDigits_append start ('}' :: rest) (by simp)
    simp [Slice.source, sliceAt, hread]
  | some length =>
    have hread := @readDigits_append start (':' :: (length.chars ++ '}' :: rest)) (by simp)
    have hread' := @readDigits_append length ('}' :: rest) (by simp)
    simp [Slice.source, sliceAt, hread, hread']

theorem argumentsAt_eq_some {text : List Char} (h : argumentsAt text = some ((), rest)) :
    text = "$ARGUMENTS".toList ++ rest := by
  unfold argumentsAt at h
  split at h
  · cases h
    rfl
  · cases h

theorem allAt_eq_some {text : List Char} (h : allAt text = some ((), rest)) :
    text = "$@".toList ++ rest := by
  unfold allAt at h
  split at h
  · cases h
    rfl
  · cases h

theorem find_of_ne_dollar {c : Char} (h : c ≠ '$') (text : List Char) :
    positionalAt (c :: text) = none ∧ sliceAt (c :: text) = none ∧
      argumentsAt (c :: text) = none ∧ allAt (c :: text) = none := by
  unfold positionalAt sliceAt argumentsAt allAt
  refine ⟨?_, ?_, ?_, ?_⟩ <;> split <;> simp_all

theorem placeholderAt_eq_some {text : List Char}
    (h : placeholderAt text = some (placeholder, rest)) :
    text = placeholder.source ++ rest := by
  unfold placeholderAt at h
  split at h
  · rename_i hfind
    cases h
    exact positionalAt_eq_some hfind
  · rename_i hfind _
    cases h
    exact sliceAt_eq_some hfind
  · rename_i hfind _ _
    cases h
    exact argumentsAt_eq_some hfind
  · rename_i hfind _ _ _
    cases h
    exact allAt_eq_some hfind
  · cases h

theorem positionalAt_of_placeholderAt {text : List Char} {digits : Digits}
    (h : placeholderAt text = some (.positional digits, rest)) :
    positionalAt text = some (digits, rest) := by
  unfold placeholderAt at h
  split at h
  · rename_i hfind
    cases h
    exact hfind
  all_goals cases h

theorem positionalAt_of_placeholderAt_none {text : List Char} (h : placeholderAt text = none) :
    positionalAt text = none := by
  unfold placeholderAt at h
  cases hfind : positionalAt text with
  | none => rfl
  | some found =>
    rw [hfind] at h
    cases h

/-! ## Placeholders as segments -/

theorem source_eq_cons (placeholder : Placeholder) :
    ∃ tail, placeholder.source = '$' :: tail ∧ '$' ∉ tail := by
  have hdigits : ∀ digits : Digits, '$' ∉ digits.chars := by
    intro digits hmem
    have := List.all_eq_true.mp digits.isDigit '$' hmem
    exact absurd this (by decide)
  cases placeholder with
  | positional digits => exact ⟨digits.chars, rfl, hdigits digits⟩
  | slice slice =>
    obtain ⟨start, length⟩ := slice
    cases length with
    | none =>
      refine ⟨_, rfl, ?_⟩
      simp [hdigits start]
    | some length =>
      refine ⟨_, rfl, ?_⟩
      simp [hdigits start, hdigits length]
  | arguments => exact ⟨_, rfl, by decide⟩
  | all => exact ⟨_, rfl, by decide⟩

theorem source_ne_nil (placeholder : Placeholder) : placeholder.source ≠ [] := by
  obtain ⟨tail, htail, -⟩ := source_eq_cons placeholder
  rw [htail]
  simp

/-- Each segment is found where it stands. -/
def Parsed : List (Segment Placeholder) → Prop
  | [] => True
  | .lit c :: segments =>
    placeholderAt (c :: render Placeholder.source segments) = none ∧ Parsed segments
  | .hole placeholder :: segments =>
    placeholderAt (placeholder.source ++ render Placeholder.source segments) =
      some (placeholder, render Placeholder.source segments) ∧ Parsed segments

theorem segmentsFrom_skip (text rest : List Char) :
    segmentsFrom text.length (text ++ rest) = segmentsFrom 0 rest := by
  induction text with
  | nil => rfl
  | cons c text ih => exact ih

theorem parsed_segmentsFrom (fuel : Nat) (text : List Char) (h : text.length ≤ fuel) :
    render Placeholder.source (segmentsFrom 0 text) = text ∧ Parsed (segmentsFrom 0 text) := by
  induction fuel generalizing text with
  | zero =>
    obtain rfl : text = [] := List.length_eq_zero_iff.mp (by omega)
    exact ⟨rfl, trivial⟩
  | succ fuel ih =>
    cases text with
    | nil => exact ⟨rfl, trivial⟩
    | cons c text =>
      rw [List.length_cons] at h
      unfold segmentsFrom
      cases hfind : placeholderAt (c :: text) with
      | none =>
        obtain ⟨hrender, hparsed⟩ := ih text (by omega)
        refine ⟨?_, ?_, hparsed⟩
        · rw [render, hrender]
        · rw [hrender]
          exact hfind
      | some found =>
        obtain ⟨placeholder, rest⟩ := found
        have hsource := placeholderAt_eq_some hfind
        obtain ⟨tail, htail, -⟩ := source_eq_cons placeholder
        rw [htail, List.cons_append, List.cons.injEq] at hsource
        obtain ⟨rfl, rfl⟩ := hsource
        rw [List.length_append] at h
        obtain ⟨hrender, hparsed⟩ := ih rest (by omega)
        have hlen : (tail ++ rest).length - rest.length = tail.length := by
          rw [List.length_append]
          omega
        dsimp only
        rw [hlen, segmentsFrom_skip]
        refine ⟨?_, ?_, hparsed⟩
        · rw [render, hrender, htail, List.cons_append]
        · rw [hrender, htail, List.cons_append]
          exact hfind

theorem render_segments (template : List Char) :
    render Placeholder.source (segments template) = template :=
  (parsed_segmentsFrom template.length template le_rfl).1

theorem parsed_segments (template : List Char) : Parsed (segments template) :=
  (parsed_segmentsFrom template.length template le_rfl).2

/-! ## The passes -/

/-- Nothing is found inside a placeholder that is not found at its start. -/
theorem not_found_inside {β : Type} {find : Finder β}
    (hfind : ∀ c text, c ≠ '$' → find (c :: text) = none)
    (h : find (placeholder.source ++ rest) = none) :
    ∀ x y, placeholder.source = x ++ y → y ≠ [] → find (y ++ rest) = none := by
  intro x y hsource hy
  obtain ⟨tail, htail, hdollar⟩ := source_eq_cons placeholder
  cases x with
  | nil =>
    rw [List.nil_append] at hsource
    rw [← hsource]
    exact h
  | cons d x =>
    obtain ⟨c, y, rfl⟩ := List.exists_cons_of_ne_nil hy
    rw [htail, List.cons_append, List.cons.injEq] at hsource
    refine hfind c (y ++ rest) ?_
    rintro rfl
    exact hdollar (by rw [hsource.2]; simp)

theorem quiet_positional {segments : List (Segment Placeholder)} (h : Parsed segments) :
    Quiet Placeholder.source positionalAt segments := by
  induction segments with
  | nil => trivial
  | cons segment segments ih =>
    cases segment with
    | lit c => exact ⟨positionalAt_of_placeholderAt_none h.1, ih h.2⟩
    | hole placeholder => exact ih h.2

theorem positionalAt_source (h : isPositional placeholder = false) (rest : List Char) :
    positionalAt (placeholder.source ++ rest) = none := by
  cases placeholder with
  | positional digits => cases h
  | slice slice => exact readDigits_none (by decide)
  | arguments => exact readDigits_none (by decide)
  | all => exact readDigits_none (by decide)

theorem fits_positional {segments : List (Segment Placeholder)} (front : List Char)
    (h : Parsed segments) :
    Fits Placeholder.source positionalAt (fun _ digits _ => positionalValue args digits)
      (valueIf args isPositional) front segments := by
  induction segments generalizing front with
  | nil => trivial
  | cons segment segments ih =>
    cases segment with
    | lit c => exact ih _ h.2
    | hole placeholder =>
      refine ⟨?_, ih _ h.2⟩
      cases hkind : isPositional placeholder with
      | true =>
        cases placeholder with
        | positional digits => exact ⟨digits, positionalAt_of_placeholderAt h.1, rfl⟩
        | _ => cases hkind
      | false =>
        rw [valueIf, hkind]
        exact not_found_inside (fun c text hc => (find_of_ne_dollar hc text).1)
          (positionalAt_source hkind _)

/-- A pass that finds its own placeholders, whatever follows them, and no others. -/
theorem fits_of_finds {β : Type} {find : Finder β}
    {emit : (front : List Char) → β → (back : List Char) → List Char} {kind : Placeholder → Bool}
    (hfind : ∀ c text, c ≠ '$' → find (c :: text) = none)
    (hother : ∀ placeholder rest, kind placeholder = false →
      find (placeholder.source ++ rest) = none)
    {segments : List (Segment Placeholder)} (front : List Char)
    (hown : ∀ placeholder, .hole placeholder ∈ segments → kind placeholder = true →
      ∀ front rest, ∃ found, find (placeholder.source ++ rest) = some (found, rest) ∧
        emit front found rest = denoted args placeholder) :
    Fits Placeholder.source find emit (valueIf args kind) front segments := by
  induction segments generalizing front with
  | nil => trivial
  | cons segment segments ih =>
    have hrest : ∀ placeholder, .hole placeholder ∈ segments → kind placeholder = true →
        ∀ front rest, ∃ found, find (placeholder.source ++ rest) = some (found, rest) ∧
          emit front found rest = denoted args placeholder :=
      fun placeholder hmem => hown placeholder (List.mem_cons_of_mem _ hmem)
    cases segment with
    | lit c => exact ih _ hrest
    | hole placeholder =>
      refine ⟨?_, ih _ hrest⟩
      cases hkind : kind placeholder with
      | true =>
        rw [valueIf, if_pos hkind]
        exact hown placeholder (List.mem_cons_self ..) hkind front _
      | false =>
        rw [valueIf, hkind]
        exact not_found_inside hfind (hother placeholder _ hkind)

theorem hole_mem_fill {value : Placeholder → Option (List Char)}
    {segments : List (Segment Placeholder)} (h : .hole placeholder ∈ fill value segments) :
    .hole placeholder ∈ segments := by
  induction segments with
  | nil => exact h
  | cons segment segments ih =>
    cases segment with
    | lit c =>
      rcases List.mem_cons.mp h with heq | hmem
      · cases heq
      · exact List.mem_cons_of_mem _ (ih hmem)
    | hole other =>
      unfold fill at h
      cases hvalue : value other with
      | some text =>
        rw [hvalue] at h
        rcases List.mem_append.mp h with hlit | hmem
        · obtain ⟨c, -, heq⟩ := List.mem_map.mp hlit
          cases heq
        · exact List.mem_cons_of_mem _ (ih hmem)
      | none =>
        rw [hvalue] at h
        rcases List.mem_cons.mp h with heq | hmem
        · rw [heq]
          exact List.mem_cons_self ..
        · exact List.mem_cons_of_mem _ (ih hmem)

theorem sliceAt_other (rest : List Char) (h : isSlice placeholder = false) :
    sliceAt (placeholder.source ++ rest) = none := by
  cases placeholder with
  | positional digits =>
    obtain ⟨c, tail, hchars, hdigit⟩ := digits.exists_cons
    have hne : c ≠ '{' := by
      rintro rfl
      exact absurd hdigit (by decide)
    show sliceAt ('$' :: digits.chars ++ rest) = none
    rw [hchars]
    unfold sliceAt
    split <;> simp_all
  | slice slice => cases h
  | arguments => rfl
  | all => rfl

theorem argumentsAt_other (rest : List Char) (h : isArguments placeholder = false) :
    argumentsAt (placeholder.source ++ rest) = none := by
  cases placeholder with
  | positional digits =>
    obtain ⟨c, tail, hchars, hdigit⟩ := digits.exists_cons
    have hne : c ≠ 'A' := by
      rintro rfl
      exact absurd hdigit (by decide)
    show argumentsAt ('$' :: digits.chars ++ rest) = none
    rw [hchars]
    unfold argumentsAt
    split <;> simp_all
  | slice slice => rfl
  | arguments => cases h
  | all => rfl

theorem allAt_other (rest : List Char) (h : isAll placeholder = false) :
    allAt (placeholder.source ++ rest) = none := by
  cases placeholder with
  | positional digits =>
    obtain ⟨c, tail, hchars, hdigit⟩ := digits.exists_cons
    have hne : c ≠ '@' := by
      rintro rfl
      exact absurd hdigit (by decide)
    show allAt ('$' :: digits.chars ++ rest) = none
    rw [hchars]
    unfold allAt
    split <;> simp_all
  | slice slice => rfl
  | arguments => rfl
  | all => cases h

/-! ## The result -/

theorem fill_append (value : Placeholder → Option (List Char))
    (front back : List (Segment Placeholder)) :
    fill value (front ++ back) = fill value front ++ fill value back := by
  induction front with
  | nil => rfl
  | cons segment front ih =>
    cases segment with
    | lit c => simp [fill, ih]
    | hole placeholder => cases hvalue : value placeholder <;> simp [fill, hvalue, ih]

theorem fill_lits (value : Placeholder → Option (List Char)) (text : List Char) :
    fill value (text.map .lit) = text.map .lit := by
  induction text with
  | nil => rfl
  | cons c text ih => simp [fill, ih]

theorem render_fill_all (args : List (List Char)) (template : List Char) :
    render Placeholder.source (fill (valueIf args isAll) (afterArguments template args)) =
      substituted template args := by
  unfold afterArguments afterSlices afterPositional substituted
  induction segments template with
  | nil => rfl
  | cons segment segments ih =>
    rw [List.flatMap_cons, ← ih]
    cases segment with
    | lit c => rfl
    | hole placeholder =>
      cases placeholder <;>
        simp [fill, valueIf, isPositional, isSlice, isArguments, isAll, fill_append, fill_lits,
          render_append, render_lits]

/-- When no dollar sign outside the placeholders is taken for one, `substituteArgs` is the simultaneous
substitution. -/
theorem substituteArgs_eq_substituted (template : List Char) (args : List (List Char))
    (h : Undisturbed template args) : substituteArgs template args = substituted template args := by
  have hparsed := parsed_segments template
  have hpositional : replaceAll positionalAt (fun _ digits _ => positionalValue args digits) template =
      render Placeholder.source (afterPositional template args) := by
    have hpass := replaceAll_render source_ne_nil (quiet_positional hparsed)
      (@fits_positional args _ [] hparsed)
    rw [render_segments] at hpass
    exact hpass
  have hslices : replaceAll sliceAt (fun _ slice _ => sliceValue args slice)
        (render Placeholder.source (afterPositional template args)) =
      render Placeholder.source (afterSlices template args) := by
    refine replaceAll_render source_ne_nil h.slices (fits_of_finds
      (fun c text hc => (find_of_ne_dollar hc text).2.1) (fun _ rest hkind => sliceAt_other rest hkind)
      [] ?_)
    intro placeholder _ hkind front rest
    cases placeholder with
    | slice slice => exact ⟨slice, sliceAt_source slice rest, rfl⟩
    | _ => cases hkind
  have hverbatim : ∀ placeholder, .hole placeholder ∈ afterSlices template args →
      (isArguments placeholder || isAll placeholder) = true → hasPattern (joinArgs args) = false :=
    fun placeholder hmem hkind =>
      h.verbatim ⟨placeholder, hole_mem_fill (hole_mem_fill hmem), hkind⟩
  have harguments : replaceAll argumentsAt
        (fun front _ back => expand "$ARGUMENTS".toList front back (joinArgs args))
        (render Placeholder.source (afterSlices template args)) =
      render Placeholder.source (afterArguments template args) := by
    refine replaceAll_render source_ne_nil h.arguments (fits_of_finds
      (fun c text hc => (find_of_ne_dollar hc text).2.2.1)
      (fun _ rest hkind => argumentsAt_other rest hkind) [] ?_)
    intro placeholder hmem hkind front rest
    cases placeholder with
    | arguments =>
      exact ⟨(), rfl, expand_of_not_hasPattern _ _ _ (hverbatim _ hmem rfl)⟩
    | _ => cases hkind
  have hall : replaceAll allAt (fun front _ back => expand "$@".toList front back (joinArgs args))
        (render Placeholder.source (afterArguments template args)) =
      render Placeholder.source (fill (valueIf args isAll) (afterArguments template args)) := by
    refine replaceAll_render source_ne_nil h.all (fits_of_finds
      (fun c text hc => (find_of_ne_dollar hc text).2.2.2)
      (fun _ rest hkind => allAt_other rest hkind) [] ?_)
    intro placeholder hmem hkind front rest
    cases placeholder with
    | all => exact ⟨(), rfl, expand_of_not_hasPattern _ _ _ (hverbatim _ (hole_mem_fill hmem) rfl)⟩
    | _ => cases hkind
  unfold substituteArgs
  dsimp only
  rw [hpositional, hslices, harguments, hall, render_fill_all]

/-! ## Texts without other dollar signs -/

/-- Outside its holes the text has no dollar sign. -/
def Plain (segments : List (Segment Placeholder)) : Prop := ∀ c, .lit c ∈ segments → c ≠ '$'

theorem Plain.quiet {β : Type} {find : Finder β} {segments : List (Segment Placeholder)}
    (hfind : ∀ c text, c ≠ '$' → find (c :: text) = none) (h : Plain segments) :
    Quiet Placeholder.source find segments := by
  induction segments with
  | nil => trivial
  | cons segment segments ih =>
    have hrest : Plain segments := fun c hc => h c (List.mem_cons_of_mem _ hc)
    cases segment with
    | lit c => exact ⟨hfind c _ (h c (List.mem_cons_self ..)), ih hrest⟩
    | hole placeholder => exact ih hrest

theorem Plain.fill {value : Placeholder → Option (List Char)} {segments : List (Segment Placeholder)}
    (h : Plain segments) (hvalue : ∀ placeholder text, value placeholder = some text → '$' ∉ text) :
    Plain (fill value segments) := by
  induction segments with
  | nil => exact h
  | cons segment segments ih =>
    have hrest := ih fun c hc => h c (List.mem_cons_of_mem _ hc)
    intro c hc
    cases segment with
    | lit d =>
      rcases List.mem_cons.mp hc with heq | hmem
      · cases heq
        exact h c (List.mem_cons_self ..)
      · exact hrest c hmem
    | hole placeholder =>
      unfold Lib.Substitution.fill at hc
      cases htext : value placeholder with
      | some text =>
        rw [htext] at hc
        rcases List.mem_append.mp hc with hlit | hmem
        · obtain ⟨d, hd, heq⟩ := List.mem_map.mp hlit
          cases heq
          rintro rfl
          exact hvalue placeholder text htext hd
        · exact hrest c hmem
      | none =>
        rw [htext] at hc
        rcases List.mem_cons.mp hc with heq | hmem
        · cases heq
        · exact hrest c hmem

theorem not_mem_joinArgs {args : List (List Char)} (h : ∀ arg ∈ args, '$' ∉ arg) :
    '$' ∉ joinArgs args := by
  unfold joinArgs
  induction args with
  | nil => simp
  | cons arg args ih =>
    have hrest := ih fun a ha => h a (List.mem_cons_of_mem _ ha)
    have harg := h arg (List.mem_cons_self ..)
    cases args with
    | nil => simpa using harg
    | cons next args =>
      rw [List.intercalate_cons_cons]
      simp only [List.mem_append, List.mem_singleton, not_or]
      exact ⟨⟨harg, by decide⟩, hrest⟩

theorem not_mem_denoted {args : List (List Char)} (h : ∀ arg ∈ args, '$' ∉ arg)
    (placeholder : Placeholder) : '$' ∉ denoted args placeholder := by
  cases placeholder with
  | positional digits =>
    show '$' ∉ positionalValue args digits
    unfold positionalValue
    split_ifs with hzero
    · simp
    · cases hget : args[digits.value - 1]? with
      | none => simp
      | some arg => exact h arg (List.mem_of_getElem? hget)
  | slice slice =>
    show '$' ∉ sliceValue args slice
    unfold sliceValue
    dsimp only
    split
    · exact not_mem_joinArgs fun a ha => h a (List.mem_of_mem_drop (List.mem_of_mem_take ha))
    · exact not_mem_joinArgs fun a ha => h a (List.mem_of_mem_drop ha)
  | arguments => exact not_mem_joinArgs h
  | all => exact not_mem_joinArgs h

theorem hasPattern_eq_false {text : List Char} (h : '$' ∉ text) : hasPattern text = false := by
  induction text with
  | nil => rfl
  | cons c text ih =>
    rw [List.mem_cons, not_or] at h
    rw [hasPattern]
    · exact ih h.2
    · intro d rest heq
      exact absurd heq (fun he => h.1 (by cases he; rfl))

theorem undisturbed_of_plain {template : List Char} {args : List (List Char)}
    (htemplate : Plain (segments template)) (hargs : ∀ arg ∈ args, '$' ∉ arg) :
    Undisturbed template args := by
  have hvalue : ∀ kind placeholder text, valueIf args kind placeholder = some text → '$' ∉ text := by
    intro kind placeholder text htext
    unfold valueIf at htext
    split_ifs at htext
    cases htext
    exact not_mem_denoted hargs placeholder
  have hpositional := htemplate.fill (hvalue isPositional)
  have hslices := hpositional.fill (hvalue isSlice)
  have harguments := hslices.fill (hvalue isArguments)
  exact ⟨hpositional.quiet fun c text hc => (find_of_ne_dollar hc text).2.1,
    hslices.quiet fun c text hc => (find_of_ne_dollar hc text).2.2.1,
    harguments.quiet fun c text hc => (find_of_ne_dollar hc text).2.2.2,
    fun _ => hasPattern_eq_false (not_mem_joinArgs hargs)⟩

theorem plain_of_forall {segments : List (Segment Placeholder)} (h : ∀ s ∈ segments, s ≠ .lit '$') :
    Plain segments := by
  rintro c hc rfl
  exact h _ hc rfl

theorem substituteArgs_eq_substituted_sample :
    substituteArgs "Review $1 with $\x7b@:2\x7d".toList ["a.ts".toList, "care".toList] =
      substituted "Review $1 with $\x7b@:2\x7d".toList ["a.ts".toList, "care".toList] :=
  substituteArgs_eq_substituted _ _ (undisturbed_of_plain (plain_of_forall (by decide)) (by decide))

/-- A placeholder inside an argument is filled in turn, and a dollar sign of an argument is read as a
replacement pattern. -/
theorem substituteArgs_disturbed :
    substituteArgs "Fix $1".toList ["$@ now".toList] = "Fix $@ now now".toList ∧
      substituted "Fix $1".toList ["$@ now".toList] = "Fix $@ now".toList ∧
      substituteArgs "Run $@".toList ["a$$b".toList] = "Run a$b".toList ∧
      substituted "Run $@".toList ["a$$b".toList] = "Run a$$b".toList := by
  refine ⟨?_, ?_, ?_, ?_⟩ <;> decide

end CodingAgent.PromptTemplates
