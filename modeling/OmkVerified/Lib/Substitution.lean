import Mathlib

/-!
# Replacement passes over a text with holes

`text.replace(/.../g, ...)` of ECMAScript: the matches of a pattern are found from left to right, and the
text that replaces one is not searched again in the same pass. A text with holes is a list of segments;
a pass fills the holes of one kind when it finds their texts and nothing else.
-/

namespace Lib.Substitution

variable {α β : Type}

/-- What a pattern finds at the start of a text, and what follows it. -/
abbrev Finder (β : Type) := List Char → Option (β × List Char)

/-- The text after `front`, of which `skip` characters belong to the last match. -/
def replaceFrom (find : Finder β) (emit : (front : List Char) → β → (back : List Char) → List Char) :
    (front : List Char) → (skip : Nat) → List Char → List Char
  | _, _, [] => []
  | front, skip + 1, c :: text => replaceFrom find emit (front ++ [c]) skip text
  | front, 0, c :: text =>
    match find (c :: text) with
    | some (found, back) =>
      emit front found back ++ replaceFrom find emit (front ++ [c]) (text.length - back.length) text
    | none => c :: replaceFrom find emit (front ++ [c]) 0 text

/-- `text.replace(pattern, emit)` for a global pattern that does not match the empty text. -/
def replaceAll (find : Finder β) (emit : (front : List Char) → β → (back : List Char) → List Char)
    (text : List Char) : List Char :=
  replaceFrom find emit [] 0 text

/-- What a replacement text stands for when `found` was found after `front` and before `back`. -/
def expand (found front back : List Char) : List Char → List Char
  | '$' :: '$' :: text => '$' :: expand found front back text
  | '$' :: '&' :: text => found ++ expand found front back text
  | '$' :: '\x60' :: text => front ++ expand found front back text
  | '$' :: '\x27' :: text => back ++ expand found front back text
  | c :: text => c :: expand found front back text
  | [] => []

/-- A dollar sign followed by one of the characters that give it a meaning. -/
def hasPattern : List Char → Bool
  | '$' :: c :: text => c = '$' || c = '&' || c = '\x60' || c = '\x27' || hasPattern (c :: text)
  | _ :: text => hasPattern text
  | [] => false

theorem expand_of_not_hasPattern (found front back : List Char) {text : List Char}
    (h : hasPattern text = false) : expand found front back text = text := by
  induction text with
  | nil => rfl
  | cons c text ih =>
    by_cases hc : c = '$'
    · subst hc
      cases text with
      | nil => rfl
      | cons d text =>
        simp only [hasPattern, Bool.or_eq_false_iff, decide_eq_false_iff_not] at h
        obtain ⟨⟨⟨⟨h1, h2⟩, h3⟩, h4⟩, hrest⟩ := h
        rw [expand, ih hrest] <;> simp_all
    · have hrest : hasPattern text = false := by
        rw [hasPattern] at h
        · exact h
        · intro d rest he
          exact absurd he (by simp [hc])
      rw [expand, ih hrest] <;> simp_all

/-! ## Texts with holes -/

/-- A character, or a hole with a source text. -/
inductive Segment (α : Type)
  | lit (c : Char)
  | hole (a : α)
deriving DecidableEq

variable (source : α → List Char)

/-- The source text of segments. -/
def render : List (Segment α) → List Char
  | [] => []
  | .lit c :: segments => c :: render segments
  | .hole a :: segments => source a ++ render segments

/-- The segments after the holes that have a value are filled. -/
def fill (value : α → Option (List Char)) : List (Segment α) → List (Segment α)
  | [] => []
  | .lit c :: segments => .lit c :: fill value segments
  | .hole a :: segments =>
    match value a with
    | some text => text.map .lit ++ fill value segments
    | none => .hole a :: fill value segments

theorem render_append (segments segments' : List (Segment α)) :
    render source (segments ++ segments') = render source segments ++ render source segments' := by
  induction segments with
  | nil => rfl
  | cons segment segments ih => cases segment <;> simp [render, ih]

theorem render_lits (text : List Char) : render source (text.map .lit) = text := by
  induction text with
  | nil => rfl
  | cons c text ih => simp [render, ih]

/-- The pass finds nothing that starts at a character outside the holes. -/
def Quiet (find : Finder β) : List (Segment α) → Prop
  | [] => True
  | .lit c :: segments => find (c :: render source segments) = none ∧ Quiet find segments
  | .hole _ :: segments => Quiet find segments

/-- The pass finds each hole that has a value, with that value, and nothing inside another hole. -/
def Fits (find : Finder β) (emit : (front : List Char) → β → (back : List Char) → List Char)
    (value : α → Option (List Char)) : (front : List Char) → List (Segment α) → Prop
  | _, [] => True
  | front, .lit c :: segments => Fits find emit value (front ++ [c]) segments
  | front, .hole a :: segments =>
    (match value a with
      | some text => ∃ found, find (source a ++ render source segments) =
          some (found, render source segments) ∧ emit front found (render source segments) = text
      | none => ∀ x y, source a = x ++ y → y ≠ [] → find (y ++ render source segments) = none) ∧
    Fits find emit value (front ++ source a) segments

variable {source} {find : Finder β}
  {emit : (front : List Char) → β → (back : List Char) → List Char}
  {value : α → Option (List Char)}

theorem replaceFrom_skip (front text rest : List Char) :
    replaceFrom find emit front text.length (text ++ rest) =
      replaceFrom find emit (front ++ text) 0 rest := by
  induction text generalizing front with
  | nil => simp
  | cons c text ih =>
    rw [List.length_cons, List.cons_append, replaceFrom, ih, List.append_assoc, List.singleton_append]

/-- A text in which nothing is found is kept. -/
theorem replaceFrom_none (front text rest : List Char)
    (h : ∀ x y, text = x ++ y → y ≠ [] → find (y ++ rest) = none) :
    replaceFrom find emit front 0 (text ++ rest) =
      text ++ replaceFrom find emit (front ++ text) 0 rest := by
  induction text generalizing front with
  | nil => simp
  | cons c text ih =>
    have hnone := h [] (c :: text) rfl (by simp)
    rw [List.cons_append] at hnone
    rw [List.cons_append, replaceFrom, hnone]
    dsimp only
    rw [ih (front ++ [c]) fun x y hxy hy => h (c :: x) y (by rw [hxy, List.cons_append]) hy,
      List.append_assoc, List.singleton_append, List.cons_append]

/-- The pass fills the holes that have a value. -/
theorem replaceFrom_render (hsource : ∀ a, source a ≠ []) {segments : List (Segment α)}
    (front : List Char) (hquiet : Quiet source find segments)
    (hfits : Fits source find emit value front segments) :
    replaceFrom find emit front 0 (render source segments) =
      render source (fill value segments) := by
  induction segments generalizing front with
  | nil => rfl
  | cons segment segments ih =>
    cases segment with
    | lit c =>
      obtain ⟨hnone, hrest⟩ := hquiet
      rw [render, replaceFrom, hnone]
      dsimp only
      rw [ih _ hrest hfits, fill, render]
    | hole a =>
      obtain ⟨hhole, hrest⟩ := hfits
      rw [render, fill]
      cases hvalue : value a with
      | some text =>
        rw [hvalue] at hhole
        obtain ⟨found, hfind, hemit⟩ := hhole
        obtain ⟨c, tail, hsrc⟩ := List.exists_cons_of_ne_nil (hsource a)
        rw [hsrc, List.cons_append] at hfind
        have hlen : (tail ++ render source segments).length - (render source segments).length =
            tail.length := by
          rw [List.length_append]
          omega
        rw [hsrc] at hrest
        rw [hsrc, List.cons_append, replaceFrom, hfind]
        dsimp only
        rw [hlen, replaceFrom_skip, List.append_assoc, List.singleton_append, ih _ hquiet hrest, hemit,
          render_append, render_lits]
      | none =>
        rw [hvalue] at hhole
        rw [replaceFrom_none _ _ _ hhole, ih _ hquiet hrest]
        rfl

theorem replaceAll_render (hsource : ∀ a, source a ≠ []) {segments : List (Segment α)}
    (hquiet : Quiet source find segments) (hfits : Fits source find emit value [] segments) :
    replaceAll find emit (render source segments) = render source (fill value segments) :=
  replaceFrom_render hsource [] hquiet hfits

end Lib.Substitution
