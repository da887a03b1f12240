import OmkVerified.Lib.Search

/-!
# What a pattern finds in a text

The matches of a global pattern are taken from left to right and do not overlap. A text is read as a list
of tokens: units that belong to no match, and matches with what was read at them. Replacing every match
is a map over the tokens.
-/

namespace Lib.Scan

variable {α β : Type}

/-- What a pattern finds at the start of a text, and what follows it. -/
abbrev Finder (α β : Type) := List α → Option (β × List α)

/-- A unit of a text or a match in it. -/
inductive Token (α β : Type)
  | unit (a : α)
  | found (b : β)
deriving DecidableEq

/-- The tokens of a text, of which `skip` units belong to the last match. -/
def tokensFrom (find : Finder α β) : (skip : Nat) → List α → List (Token α β)
  | _, [] => []
  | skip + 1, _ :: text => tokensFrom find skip text
  | 0, a :: text =>
    match find (a :: text) with
    | some (b, rest) => .found b :: tokensFrom find (text.length - rest.length) text
    | none => .unit a :: tokensFrom find 0 text

def tokens (find : Finder α β) (text : List α) : List (Token α β) := tokensFrom find 0 text

/-- The text of a token whose matches are written as `emit` says. -/
def Token.text (emit : β → List α) : Token α β → List α
  | unit a => [a]
  | found b => emit b

/-- `text.replace(pattern, emit)` for a global pattern that does not match the empty text. -/
def replaceAll (find : Finder α β) (emit : β → List α) (text : List α) : List α :=
  (tokens find text).flatMap (Token.text emit)

@[simp] theorem Token.text_unit (emit : β → List α) (a : α) : (unit a : Token α β).text emit = [a] := rfl

@[simp] theorem Token.text_found (emit : β → List α) (b : β) : (found b : Token α β).text emit = emit b := rfl

theorem tokensFrom_append (find : Finder α β) (front text : List α) :
    tokensFrom find front.length (front ++ text) = tokens find text := by
  induction front with
  | nil => rfl
  | cons a front ih =>
    rw [List.length_cons, List.cons_append, tokensFrom]
    exact ih

theorem exists_find_of_mem_tokensFrom {find : Finder α β} {b : β} {skip : Nat} {text : List α}
    (h : .found b ∈ tokensFrom find skip text) : ∃ text' rest, find text' = some (b, rest) := by
  induction text generalizing skip with
  | nil => cases skip <;> cases h
  | cons a text ih =>
    cases skip with
    | succ skip =>
      rw [tokensFrom] at h
      exact ih h
    | zero =>
      rw [tokensFrom] at h
      split at h
      · next b' rest hfind =>
        rcases List.mem_cons.mp h with heq | hmem
        · cases heq
          exact ⟨_, _, hfind⟩
        · exact ih hmem
      · rcases List.mem_cons.mp h with heq | hmem
        · cases heq
        · exact ih hmem

/-- A finder that reads something, and says what it has read. -/
structure Reads (find : Finder α β) (source : β → List α) : Prop where
  cut : ∀ {text b rest}, find text = some (b, rest) → text = source b ++ rest
  nonempty : ∀ {text b rest}, find text = some (b, rest) → source b ≠ []

theorem flatMap_unit (emit : β → List α) (text : List α) :
    (text.map (Token.unit (β := β))).flatMap (Token.text emit) = text := by
  induction text with
  | nil => rfl
  | cons a text ih =>
    rw [List.map_cons, List.flatMap_cons, ih]
    rfl

theorem flatMap_tokensFrom {find : Finder α β} {source : β → List α} (h : Reads find source) (skip : Nat)
    (text : List α) :
    (tokensFrom find skip text).flatMap (Token.text source) = text.drop skip := by
  induction text generalizing skip with
  | nil => cases skip <;> rfl
  | cons a text ih =>
    cases skip with
    | succ skip =>
      rw [tokensFrom, ih, List.drop_succ_cons]
    | zero =>
      rw [tokensFrom]
      cases hfind : find (a :: text) with
      | none =>
        change a :: (tokensFrom find 0 text).flatMap (Token.text source) = _
        rw [ih]
        rfl
      | some match_ =>
        obtain ⟨b, rest⟩ := match_
        have hcut : a :: text = source b ++ rest := h.cut hfind
        have hne : source b ≠ [] := h.nonempty hfind
        obtain ⟨a', front, hb⟩ := List.exists_cons_of_ne_nil hne
        rw [hb, List.cons_append] at hcut
        obtain ⟨rfl, rfl⟩ := List.cons.inj hcut
        have hskip : (front ++ rest).length - rest.length = front.length := by
          rw [List.length_append]
          omega
        change source b ++ (tokensFrom find _ (front ++ rest)).flatMap (Token.text source) = _
        rw [ih, hskip, List.drop_left, hb]
        rfl

theorem flatMap_tokens {find : Finder α β} {source : β → List α} (h : Reads find source) (text : List α) :
    (tokens find text).flatMap (Token.text source) = text :=
  flatMap_tokensFrom h 0 text

/-- A token that is read back before any rest. -/
def ReadsBack (find : Finder α β) (source : β → List α) : Token α β → Prop
  | .unit a => ∀ rest, find (a :: rest) = none
  | .found b => source b ≠ [] ∧ ∀ rest, find (source b ++ rest) = some (b, rest)

/-- Tokens that are read back one by one are read back together. -/
theorem tokens_flatMap {find : Finder α β} {source : β → List α} {read : List (Token α β)}
    (h : ∀ token ∈ read, ReadsBack find source token) :
    tokens find (read.flatMap (Token.text source)) = read := by
  induction read with
  | nil => rfl
  | cons token read ih =>
    have ih := ih fun other hother => h other (List.mem_cons_of_mem _ hother)
    have htoken := h token List.mem_cons_self
    rw [List.flatMap_cons]
    cases token with
    | unit a =>
      rw [Token.text_unit, List.singleton_append, tokens, tokensFrom, htoken]
      exact congrArg _ ih
    | found b =>
      obtain ⟨hne, hfind⟩ := htoken
      have hrest := hfind (read.flatMap (Token.text source))
      rw [Token.text_found]
      generalize source b = text at hne hrest
      cases text with
      | nil => exact absurd rfl hne
      | cons a front =>
        rw [List.cons_append] at hrest ⊢
        rw [tokens, tokensFrom, hrest]
        have hskip : (front ++ read.flatMap (Token.text source)).length -
            (read.flatMap (Token.text source)).length = front.length := by
          rw [List.length_append]
          omega
        dsimp only
        rw [hskip, tokensFrom_append, ih]

/-- What is written when the tokens of a text are known. -/
theorem replaceAll_eq {find : Finder α β} {text : List α} {read : List (Token α β)}
    (h : tokens find text = read) (emit : β → List α) :
    replaceAll find emit text = read.flatMap (Token.text emit) := by
  rw [replaceAll, h]

end Lib.Scan

/-!
# Counting occurrences

The occurrences of a piece in a list, counted from the front, where the search goes on behind each occurrence
that was found. Occurrences that overlap the one before them are not counted.
-/

namespace Lib

variable {α : Type*}

/-- The piece stands at a position. -/
def OccursAt (piece text : List α) (k : Nat) : Prop := piece <+: text.drop k

variable {piece text before after : List α} {k l : Nat}

theorem OccursAt.isInfix (h : OccursAt piece text k) : piece <:+: text :=
  (List.IsPrefix.isInfix h).trans (List.drop_suffix k text).isInfix

theorem exists_occursAt (h : piece <:+: text) : ∃ k, OccursAt piece text k := by
  obtain ⟨front, back, rfl⟩ := h
  refine ⟨front.length, back, ?_⟩
  rw [List.append_assoc, List.drop_left]

theorem occursAt_drop_iff : OccursAt piece (text.drop k) l ↔ OccursAt piece text (k + l) := by
  rw [OccursAt, OccursAt, List.drop_drop]

variable [DecidableEq α]

/-- The occurrences counted with `fuel` searches. -/
def countFrom (piece : List α) : (fuel : Nat) → List α → Nat
  | 0, _ => 0
  | fuel + 1, text =>
    match cutFirst piece text with
    | none => 0
    | some (_, after) => countFrom piece fuel after + 1

theorem cutFirst_length_lt (hne : piece ≠ []) (h : cutFirst piece text = some (before, after)) :
    after.length < text.length := by
  have hpiece : 0 < piece.length := List.length_pos_of_ne_nil hne
  rw [cutFirst_eq_some h, List.length_append, List.length_append]
  omega

theorem countFrom_eq_zero_iff {fuel : Nat} (hfuel : 0 < fuel) :
    countFrom piece fuel text = 0 ↔ ¬ piece <:+: text := by
  obtain ⟨fuel, rfl⟩ := Nat.exists_eq_add_of_lt hfuel
  rw [← cutFirst_eq_none_iff, Nat.zero_add, countFrom]
  cases cutFirst piece text with
  | none => exact iff_of_true rfl rfl
  | some parts => exact iff_of_false (Nat.succ_ne_zero _) (Option.some_ne_none _)

theorem occursAt_of_cutFirst (h : cutFirst piece text = some (before, after)) :
    OccursAt piece text before.length ∧ ∀ k, OccursAt piece text k → before.length ≤ k := by
  refine ⟨⟨after, ?_⟩, fun k hk => length_le_of_prefix_drop h hk⟩
  rw [cutFirst_eq_some h, List.append_assoc, List.drop_left]

/-- One occurrence is counted exactly when there is one and all others overlap the first. -/
theorem countFrom_eq_one_iff (hne : piece ≠ []) {fuel : Nat} (hfuel : text.length < fuel) :
    countFrom piece fuel text = 1 ↔
      ∃ p, OccursAt piece text p ∧ ∀ q, OccursAt piece text q → p ≤ q ∧ q < p + piece.length := by
  cases fuel with
  | zero => omega
  | succ fuel =>
    rw [countFrom]
    cases hcut : cutFirst piece text with
    | none =>
      refine iff_of_false (Nat.zero_ne_one) ?_
      rintro ⟨p, hp, -⟩
      exact cutFirst_eq_none_iff.mp hcut hp.isInfix
    | some parts =>
      obtain ⟨before, after⟩ := parts
      have hshort := cutFirst_length_lt hne hcut
      obtain ⟨hfirst, hleast⟩ := occursAt_of_cutFirst hcut
      have hafter : text.drop (before.length + piece.length) = after := by
        rw [cutFirst_eq_some hcut, ← List.length_append, List.drop_left]
      dsimp only
      rw [Nat.succ_inj, countFrom_eq_zero_iff (by omega)]
      constructor
      · intro hnone
        refine ⟨before.length, hfirst, ?_⟩
        intro q hq
        refine ⟨hleast q hq, ?_⟩
        by_contra hfar
        push Not at hfar
        -- an occurrence behind the first would stand in what comes after it
        obtain ⟨d, rfl⟩ := Nat.exists_eq_add_of_le hfar
        rw [← occursAt_drop_iff, hafter] at hq
        exact hnone hq.isInfix
      · rintro ⟨p, hp, hall⟩ hagain
        have hp' : p = before.length := by
          have := hleast p hp
          have := (hall _ hfirst).1
          omega
        obtain ⟨d, hd⟩ := exists_occursAt hagain
        rw [← hafter, occursAt_drop_iff] at hd
        have := (hall _ hd).2
        omega

end Lib
