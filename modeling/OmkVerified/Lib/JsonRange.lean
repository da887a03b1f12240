import OmkVerified.Lib.Proofs.JsonTextProofs

/-!
# Numbers outside the range of binary64

`JSON.parse` reads a literal whose magnitude is too large as an infinity, and `JSON.stringify`
writes an infinity as `null`. A number outside the range stands for the infinity that it is read
as; inside the range rounding is still not modelled.
-/

namespace Lib

-- unfolding it would compute with numbers of three hundred digits
/-- The number is read as an infinity: it is not below `2 ^ 1024 - 2 ^ 970` in magnitude. -/
@[irreducible] def Decimal.isInfinite (n : Decimal) : Bool :=
  decide ((2 ^ 1024 - 2 ^ 970) * 10 ^ (-n.exponent).toNat ≤ n.mantissa.natAbs * 10 ^ n.exponent.toNat)

/-- The number `1e999`. -/
def Decimal.huge : Decimal := ⟨1, 999, .inl (by decide)⟩

theorem Decimal.isInfinite_huge : Decimal.huge.isInfinite = true := by decide +kernel

/-- `left <= right` on numbers. -/
def Decimal.le (left right : Decimal) : Bool :=
  let low := min left.exponent right.exponent
  decide (left.mantissa * 10 ^ (left.exponent - low).toNat ≤
    right.mantissa * 10 ^ (right.exponent - low).toNat)

namespace Json

/-- The value with its infinities written as `null`. -/
def finite : Json → Json
  | .num n => if n.isInfinite then .null else .num n
  | .arr items => .arr (finiteItems items)
  | .obj fields => .obj (finiteFields fields)
  | other => other
where
  finiteItems : List Json → List Json
    | [] => []
    | value :: items => finite value :: finiteItems items
  finiteFields : List (String × Json) → List (String × Json)
    | [] => []
    | (key, value) :: fields => (key, finite value) :: finiteFields fields

/-- `JSON.stringify(value)` for a value that may hold infinities. -/
def serialize (value : Json) : List Char := stringify (finite value)

/-- The value holds neither `null` nor an infinity. -/
def isPlain : Json → Bool
  | .null => false
  | .num n => !n.isInfinite
  | .arr items => plainItems items
  | .obj fields => plainFields fields
  | _ => true
where
  plainItems : List Json → Bool
    | [] => true
    | value :: items => isPlain value && plainItems items
  plainFields : List (String × Json) → Bool
    | [] => true
    | (_, value) :: fields => isPlain value && plainFields fields

/-- The value holds no infinity. -/
def IsFinite (value : Json) : Prop := finite value = value

/-- The value with an infinity for every `null` and `null` for every infinity. -/
def swapNulls : Json → Json
  | .null => .num .huge
  | .num n => if n.isInfinite then .null else .num n
  | .arr items => .arr (swapItems items)
  | .obj fields => .obj (swapFields fields)
  | other => other
where
  swapItems : List Json → List Json
    | [] => []
    | value :: items => swapNulls value :: swapItems items
  swapFields : List (String × Json) → List (String × Json)
    | [] => []
    | (key, value) :: fields => (key, swapNulls value) :: swapFields fields

/-! ## Keys -/

theorem finiteFields_keys (fields : List (String × Json)) :
    (finite.finiteFields fields).map Prod.fst = fields.map Prod.fst := by
  induction fields with
  | nil => rfl
  | cons field fields ih => simp [finite.finiteFields, ih]

theorem swapFields_keys (fields : List (String × Json)) :
    (swapNulls.swapFields fields).map Prod.fst = fields.map Prod.fst := by
  induction fields with
  | nil => rfl
  | cons field fields ih => simp [swapNulls.swapFields, ih]

mutual

theorem wellFormed_finite : ∀ value : Json, WellFormed value → WellFormed (finite value)
  | .null, _ | .bool _, _ | .str _, _ => trivial
  | .num n, _ => by
    unfold finite
    split_ifs <;> trivial
  | .arr items, h => wellFormedItems_finite items h
  | .obj fields, h => ⟨finiteFields_keys fields ▸ h.1, wellFormedFields_finite fields h.2⟩

theorem wellFormedItems_finite : ∀ items : List Json, WellFormed.WellFormedItems items →
    WellFormed.WellFormedItems (finite.finiteItems items)
  | [], _ => trivial
  | value :: items, h => ⟨wellFormed_finite value h.1, wellFormedItems_finite items h.2⟩

theorem wellFormedFields_finite : ∀ fields : List (String × Json),
    WellFormed.WellFormedFields fields → WellFormed.WellFormedFields (finite.finiteFields fields)
  | [], _ => trivial
  | (_, value) :: fields, h => ⟨wellFormed_finite value h.1, wellFormedFields_finite fields h.2⟩

end

mutual

theorem wellFormed_swapNulls : ∀ value : Json, WellFormed value → WellFormed (swapNulls value)
  | .null, _ | .bool _, _ | .str _, _ => trivial
  | .num n, _ => by
    unfold swapNulls
    split_ifs <;> trivial
  | .arr items, h => wellFormedItems_swapNulls items h
  | .obj fields, h => ⟨swapFields_keys fields ▸ h.1, wellFormedFields_swapNulls fields h.2⟩

theorem wellFormedItems_swapNulls : ∀ items : List Json, WellFormed.WellFormedItems items →
    WellFormed.WellFormedItems (swapNulls.swapItems items)
  | [], _ => trivial
  | value :: items, h => ⟨wellFormed_swapNulls value h.1, wellFormedItems_swapNulls items h.2⟩

theorem wellFormedFields_swapNulls : ∀ fields : List (String × Json),
    WellFormed.WellFormedFields fields → WellFormed.WellFormedFields (swapNulls.swapFields fields)
  | [], _ => trivial
  | (_, value) :: fields, h =>
    ⟨wellFormed_swapNulls value h.1, wellFormedFields_swapNulls fields h.2⟩

end

/-! ## What a serialization determines -/

mutual

/-- What is written holds no infinity. -/
theorem finite_finite : ∀ value : Json, finite (finite value) = finite value
  | .null | .bool _ | .str _ => rfl
  | .num n => by
    by_cases h : n.isInfinite = true
    · simp [finite, h]
    · simp [finite, h]
  | .arr items => by simp [finite, finiteItems_finite items]
  | .obj fields => by simp [finite, finiteFields_finite fields]

theorem finiteItems_finite : ∀ items : List Json,
    finite.finiteItems (finite.finiteItems items) = finite.finiteItems items
  | [] => rfl
  | value :: items => by
    simp [finite.finiteItems, finite_finite value, finiteItems_finite items]

theorem finiteFields_finite : ∀ fields : List (String × Json),
    finite.finiteFields (finite.finiteFields fields) = finite.finiteFields fields
  | [] => rfl
  | (key, value) :: fields => by
    simp [finite.finiteFields, finite_finite value, finiteFields_finite fields]

end

mutual

/-- A value is written like its swapped copy. -/
theorem finite_swapNulls : ∀ value : Json, finite (swapNulls value) = finite value
  | .null => by
    show finite (.num .huge) = .null
    simp [finite, Decimal.isInfinite_huge]
  | .bool _ | .str _ => rfl
  | .num n => by
    unfold swapNulls
    by_cases h : n.isInfinite = true
    · simp [finite, h]
    · simp [h]
  | .arr items => by simp [swapNulls, finite, finiteItems_swapItems items]
  | .obj fields => by simp [swapNulls, finite, finiteFields_swapFields fields]

theorem finiteItems_swapItems : ∀ items : List Json,
    finite.finiteItems (swapNulls.swapItems items) = finite.finiteItems items
  | [] => rfl
  | value :: items => by
    simp [swapNulls.swapItems, finite.finiteItems, finite_swapNulls value,
      finiteItems_swapItems items]

theorem finiteFields_swapFields : ∀ fields : List (String × Json),
    finite.finiteFields (swapNulls.swapFields fields) = finite.finiteFields fields
  | [] => rfl
  | (key, value) :: fields => by
    simp [swapNulls.swapFields, finite.finiteFields, finite_swapNulls value,
      finiteFields_swapFields fields]

end

mutual

/-- Swapping changes every value that is not plain. -/
theorem isPlain_of_swapNulls : ∀ value : Json, swapNulls value = value → isPlain value = true
  | .null, h => by simp [swapNulls] at h
  | .bool _, _ | .str _, _ => rfl
  | .num n, h => by
    unfold swapNulls at h
    split_ifs at h with hn
    simp [isPlain, hn]
  | .arr items, h => plainItems_of_swapItems items (Json.arr.inj h)
  | .obj fields, h => plainFields_of_swapFields fields (Json.obj.inj h)

theorem plainItems_of_swapItems : ∀ items : List Json, swapNulls.swapItems items = items →
    isPlain.plainItems items = true
  | [], _ => rfl
  | value :: items, h => by
    obtain ⟨hv, hi⟩ := List.cons.inj h
    exact Bool.and_eq_true_iff.mpr ⟨isPlain_of_swapNulls value hv, plainItems_of_swapItems items hi⟩

theorem plainFields_of_swapFields : ∀ fields : List (String × Json),
    swapNulls.swapFields fields = fields → isPlain.plainFields fields = true
  | [], _ => rfl
  | (key, value) :: fields, h => by
    obtain ⟨hv, hf⟩ := List.cons.inj h
    exact Bool.and_eq_true_iff.mpr
      ⟨isPlain_of_swapNulls value (Prod.mk.inj hv).2, plainFields_of_swapFields fields hf⟩

end

mutual

/-- Only a plain value itself is written like it. -/
theorem eq_of_finite_eq : ∀ value other : Json, isPlain value = true →
    finite other = finite value → other = value
  | .null, _, h, _ => by simp [isPlain] at h
  | .bool b, other, _, heq => by
    cases other with
    | num n =>
      unfold finite at heq
      split_ifs at heq
    | _ => first | exact heq | simp [finite] at heq
  | .str s, other, _, heq => by
    cases other with
    | num n =>
      unfold finite at heq
      split_ifs at heq
    | _ => first | exact heq | simp [finite] at heq
  | .num n, other, h, heq => by
    have hn : n.isInfinite = false := by simpa [isPlain] using h
    cases other with
    | num m =>
      by_cases hm : m.isInfinite = true
      · simp [finite, hm, hn] at heq
      · simpa [finite, hm, hn] using heq
    | _ => simp [finite, hn] at heq
  | .arr items, other, h, heq => by
    cases other with
    | num m =>
      unfold finite at heq
      split_ifs at heq
    | arr others => rw [eq_of_finiteItems_eq items others h (Json.arr.inj heq)]
    | _ => simp [finite] at heq
  | .obj fields, other, h, heq => by
    cases other with
    | num m =>
      unfold finite at heq
      split_ifs at heq
    | obj others => rw [eq_of_finiteFields_eq fields others h (Json.obj.inj heq)]
    | _ => simp [finite] at heq

theorem eq_of_finiteItems_eq : ∀ items others : List Json, isPlain.plainItems items = true →
    finite.finiteItems others = finite.finiteItems items → others = items
  | [], others, _, heq => by
    cases others with
    | nil => rfl
    | cons other others => simp [finite.finiteItems] at heq
  | value :: items, others, h, heq => by
    cases others with
    | nil => simp [finite.finiteItems] at heq
    | cons other others =>
      obtain ⟨hv, hi⟩ := Bool.and_eq_true_iff.mp h
      obtain ⟨hv', hi'⟩ := List.cons.inj heq
      rw [eq_of_finite_eq value other hv hv', eq_of_finiteItems_eq items others hi hi']

theorem eq_of_finiteFields_eq : ∀ fields others : List (String × Json),
    isPlain.plainFields fields = true →
    finite.finiteFields others = finite.finiteFields fields → others = fields
  | [], others, _, heq => by
    cases others with
    | nil => rfl
    | cons other others => simp [finite.finiteFields] at heq
  | (key, value) :: fields, others, h, heq => by
    cases others with
    | nil => simp [finite.finiteFields] at heq
    | cons other others =>
      obtain ⟨hv, hf⟩ := Bool.and_eq_true_iff.mp h
      obtain ⟨hv', hf'⟩ := List.cons.inj heq
      obtain ⟨hkey, hvalue⟩ := Prod.mk.inj hv'
      rw [eq_of_finiteFields_eq fields others hf hf',
        ← eq_of_finite_eq value other.2 hv hvalue, ← hkey]

end

theorem stringify_injective {left right : Json} (hl : WellFormed left) (hr : WellFormed right)
    (h : stringify left = stringify right) : left = right := by
  have hparse := parse_stringify left hl
  rw [h, parse_stringify right hr] at hparse
  exact (Option.some.inj hparse).symm

/-- Values that are written alike differ at most in where an infinity stands for `null`. -/
theorem finite_eq_of_serialize_eq {left right : Json} (hl : WellFormed left)
    (hr : WellFormed right) (h : serialize left = serialize right) : finite left = finite right :=
  stringify_injective (wellFormed_finite left hl) (wellFormed_finite right hr) h

end Json

end Lib
