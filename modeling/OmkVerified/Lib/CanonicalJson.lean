import OmkVerified.Lib.JsNumber
import OmkVerified.Lib.Proofs.JsonTextProofs

/-!
# Canonical JSON

The value with the keys of every object in the order of their UTF-16 code units, and its text. An
ECMAScript object is the same data whatever the order of its keys, so a canonical value stands for
all values that differ from it only in that order.
-/

namespace Lib

theorem unitsLt_iff (left right : List Nat) : unitsLt left right = true ↔ left < right := by
  induction left generalizing right with
  | nil => cases right <;> simp [unitsLt]
  | cons a left ih =>
    cases right with
    | nil => simp [unitsLt]
    | cons b right =>
      simp only [unitsLt, List.cons_lt_cons_iff]
      split_ifs with h₁ h₂
      · simp [h₁]
      · simp only [false_iff]
        omega
      · rw [ih]
        constructor
        · exact fun h => .inr ⟨by omega, h⟩
        · rintro (h | ⟨-, h⟩)
          · omega
          · exact h

namespace Json

/-- The order of `Object.keys(object).sort()`. -/
def keyLe (left right : String × Json) : Prop := jsLt right.1 left.1 = false

instance : DecidableRel keyLe := fun _ _ => inferInstanceAs (Decidable (_ = false))

theorem keyLe_iff (left right : String × Json) :
    keyLe left right ↔ utf16 left.1.toList ≤ utf16 right.1.toList := by
  unfold keyLe jsLt
  rw [← Bool.not_eq_true, unitsLt_iff, not_lt]

instance : Std.Total keyLe :=
  ⟨fun left right => by simpa only [keyLe_iff] using le_total _ _⟩

instance : IsTrans (String × Json) keyLe :=
  ⟨fun a b c hab hbc => by
    rw [keyLe_iff] at *
    exact hab.trans hbc⟩

/-- The fields in the order of their keys. -/
def sortFields (fields : List (String × Json)) : List (String × Json) :=
  fields.insertionSort keyLe

/-- The value with sorted keys. -/
def canonical : Json → Json
  | .arr items => .arr (canonicalItems items)
  | .obj fields => .obj (sortFields (canonicalFields fields))
  | .null => .null
  | .bool b => .bool b
  | .num n => .num n
  | .str s => .str s
where
  canonicalItems : List Json → List Json
    | [] => []
    | value :: items => canonical value :: canonicalItems items
  canonicalFields : List (String × Json) → List (String × Json)
    | [] => []
    | (key, value) :: fields => (key, canonical value) :: canonicalFields fields

/-- `canonicalJson(value)`. -/
def canonicalJson (value : Json) : List Char := stringify (canonical value)

/-! ## The fields of a canonical object -/

theorem canonicalItems_eq (items : List Json) : canonical.canonicalItems items = items.map canonical := by
  induction items with
  | nil => rfl
  | cons value items ih => simp [canonical.canonicalItems, ih]

theorem canonicalFields_eq (fields : List (String × Json)) :
    canonical.canonicalFields fields = fields.map fun f => (f.1, canonical f.2) := by
  induction fields with
  | nil => rfl
  | cons field fields ih => simp [canonical.canonicalFields, ih]

theorem canonicalFields_keys (fields : List (String × Json)) :
    (canonical.canonicalFields fields).map Prod.fst = fields.map Prod.fst := by
  simp [canonicalFields_eq, Function.comp_def]

theorem sortFields_perm (fields : List (String × Json)) : (sortFields fields).Perm fields :=
  List.perm_insertionSort keyLe fields

theorem sortFields_sortFields (fields : List (String × Json)) :
    sortFields (sortFields fields) = sortFields fields :=
  (List.pairwise_insertionSort keyLe fields).insertionSort_eq

theorem lookup_eq_some_iff_mem {fields : List (String × Json)} (h : (fields.map Prod.fst).Nodup)
    {key : String} {value : Json} : fields.lookup key = some value ↔ (key, value) ∈ fields := by
  induction fields with
  | nil => simp
  | cons field fields ih =>
    obtain ⟨k, v⟩ := field
    obtain ⟨hk, h⟩ := List.nodup_cons.mp h
    rw [lookup_cons_eq]
    by_cases hkey : key = k
    · subst hkey
      have hnot : (key, value) ∉ fields := fun hm => hk (List.mem_map.mpr ⟨_, hm, rfl⟩)
      simp [hnot, eq_comm]
    · simp [hkey, ih h]

theorem lookup_perm {fields fields' : List (String × Json)} (hp : fields.Perm fields')
    (h : (fields.map Prod.fst).Nodup) (key : String) : fields.lookup key = fields'.lookup key := by
  have h' : (fields'.map Prod.fst).Nodup := (hp.map Prod.fst).nodup h
  ext value
  rw [lookup_eq_some_iff_mem h, lookup_eq_some_iff_mem h', hp.mem_iff]

theorem lookup_canonicalFields (fields : List (String × Json)) (key : String) :
    (canonical.canonicalFields fields).lookup key = (fields.lookup key).map canonical := by
  induction fields with
  | nil => rfl
  | cons field fields ih =>
    rw [canonical.canonicalFields, lookup_cons_eq, lookup_cons_eq, ih]
    split_ifs <;> rfl

@[simp]
theorem isRecord_canonical (value : Json) : (canonical value).isRecord = value.isRecord := by
  cases value <;> rfl

theorem get?_canonical {value : Json} (h : WellFormed value) (key : String) :
    (canonical value).get? key = (value.get? key).map canonical := by
  cases value with
  | obj fields =>
    show (sortFields (canonical.canonicalFields fields)).lookup key = (fields.lookup key).map canonical
    have hn : ((sortFields (canonical.canonicalFields fields)).map Prod.fst).Nodup := by
      rw [((sortFields_perm _).map Prod.fst).nodup_iff, canonicalFields_keys]
      exact h.1
    rw [lookup_perm (sortFields_perm _) hn, lookup_canonicalFields]
  | _ => rfl

/-! ## Canonical values are canonical -/

mutual

theorem canonical_canonical : ∀ value : Json, canonical (canonical value) = canonical value
  | .null | .bool _ | .num _ | .str _ => rfl
  | .arr items => by
    show Json.arr _ = Json.arr _
    rw [canonicalItems_canonicalItems items]
  | .obj fields => by
    show Json.obj _ = Json.obj _
    have hmap : canonical.canonicalFields (sortFields (canonical.canonicalFields fields)) =
        sortFields (canonical.canonicalFields (canonical.canonicalFields fields)) := by
      rw [canonicalFields_eq, canonicalFields_eq (canonical.canonicalFields fields)]
      unfold sortFields
      refine List.map_insertionSort keyLe keyLe _ _ fun a _ b _ => ?_
      rfl
    rw [hmap, sortFields_sortFields, canonicalFields_canonicalFields fields]

theorem canonicalItems_canonicalItems : ∀ items : List Json,
    canonical.canonicalItems (canonical.canonicalItems items) = canonical.canonicalItems items
  | [] => rfl
  | value :: items => by
    simp only [canonical.canonicalItems, canonical_canonical value,
      canonicalItems_canonicalItems items]

theorem canonicalFields_canonicalFields : ∀ fields : List (String × Json),
    canonical.canonicalFields (canonical.canonicalFields fields) = canonical.canonicalFields fields
  | [] => rfl
  | (key, value) :: fields => by
    simp only [canonical.canonicalFields, canonical_canonical value,
      canonicalFields_canonicalFields fields]

end

mutual

theorem wellFormed_canonical : ∀ value : Json, WellFormed value → WellFormed (canonical value)
  | .null, _ | .bool _, _ | .num _, _ | .str _, _ => trivial
  | .arr items, h => wellFormedItems_canonical items h
  | .obj fields, h => by
    refine ⟨?_, ?_⟩
    · rw [((sortFields_perm _).map Prod.fst).nodup_iff, canonicalFields_keys]
      exact h.1
    · rw [wellFormedFields_iff]
      intro field hf
      exact wellFormedFields_canonical fields h.2 field ((sortFields_perm _).mem_iff.mp hf)

theorem wellFormedItems_canonical : ∀ items : List Json, WellFormed.WellFormedItems items →
    WellFormed.WellFormedItems (canonical.canonicalItems items)
  | [], _ => trivial
  | value :: items, h => ⟨wellFormed_canonical value h.1, wellFormedItems_canonical items h.2⟩

theorem wellFormedFields_canonical : ∀ fields : List (String × Json),
    WellFormed.WellFormedFields fields →
    ∀ field ∈ canonical.canonicalFields fields, WellFormed field.2
  | [], _, field, hf => by simp [canonical.canonicalFields] at hf
  | (key, value) :: fields, h, field, hf => by
    rcases List.mem_cons.mp hf with rfl | hf
    · exact wellFormed_canonical value h.1
    · exact wellFormedFields_canonical fields h.2 field hf

end

theorem parse_canonicalJson {value : Json} (h : WellFormed value) :
    parse (canonicalJson value) = some (canonical value) :=
  parse_stringify _ (wellFormed_canonical value h)

theorem canonicalJson_inj {left right : Json} (hl : WellFormed left) (hr : WellFormed right)
    (h : canonicalJson left = canonicalJson right) : canonical left = canonical right := by
  have hp := parse_canonicalJson hl
  rw [h, parse_canonicalJson hr] at hp
  exact (Option.some.inj hp).symm

@[simp]
theorem canonicalJson_canonical (value : Json) :
    canonicalJson (canonical value) = canonicalJson value := by
  unfold canonicalJson
  rw [canonical_canonical]

end Json

end Lib
