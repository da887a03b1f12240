import OmkVerified.Ai.Proofs.ValidationProofs

/-!
# Coercion leaves valid values as they are

A value of the right type is never converted, and every part of a valid value is valid for the schema
that coerces it. A union is the exception: its members are tried in order, so an earlier member can
accept what it has made of a value that a later member accepts as it is.
-/

namespace Ai.Validation

open Lib

variable {α β : Type} {compile : Schema → Option Validator}
  {meaning : List (String × Json) → Json → Bool}

/-- The run returns a value that satisfies `Q`, from any memory. -/
def Returns (x : Run α) (Q : α → Prop) : Prop := ∀ m, ∃ a m', x m = .ok a m' ∧ Q a

theorem Returns.pure {a : α} {Q : α → Prop} (h : Q a) : Returns (pure a : Run α) Q :=
  fun m => ⟨a, m, rfl, h⟩

theorem Returns.bind {x : Run α} {f : α → Run β} {Q : α → Prop} {R : β → Prop} (hx : Returns x Q)
    (hf : ∀ a, Q a → Returns (f a) R) : Returns (x >>= f) R := by
  intro m
  obtain ⟨a, m', hres, ha⟩ := hx m
  obtain ⟨b, m'', hres', hb⟩ := hf a ha m'
  refine ⟨b, m'', ?_, hb⟩
  rw [run_bind, hres]
  exact hres'

theorem Returns.map {x : Run α} {g : α → β} {Q : α → Prop} {R : β → Prop} (hx : Returns x Q)
    (hg : ∀ a, Q a → R (g a)) : Returns (g <$> x) R := by
  rw [map_eq_pure_bind]
  exact hx.bind fun a ha => Returns.pure (hg a ha)

theorem returns_write (id : Nat) : Returns (write id) fun _ => True :=
  fun _ => ⟨(), _, rfl, trivial⟩

theorem returns_allocate : Returns allocate fun _ => True :=
  fun m => ⟨m.next, _, rfl, trivial⟩

/-! ## Contents -/

/-- Elements with the contents of the JSON values. -/
def ItemsAre (items : List Value) (jsons : List Json) : Prop :=
  List.Forall₂ (fun value json => value.json? = some json) items jsons

/-- Fields with the keys and the contents of the JSON fields. -/
def FieldsAre (fields : List (String × Value)) (jsons : List (String × Json)) : Prop :=
  List.Forall₂ (fun field json => field.1 = json.1 ∧ field.2.json? = some json.2) fields jsons

theorem itemsJson?_iff {items : List Value} {jsons : List Json} :
    Value.json?.itemsJson? items = some jsons ↔ ItemsAre items jsons := by
  induction items generalizing jsons with
  | nil =>
    constructor
    · intro h
      cases h
      exact .nil
    · intro h
      cases h
      rfl
  | cons value items ih =>
    unfold Value.json?.itemsJson?
    constructor
    · intro h
      simp only [Option.bind_eq_bind, Option.bind_eq_some_iff] at h
      obtain ⟨json, hjson, rest, hrest, heq⟩ := h
      cases heq
      exact .cons hjson (ih.mp hrest)
    · intro h
      cases h with
      | cons hjson hrest =>
        rw [hjson, ih.mpr hrest]
        rfl

variable {jsons : List (String × Json)} {json : Json}

theorem fieldsJson?_iff {fields : List (String × Value)} :
    Value.json?.fieldsJson? fields = some jsons ↔ FieldsAre fields jsons := by
  induction fields generalizing jsons with
  | nil =>
    constructor
    · intro h
      cases h
      exact .nil
    · intro h
      cases h
      rfl
  | cons field fields ih =>
    obtain ⟨key, value⟩ := field
    unfold Value.json?.fieldsJson?
    constructor
    · intro h
      simp only [Option.bind_eq_bind, Option.bind_eq_some_iff] at h
      obtain ⟨json, hjson, rest, hrest, heq⟩ := h
      cases heq
      exact .cons ⟨rfl, hjson⟩ (ih.mp hrest)
    · intro h
      cases h with
      | @cons _ json _ _ hhead hrest =>
        obtain ⟨key', json⟩ := json
        obtain ⟨hkey, hjson⟩ := hhead
        dsimp only at hkey hjson
        subst hkey
        rw [hjson, ih.mpr hrest]
        rfl

theorem json?_arr_iff {id : Nat} {items : List Value} :
    (Value.arr id items).json? = some json ↔ ∃ jsons, json = .arr jsons ∧ ItemsAre items jsons := by
  unfold Value.json?
  rw [Option.map_eq_some_iff]
  constructor
  · rintro ⟨jsons, hjsons, rfl⟩
    exact ⟨jsons, rfl, (itemsJson?_iff).mp hjsons⟩
  · rintro ⟨jsons, rfl, hitems⟩
    exact ⟨jsons, (itemsJson?_iff).mpr hitems, rfl⟩

theorem json?_obj_iff {id : Nat} {fields : List (String × Value)} :
    (Value.obj id fields).json? = some json ↔ ∃ jsons, json = .obj jsons ∧ FieldsAre fields jsons := by
  unfold Value.json?
  rw [Option.map_eq_some_iff]
  constructor
  · rintro ⟨jsons, hjsons, rfl⟩
    exact ⟨jsons, rfl, (fieldsJson?_iff).mp hjsons⟩
  · rintro ⟨jsons, rfl, hfields⟩
    exact ⟨jsons, (fieldsJson?_iff).mpr hfields, rfl⟩

mutual

/-- A clone has the same contents. -/
theorem returns_structuredClone : ∀ (value : Value) (json : Json), value.json? = some json →
    Returns (structuredClone value) fun value' => value'.json? = some json
  | .arr id items, json, h => by
    obtain ⟨jsons, rfl, hitems⟩ := (json?_arr_iff).mp h
    unfold structuredClone
    refine returns_allocate.bind fun id' _ => ?_
    refine (returns_cloneItems items jsons hitems).bind fun items' hitems' => ?_
    exact Returns.pure ((json?_arr_iff).mpr ⟨jsons, rfl, hitems'⟩)
  | .obj id fields, json, h => by
    obtain ⟨jsons, rfl, hfields⟩ := (json?_obj_iff).mp h
    unfold structuredClone
    refine returns_allocate.bind fun id' _ => ?_
    refine (returns_cloneFields fields jsons hfields).bind fun fields' hfields' => ?_
    exact Returns.pure ((json?_obj_iff).mpr ⟨jsons, rfl, hfields'⟩)
  | .method name, json, h => by cases h
  | .null, json, h => Returns.pure h
  | .bool b, json, h => Returns.pure h
  | .num k, json, h => Returns.pure h
  | .str s, json, h => Returns.pure h

theorem returns_cloneItems : ∀ (items : List Value) (jsons : List Json), ItemsAre items jsons →
    Returns (structuredClone.cloneItems items) fun items' => ItemsAre items' jsons
  | [], jsons, h => Returns.pure h
  | value :: items, _, .cons hjson hrest => by
    unfold structuredClone.cloneItems
    refine (returns_structuredClone value _ hjson).bind fun value' hvalue => ?_
    refine (returns_cloneItems items _ hrest).bind fun items' hitems => ?_
    exact Returns.pure (.cons hvalue hitems)

theorem returns_cloneFields : ∀ (fields : List (String × Value)) (jsons : List (String × Json)),
    FieldsAre fields jsons →
    Returns (structuredClone.cloneFields fields) fun fields' => FieldsAre fields' jsons
  | [], jsons, h => Returns.pure h
  | (key, value) :: fields, _, .cons hjson hrest => by
    unfold structuredClone.cloneFields
    refine (returns_structuredClone value _ hjson.2).bind fun value' hvalue => ?_
    refine (returns_cloneFields fields _ hrest).bind fun fields' hfields => ?_
    exact Returns.pure (.cons ⟨hjson.1, hvalue⟩ hfields)

end

theorem FieldsAre.lookup {fields : List (String × Value)} (h : FieldsAre fields jsons)
    (key : String) :
    (fields.lookup key = none ∧ jsons.lookup key = none) ∨
      ∃ value json, fields.lookup key = some value ∧ jsons.lookup key = some json ∧
        value.json? = some json := by
  induction h with
  | nil => exact .inl ⟨rfl, rfl⟩
  | @cons field json fields jsons hhead hrest ih =>
    obtain ⟨k, value⟩ := field
    obtain ⟨k', json⟩ := json
    obtain ⟨hkey, hjson⟩ := hhead
    dsimp only at hkey hjson
    subst hkey
    by_cases hk : key = k
    · subst hk
      exact .inr ⟨value, json, List.lookup_cons_self, List.lookup_cons_self, hjson⟩
    · have hb : (key == k) = false := beq_eq_false_iff_ne.mpr hk
      rw [List.lookup, List.lookup, hb]
      exact ih

/-- A property is written with a value of the same contents. -/
theorem FieldsAre.setProperty {fields : List (String × Value)} (h : FieldsAre fields jsons)
    {key : String} {value : Value} (hlookup : jsons.lookup key = some json)
    (hvalue : value.json? = some json) : FieldsAre (setProperty fields key value) jsons := by
  induction h with
  | nil => exact absurd hlookup (by simp)
  | @cons field json' fields jsons hhead hrest ih =>
    obtain ⟨k, v⟩ := field
    obtain ⟨k', json'⟩ := json'
    obtain ⟨hkey, hjson⟩ := hhead
    dsimp only at hkey hjson
    subst hkey
    unfold Validation.setProperty
    by_cases hk : k = key
    · subst hk
      rw [List.lookup_cons_self] at hlookup
      cases hlookup
      rw [if_pos rfl]
      exact .cons ⟨rfl, hvalue⟩ hrest
    · have hb : (key == k) = false := beq_eq_false_iff_ne.mpr fun he => hk he.symm
      rw [List.lookup, hb] at hlookup
      rw [if_neg hk]
      exact .cons ⟨rfl, hjson⟩ (ih hlookup)

/-! ## Primitive values -/

theorem matchesJsonType_eq {value : Value} (h : value.json? = some json) (type : String) :
    matchesJsonType value type = hasType json type := by
  unfold matchesJsonType hasType
  cases value with
  | arr id items =>
    obtain ⟨jsons, rfl, -⟩ := (json?_arr_iff).mp h
    split <;> rfl
  | obj id fields =>
    obtain ⟨jsons, rfl, -⟩ := (json?_obj_iff).mp h
    split <;> rfl
  | method name => cases h
  | _ =>
    cases h
    split <;> rfl

theorem coercePrimitiveByType_of_hasType {value : Value} (h : value.json? = some json)
    {type : String} (htype : hasType json type = true) :
    coercePrimitiveByType value type = value := by
  cases hrecord : value.isRecord with
  | true => exact coercePrimitiveByType_record type hrecord
  | false =>
    unfold coercePrimitiveByType
    cases value with
    | arr id items => cases hrecord
    | obj id fields => cases hrecord
    | method name => cases h
    | _ =>
      cases h
      split <;> first | rfl | simp [hasType] at htype

/-- The step for `type` leaves a value of one of the types as it is. -/
theorem coerceByTypes_of_typeValid {value : Value} (h : value.json? = some json)
    {type : TypeKeyword} (htype : typeValid type json = true) :
    coerceByTypes value (getSchemaTypes type) = value := by
  have hone : ∀ t, hasType json t = true → coerceFirst value [t] = value := by
    intro t ht
    unfold coerceFirst coerceFirst
    rw [coercePrimitiveByType_of_hasType h ht]
    dsimp only
    split_ifs <;> rfl
  have hany : ∀ ts : List String, ts.any (matchesJsonType value) = ts.any (hasType json) := by
    intro ts
    congr 1
    funext t
    exact matchesJsonType_eq h t
  unfold coerceByTypes
  dsimp only
  cases type with
  | absent => rfl
  | one t => exact hone t htype
  | several ts =>
    unfold getSchemaTypes
    rw [hany]
    by_cases hlen : 1 < ts.length
    · rw [if_pos]
      simp only [Bool.and_eq_true, decide_eq_true_eq]
      exact ⟨hlen, htype⟩
    · rw [if_neg (by simp [hlen])]
      rcases ts with _ | ⟨t, _ | ⟨t', ts⟩⟩
      · rfl
      · exact hone t (by simpa [typeValid] using htype)
      · simp at hlen

/-! ## Containers -/

theorem returns_forItem {f : Value → Run Value} {id : Nat} {itemSchema : Bool} {value : Value}
    (h : value.json? = some json)
    (hf : itemSchema = true → Returns (f value) fun value' => value'.json? = some json) :
    Returns (forItem f id itemSchema value) fun value' => value'.json? = some json := by
  unfold forItem
  split_ifs with hschema
  · refine (hf hschema).bind fun value' hvalue => ?_
    refine (returns_write id).bind fun _ _ => ?_
    exact Returns.pure hvalue
  · exact Returns.pure h

theorem returns_forEachItem {f : Value → Run Value} {id : Nat} {items : Bool}
    {elements : List Value} {jsons : List Json} (h : ItemsAre elements jsons)
    (hf : ∀ json ∈ jsons, ∀ value, value.json? = some json →
      Returns (f value) fun value' => value'.json? = some json) :
    Returns (forEachItem f id items elements) fun elements' => ItemsAre elements' jsons := by
  induction h with
  | nil => exact Returns.pure .nil
  | @cons value json elements jsons hjson hrest ih =>
    unfold forEachItem
    refine (returns_forItem hjson fun _ => hf json (List.mem_cons_self ..) value hjson).bind
      fun value' hvalue => ?_
    refine (ih fun json' hmem => hf json' (List.mem_cons_of_mem _ hmem)).bind
      fun elements' helements => ?_
    exact Returns.pure (.cons hvalue helements)

theorem returns_forOtherEntries {f : Value → Run Value} {id : Nat} {additionalProperties : Bool}
    {definedKeys : List String} {entries fields : List (String × Value)}
    {entryJsons : List (String × Json)} (hentries : FieldsAre entries entryJsons)
    (hfields : FieldsAre fields jsons)
    (hlookup : ∀ entry ∈ entryJsons, jsons.lookup entry.1 = some entry.2)
    (hf : ∀ entry ∈ entryJsons, entry.1 ∉ definedKeys → ∀ value, value.json? = some entry.2 →
      Returns (f value) fun value' => value'.json? = some entry.2) :
    Returns (forOtherEntries f id additionalProperties definedKeys entries fields) fun fields' =>
      FieldsAre fields' jsons := by
  induction hentries generalizing fields with
  | nil => exact Returns.pure hfields
  | @cons entry json entries jsons' hhead hrest ih =>
    obtain ⟨key, value⟩ := entry
    obtain ⟨key', json⟩ := json
    obtain ⟨hkey, hjson⟩ := hhead
    dsimp only at hkey hjson
    subst hkey
    have htail : ∀ {fields' : List (String × Value)}, FieldsAre fields' jsons →
        Returns (forOtherEntries f id additionalProperties definedKeys entries fields') fun fields'' =>
          FieldsAre fields'' jsons := fun hfields' =>
      ih hfields' (fun entry hmem => hlookup entry (List.mem_cons_of_mem _ hmem))
        fun entry hmem => hf entry (List.mem_cons_of_mem _ hmem)
    unfold forOtherEntries
    split_ifs with hskip
    · exact htail hfields
    · rw [not_or] at hskip
      refine (hf (key, json) (List.mem_cons_self ..) hskip.2 value hjson).bind fun value' hvalue => ?_
      refine (returns_write id).bind fun _ _ => ?_
      exact htail (hfields.setProperty (hlookup (key, json) (List.mem_cons_self ..)) hvalue)

/-! ## Every part of a valid value is valid -/

theorem validCount_le (schemas : List Schema) (json : Json) :
    validCount meaning schemas json ≤ schemas.length := by
  induction schemas with
  | nil => exact Nat.le_refl 0
  | cons schema schemas ih =>
    unfold validCount
    rw [List.length_cons]
    split_ifs <;> omega

theorem validCount_eq_length {schema : Schema} {schemas : List Schema}
    (h : validCount meaning (schema :: schemas) json = (schema :: schemas).length) :
    valid meaning schema json = true ∧ validCount meaning schemas json = schemas.length := by
  have hle := @validCount_le meaning schemas json
  unfold validCount at h
  rw [List.length_cons] at h
  split_ifs at h with hvalid
  · exact ⟨hvalid, by omega⟩
  · omega

theorem wellFormedItems_of_mem {jsons : List Json} (h : Json.WellFormed.WellFormedItems jsons)
    (hmem : json ∈ jsons) : json.WellFormed := by
  induction jsons with
  | nil => exact absurd hmem List.not_mem_nil
  | cons head jsons ih =>
    rcases List.mem_cons.mp hmem with rfl | hmem
    · exact h.1
    · exact ih h.2 hmem

theorem wellFormedFields_of_mem {fields : List (String × Json)}
    (h : Json.WellFormed.WellFormedFields fields) {field : String × Json} (hmem : field ∈ fields) :
    field.2.WellFormed := by
  induction fields with
  | nil => exact absurd hmem List.not_mem_nil
  | cons head fields ih =>
    rcases List.mem_cons.mp hmem with rfl | hmem
    · exact h.1
    · exact ih h.2 hmem

theorem lookup_of_mem {fields : List (String × Json)} (hnodup : (fields.map Prod.fst).Nodup)
    {field : String × Json} (hmem : field ∈ fields) : fields.lookup field.1 = some field.2 := by
  induction fields with
  | nil => exact absurd hmem List.not_mem_nil
  | cons head fields ih =>
    obtain ⟨k, v⟩ := head
    rw [List.map_cons, List.nodup_cons] at hnodup
    rcases List.mem_cons.mp hmem with rfl | hmem
    · exact List.lookup_cons_self
    · have hne : field.1 ≠ k := fun he => hnodup.1 (List.mem_map.mpr ⟨field, hmem, he⟩)
      have hb : (field.1 == k) = false := beq_eq_false_iff_ne.mpr hne
      rw [List.lookup, hb]
      exact ih hnodup.2 hmem

/-! ## Coercion of a valid value -/

mutual

theorem returns_coerceWithJsonSchema (hcompile : DecidesMeaning meaning compile) :
    ∀ (schema : Schema) (json : Json) (value : Value), json.WellFormed →
      valid meaning schema json = true → Untempted meaning compile schema json →
      value.json? = some json →
      Returns (coerceWithJsonSchema compile schema value) fun value' => value'.json? = some json
  | .bool b, json, value, _, _, _, h => by
    unfold coerceWithJsonSchema
    exact Returns.pure h
  | .object kind type properties items additionalProperties allOf anyOf oneOf other, json, value,
      hwf, hvalid, huntempted, h => by
    unfold valid at hvalid
    unfold Untempted at huntempted
    simp only [Bool.and_eq_true, decide_eq_true_eq] at hvalid
    obtain ⟨⟨⟨⟨⟨htype, hparts⟩, hallOf⟩, -⟩, -⟩, -⟩ := hvalid
    obtain ⟨hall, hany, hone, hinside⟩ := huntempted
    unfold coerceWithJsonSchema
    refine (returns_coerceAllOf hcompile allOf json value hwf hallOf hall h).bind fun v₁ h₁ => ?_
    refine (returns_coerceWithUnionSchema hcompile anyOf json v₁ hwf hany h₁).bind fun v₂ h₂ => ?_
    refine (returns_coerceWithUnionSchema hcompile oneOf json v₂ hwf hone h₂).bind fun v₃ h₃ => ?_
    dsimp only
    rw [coerceByTypes_of_typeValid h₃ htype]
    cases v₃ with
    | obj id fields =>
      obtain ⟨jsons, rfl, hfields⟩ := (json?_obj_iff).mp h₃
      dsimp only at hparts hinside ⊢
      split_ifs with hobject
      · obtain ⟨hproperties, hadditional⟩ := hinside hobject
        rw [Bool.and_eq_true] at hparts
        refine (returns_coerceProperties hcompile properties id jsons fields hwf.2 hparts.1
          hproperties hfields).bind fun fields' hfields' => ?_
        match additionalProperties with
        | some schema =>
          dsimp only at hadditional hparts ⊢
          rw [List.all_eq_true] at hparts
          refine (returns_forOtherEntries hfields' hfields' (fun field hmem =>
            lookup_of_mem hwf.1 hmem) fun field hmem hnot v hv => ?_).map fun fields'' hfields'' =>
              (json?_obj_iff).mpr ⟨jsons, rfl, hfields''⟩
          have hfield := hparts.2 field hmem
          rw [Bool.or_eq_true, decide_eq_true_eq] at hfield
          rcases hfield with hdefined | hfield
          · exact absurd hdefined hnot
          · exact returns_coerceWithJsonSchema hcompile schema field.2 v
              (wellFormedFields_of_mem hwf.2 hmem) hfield (hadditional field hmem hnot) hv
        | none => exact Returns.pure ((json?_obj_iff).mpr ⟨jsons, rfl, hfields'⟩)
      · exact Returns.pure h₃
    | arr id elements =>
      obtain ⟨jsons, rfl, helements⟩ := (json?_arr_iff).mp h₃
      dsimp only at hparts hinside ⊢
      split_ifs with harray
      · have hitems := hinside harray
        match items with
        | .tuple schemas =>
          exact (returns_coerceTuple hcompile schemas id jsons elements hwf hparts hitems
            helements).map fun elements' helements' => (json?_arr_iff).mpr ⟨jsons, rfl, helements'⟩
        | .each schema =>
          dsimp only at hitems hparts ⊢
          rw [List.all_eq_true] at hparts
          exact (returns_forEachItem helements fun json hmem v hv =>
            returns_coerceWithJsonSchema hcompile schema json v (wellFormedItems_of_mem hwf hmem)
              (hparts json hmem) (hitems json hmem) hv).map fun elements' helements' =>
                (json?_arr_iff).mpr ⟨jsons, rfl, helements'⟩
        | .absent => exact Returns.pure h₃
      · exact Returns.pure h₃
    | _ => exact Returns.pure h₃

theorem returns_coerceAllOf (hcompile : DecidesMeaning meaning compile) :
    ∀ (schemas : List Schema) (json : Json) (value : Value), json.WellFormed →
      validCount meaning schemas json = schemas.length →
      AllUntempted meaning compile schemas json → value.json? = some json →
      Returns (coerceAllOf compile schemas value) fun value' => value'.json? = some json
  | [], json, value, _, _, _, h => by
    unfold coerceAllOf
    exact Returns.pure h
  | nested :: schemas, json, value, hwf, hvalid, huntempted, h => by
    obtain ⟨hhead, hrest⟩ := validCount_eq_length hvalid
    unfold AllUntempted at huntempted
    unfold coerceAllOf
    refine (returns_coerceWithJsonSchema hcompile nested json value hwf hhead huntempted.1 h).bind
      fun v₁ h₁ => ?_
    exact returns_coerceAllOf hcompile schemas json v₁ hwf hrest huntempted.2 h₁

/-- The members before the first one that the value satisfies are tried and rejected, and that one
returns a copy of the value. -/
theorem returns_coerceWithUnionSchema (hcompile : DecidesMeaning meaning compile) :
    ∀ (schemas : List Schema) (json : Json) (value : Value), json.WellFormed →
      UnionUntempted meaning compile schemas json → value.json? = some json →
      Returns (coerceWithUnionSchema compile schemas value) fun value' => value'.json? = some json
  | [], json, value, _, _, h => by
    unfold coerceWithUnionSchema
    exact Returns.pure h
  | schema :: schemas, json, value, hwf, huntempted, h => by
    unfold UnionUntempted at huntempted
    unfold coerceWithUnionSchema
    refine (returns_structuredClone value json h).bind fun candidate hcandidate => ?_
    split_ifs at huntempted with hmember
    · rw [Bool.and_eq_true] at hmember
      refine (returns_coerceWithJsonSchema hcompile schema json candidate hwf hmember.2 huntempted
        hcandidate).bind fun coerced hcoerced => ?_
      obtain ⟨validator, hvalidator, hdecides⟩ := hcompile schema hmember.1
      have haccepts : subSchemaAccepts compile schema coerced = true := by
        unfold subSchemaAccepts
        rw [hmember.1, hvalidator, Option.any_some, hdecides coerced json hcoerced, hmember.2]
        rfl
      rw [if_pos haccepts]
      exact Returns.pure hcoerced
    · obtain ⟨hrefuses, hrest⟩ := huntempted
      intro m
      obtain ⟨coerced, m', hres, hrejects⟩ := hrefuses candidate m hcandidate
      obtain ⟨value', m'', hres', hvalue⟩ :=
        returns_coerceWithUnionSchema hcompile schemas json value hwf hrest h m'
      refine ⟨value', m'', ?_, hvalue⟩
      rw [run_bind, hres]
      dsimp only
      rw [if_neg (by rw [hrejects]; decide)]
      exact hres'

theorem returns_coerceProperties (hcompile : DecidesMeaning meaning compile) :
    ∀ (properties : List (String × Schema)) (id : Nat) (jsons : List (String × Json))
      (fields : List (String × Value)), Json.WellFormed.WellFormedFields jsons →
      validProperties meaning properties jsons = true →
      PropertiesUntempted meaning compile properties jsons → FieldsAre fields jsons →
      Returns (coerceProperties compile properties id fields) fun fields' => FieldsAre fields' jsons
  | [], id, jsons, fields, _, _, _, h => by
    unfold coerceProperties
    exact Returns.pure h
  | (key, propertySchema) :: properties, id, jsons, fields, hwf, hvalid, huntempted, h => by
    unfold validProperties at hvalid
    unfold PropertiesUntempted at huntempted
    rw [Bool.and_eq_true] at hvalid
    unfold coerceProperties readProperty
    rcases h.lookup key with ⟨hfield, hjson⟩ | ⟨value, json, hfield, hjson, hvalue⟩
    · rw [hjson] at huntempted
      rw [hfield]
      dsimp only
      rw [if_neg huntempted.1]
      exact returns_coerceProperties hcompile properties id jsons fields hwf hvalid.2 huntempted.2 h
    · rw [hjson] at hvalid huntempted
      rw [hfield]
      refine (returns_coerceWithJsonSchema hcompile propertySchema json value
        (wellFormedFields_of_mem hwf (mem_of_lookup hjson)) hvalid.1 huntempted.1 hvalue).bind
        fun value' hvalue' => ?_
      refine (returns_write id).bind fun _ _ => ?_
      exact returns_coerceProperties hcompile properties id jsons _ hwf hvalid.2 huntempted.2
        (h.setProperty hjson hvalue')

theorem returns_coerceTuple (hcompile : DecidesMeaning meaning compile) :
    ∀ (schemas : List Schema) (id : Nat) (jsons : List Json) (elements : List Value),
      Json.WellFormed.WellFormedItems jsons → validTuple meaning schemas jsons = true →
      TupleUntempted meaning compile schemas jsons → ItemsAre elements jsons →
      Returns (coerceTuple compile schemas id elements) fun elements' => ItemsAre elements' jsons
  | itemSchema :: schemas, id, json :: jsons, value :: elements, hwf, hvalid, huntempted,
      .cons hvalue hrest => by
    unfold validTuple at hvalid
    unfold TupleUntempted at huntempted
    rw [Bool.and_eq_true] at hvalid
    unfold coerceTuple
    refine (returns_forItem hvalue fun _ => returns_coerceWithJsonSchema hcompile itemSchema json
      value hwf.1 hvalid.1 huntempted.1 hvalue).bind fun value' hvalue' => ?_
    refine (returns_coerceTuple hcompile schemas id jsons elements hwf.2 hvalid.2 huntempted.2
      hrest).bind fun elements' helements' => ?_
    exact Returns.pure (.cons hvalue' helements')
  | [], id, jsons, elements, _, _, _, h => by
    unfold coerceTuple
    exact Returns.pure h
  | _ :: _, id, [], [], _, _, _, h => by
    unfold coerceTuple
    exact Returns.pure h

end

theorem decidesMeaning_sample : DecidesMeaning (fun _ _ => true) sampleEnvironment.compile := by
  intro schema _
  refine ⟨_, rfl, ?_⟩
  intro value json hjson
  rw [hjson, Option.any_some]

/-- `{ anyOf: [{ type: first }, { type: second }] }`. -/
def eitherSchema (first second : String) : Schema :=
  .object false .absent [] .absent none [] [.ofType first, .ofType second] [] []

theorem valid_eitherSchema {first second : String} (h : json.isPrimitive = true) :
    valid (fun _ _ => true) (eitherSchema first second) json =
      (hasType json first || hasType json second) := by
  have hcount : validCount (fun _ _ => true) [.ofType first, .ofType second] json =
      (if hasType json first then 1 else 0) + ((if hasType json second then 1 else 0) + 0) := by
    unfold validCount validCount validCount
    rw [valid_ofType _ _ h, valid_ofType _ _ h, Bool.and_true, Bool.and_true]
  unfold eitherSchema valid
  rw [hcount]
  unfold validCount
  cases json with
  | arr items => cases h
  | obj fields => cases h
  | _ => cases hasType _ first <;> cases hasType _ second <;> rfl

end Ai.Validation
