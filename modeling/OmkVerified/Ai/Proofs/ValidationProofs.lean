import OmkVerified.Ai.Validation

/-!
# Validation returns what it has checked

Every container that coercion writes was allocated by a clone, so the arguments of the tool call stay as
they are. Coercion turns no container into a primitive value or back, so the exit without the last check
is taken for primitive arguments only.
-/

namespace Ai.Validation

open Lib

variable {α β : Type} {n : Nat} {m m' m'' : Memory} {compile : Schema → Option Validator}

theorem run_bind (x : Run α) (f : α → Run β) (m : Memory) :
    (x >>= f) m = match x m with
      | .ok a m' => f a m'
      | .error e m' => .error e m' := by
  show EStateM.bind x f m = _
  unfold EStateM.bind
  cases x m <;> rfl

@[simp] theorem run_pure (a : α) (m : Memory) : (pure a : Run α) m = .ok a m := rfl

@[simp] theorem run_throw (e : Failure) (m : Memory) : (throw e : Run α) m = .error e m := rfl

/-! ## Which containers are written -/

theorem Memory.Grows.refl (n : Nat) (m : Memory) : m.Grows n m :=
  ⟨le_rfl, [], rfl, fun _ h => absurd h List.not_mem_nil⟩

theorem Memory.Grows.trans (h : m.Grows n m') (h' : m'.Grows n m'') : m.Grows n m'' := by
  obtain ⟨hle, new, hnew, hfrom⟩ := h
  obtain ⟨hle', new', hnew', hfrom'⟩ := h'
  refine ⟨hle.trans hle', new' ++ new, ?_, ?_⟩
  · rw [hnew', hnew, List.append_assoc]
  · intro id hid
    rcases List.mem_append.mp hid with h | h
    · exact hfrom' id h
    · exact hfrom id h

section Confined

variable {x : Run α} {f : α → Run β} {P Q : α → Prop} {R : β → Prop}

theorem Confined.pure {a : α} (h : Q a) : Confined n (pure a : Run α) Q :=
  fun m _ => ⟨.refl n m, h⟩

theorem Confined.throw {e : Failure} : Confined n (throw e : Run α) Q :=
  fun m _ => .refl n m

theorem Confined.bind (hx : Confined n x Q) (hf : ∀ a, Q a → Confined n (f a) R) :
    Confined n (x >>= f) R := by
  intro m hm
  have hxm := hx m hm
  rw [run_bind]
  cases hres : x m with
  | ok a m' =>
    rw [hres] at hxm
    have hfm := hf a hxm.2 m' (hm.trans hxm.1.next_le)
    dsimp only
    cases hres' : f a m' with
    | ok b m'' =>
      rw [hres'] at hfm
      exact ⟨hxm.1.trans hfm.1, hfm.2⟩
    | error e m'' =>
      rw [hres'] at hfm
      exact hxm.1.trans hfm
  | error e m' =>
    rw [hres] at hxm
    exact hxm

theorem Confined.mono (hx : Confined n x P) (hPQ : ∀ a, P a → Q a) : Confined n x Q := by
  intro m hm
  have hxm := hx m hm
  cases hres : x m with
  | ok a m' =>
    rw [hres] at hxm
    exact ⟨hxm.1, hPQ a hxm.2⟩
  | error e m' =>
    rw [hres] at hxm
    exact hxm

theorem Confined.map {g : α → β} (hx : Confined n x Q) (hg : ∀ a, Q a → R (g a)) :
    Confined n (g <$> x) R := by
  rw [map_eq_pure_bind]
  exact hx.bind fun a ha => Confined.pure (hg a ha)

end Confined

theorem confined_write {id : Nat} (h : n ≤ id) : Confined n (write id) fun _ => True := by
  intro m _
  refine ⟨⟨le_rfl, [id], rfl, ?_⟩, trivial⟩
  intro id' hid
  rw [List.mem_singleton] at hid
  omega

theorem confined_allocate : Confined n allocate fun id => n ≤ id := by
  intro m hm
  exact ⟨⟨Nat.le_succ m.next, [], rfl, fun _ h => absurd h List.not_mem_nil⟩, hm⟩

/-! ### Values whose containers are new -/

def ItemsFrom (n : Nat) (items : List Value) : Prop := ∀ value ∈ items, value.From n

def FieldsFrom (n : Nat) (fields : List (String × Value)) : Prop := ∀ field ∈ fields, field.2.From n

theorem mem_itemsIdentities {items : List Value} {id : Nat} :
    id ∈ Value.identities.itemsIdentities items ↔ ∃ value ∈ items, id ∈ value.identities := by
  induction items with
  | nil => simp [Value.identities.itemsIdentities]
  | cons value items ih => simp [Value.identities.itemsIdentities, ih]

theorem mem_fieldsIdentities {fields : List (String × Value)} {id : Nat} :
    id ∈ Value.identities.fieldsIdentities fields ↔ ∃ field ∈ fields, id ∈ field.2.identities := by
  induction fields with
  | nil => simp [Value.identities.fieldsIdentities]
  | cons field fields ih => simp [Value.identities.fieldsIdentities, ih]

theorem from_arr_iff {id : Nat} {items : List Value} :
    (Value.arr id items).From n ↔ n ≤ id ∧ ItemsFrom n items := by
  constructor
  · intro h
    refine ⟨h id (List.mem_cons_self ..), ?_⟩
    intro value hvalue id' hid
    exact h id' (List.mem_cons_of_mem _ ((mem_itemsIdentities).mpr ⟨value, hvalue, hid⟩))
  · rintro ⟨hid, hitems⟩ id' hid'
    rcases List.mem_cons.mp hid' with rfl | hmem
    · exact hid
    · obtain ⟨value, hvalue, hin⟩ := (mem_itemsIdentities).mp hmem
      exact hitems value hvalue id' hin

theorem from_obj_iff {id : Nat} {fields : List (String × Value)} :
    (Value.obj id fields).From n ↔ n ≤ id ∧ FieldsFrom n fields := by
  constructor
  · intro h
    refine ⟨h id (List.mem_cons_self ..), ?_⟩
    intro field hfield id' hid
    exact h id' (List.mem_cons_of_mem _ ((mem_fieldsIdentities).mpr ⟨field, hfield, hid⟩))
  · rintro ⟨hid, hfields⟩ id' hid'
    rcases List.mem_cons.mp hid' with rfl | hmem
    · exact hid
    · obtain ⟨field, hfield, hin⟩ := (mem_fieldsIdentities).mp hmem
      exact hfields field hfield id' hin

theorem from_of_not_record {value : Value} (h : value.isRecord = false) : value.From n := by
  cases value with
  | arr id items => exact absurd h (by simp [Value.isRecord])
  | obj id fields => exact absurd h (by simp [Value.isRecord])
  | _ => exact fun id hid => absurd hid List.not_mem_nil

theorem FieldsFrom.setProperty {fields : List (String × Value)} {key : String} {value : Value}
    (h : FieldsFrom n fields) (hvalue : value.From n) :
    FieldsFrom n (setProperty fields key value) := by
  induction fields with
  | nil =>
    intro field hfield
    rw [Validation.setProperty, List.mem_singleton] at hfield
    rw [hfield]
    exact hvalue
  | cons head fields ih =>
    obtain ⟨k, v⟩ := head
    have htail : FieldsFrom n fields := fun field hfield => h field (List.mem_cons_of_mem _ hfield)
    intro field hfield
    unfold Validation.setProperty at hfield
    split_ifs at hfield with hk
    · rcases List.mem_cons.mp hfield with rfl | hmem
      · exact hvalue
      · exact htail field hmem
    · rcases List.mem_cons.mp hfield with rfl | hmem
      · exact h _ (List.mem_cons_self ..)
      · exact ih htail field hmem

theorem mem_of_lookup {γ : Type} {fields : List (String × γ)} {key : String} {value : γ}
    (h : fields.lookup key = some value) : (key, value) ∈ fields := by
  induction fields with
  | nil => exact absurd h (by simp)
  | cons field fields ih =>
    obtain ⟨k, v⟩ := field
    by_cases hk : key = k
    · subst hk
      rw [List.lookup_cons_self] at h
      cases h
      exact List.mem_cons_self ..
    · have hb : (key == k) = false := beq_eq_false_iff_ne.mpr hk
      rw [List.lookup, hb] at h
      exact List.mem_cons_of_mem _ (ih h)

theorem FieldsFrom.readProperty {fields : List (String × Value)} {key : String} {value : Value}
    (h : FieldsFrom n fields) (hread : readProperty fields key = some value) : value.From n := by
  unfold Validation.readProperty at hread
  cases hlookup : fields.lookup key with
  | some own =>
    rw [hlookup] at hread
    cases hread
    exact h _ (mem_of_lookup hlookup)
  | none =>
    rw [hlookup] at hread
    dsimp only at hread
    split_ifs at hread with hin
    cases hread
    exact from_of_not_record rfl

mutual

/-- The containers of a clone are new. -/
theorem confined_structuredClone : ∀ value : Value,
    Confined n (structuredClone value) fun value' =>
      value'.From n ∧ value'.isRecord = value.isRecord
  | .arr id items => by
    unfold structuredClone
    refine Confined.bind confined_allocate fun id' hid => ?_
    refine Confined.bind (confined_cloneItems items) fun items' hitems => ?_
    exact Confined.pure ⟨(from_arr_iff).mpr ⟨hid, hitems⟩, rfl⟩
  | .obj id fields => by
    unfold structuredClone
    refine Confined.bind confined_allocate fun id' hid => ?_
    refine Confined.bind (confined_cloneFields fields) fun fields' hfields => ?_
    exact Confined.pure ⟨(from_obj_iff).mpr ⟨hid, hfields⟩, rfl⟩
  | .method name => Confined.throw
  | .null => Confined.pure ⟨from_of_not_record rfl, rfl⟩
  | .bool b => Confined.pure ⟨from_of_not_record rfl, rfl⟩
  | .num k => Confined.pure ⟨from_of_not_record rfl, rfl⟩
  | .str s => Confined.pure ⟨from_of_not_record rfl, rfl⟩

theorem confined_cloneItems : ∀ items : List Value,
    Confined n (structuredClone.cloneItems items) (ItemsFrom n)
  | [] => Confined.pure fun _ h => absurd h List.not_mem_nil
  | value :: items => by
    unfold structuredClone.cloneItems
    refine Confined.bind (confined_structuredClone value) fun value' hvalue => ?_
    refine Confined.bind (confined_cloneItems items) fun items' hitems => ?_
    refine Confined.pure fun v hv => ?_
    rcases List.mem_cons.mp hv with rfl | hmem
    · exact hvalue.1
    · exact hitems v hmem

theorem confined_cloneFields : ∀ fields : List (String × Value),
    Confined n (structuredClone.cloneFields fields) (FieldsFrom n)
  | [] => Confined.pure fun _ h => absurd h List.not_mem_nil
  | (key, value) :: fields => by
    unfold structuredClone.cloneFields
    refine Confined.bind (confined_structuredClone value) fun value' hvalue => ?_
    refine Confined.bind (confined_cloneFields fields) fun fields' hfields => ?_
    refine Confined.pure fun field hfield => ?_
    rcases List.mem_cons.mp hfield with rfl | hmem
    · exact hvalue.1
    · exact hfields field hmem

end

/-! ### Coercion writes new containers only -/

theorem isRecord_getD_num (n? : Option Decimal) {value : Value} (h : value.isRecord = false) :
    ((n?.map Value.num).getD value).isRecord = false := by
  cases n? with
  | none => exact h
  | some k => rfl

theorem isRecord_coercePrimitiveByType {value : Value} (type : String)
    (h : value.isRecord = false) : (coercePrimitiveByType value type).isRecord = false := by
  unfold coercePrimitiveByType
  cases value with
  | null => split <;> rfl
  | bool b =>
    split
    case h_5 => cases b <;> rfl
    all_goals rfl
  | num k =>
    split
    case h_3 => dsimp only; split_ifs <;> rfl
    case h_5 => dsimp only; split_ifs <;> rfl
    all_goals rfl
  | str s =>
    split
    case h_1 => dsimp only; split_ifs; exacts [rfl, isRecord_getD_num _ rfl]
    case h_2 => dsimp only; split_ifs; exacts [rfl, isRecord_getD_num _ rfl]
    case h_3 => dsimp only; split_ifs <;> rfl
    case h_5 => dsimp only; split_ifs <;> rfl
    all_goals rfl
  | arr id items => exact absurd h (by simp [Value.isRecord])
  | obj id fields => exact absurd h (by simp [Value.isRecord])
  | method name => split <;> rfl

theorem coercePrimitiveByType_record {value : Value} (type : String) (h : value.isRecord = true) :
    coercePrimitiveByType value type = value := by
  unfold coercePrimitiveByType
  cases value with
  | arr id items => split <;> rfl
  | obj id fields => split <;> rfl
  | _ => exact absurd h (by simp [Value.isRecord])

theorem coerceFirst_cases (value : Value) (types : List String) :
    coerceFirst value types = value ∨ ∃ type ∈ types,
      coerceFirst value types = coercePrimitiveByType value type := by
  induction types with
  | nil => exact .inl rfl
  | cons type types ih =>
    unfold coerceFirst
    dsimp only
    split_ifs with hsame
    · rcases ih with h | ⟨type', hmem, h⟩
      · exact .inl h
      · exact .inr ⟨type', List.mem_cons_of_mem _ hmem, h⟩
    · exact .inr ⟨type, List.mem_cons_self .., rfl⟩

/-- The step for `type` keeps containers, and makes none. -/
theorem coerceByTypes_from {value : Value} (types : List String) (h : value.From n) :
    (coerceByTypes value types).From n ∧ (coerceByTypes value types).isRecord = value.isRecord := by
  have hfirst : (coerceFirst value types).From n ∧
      (coerceFirst value types).isRecord = value.isRecord := by
    rcases coerceFirst_cases value types with hsame | ⟨type, -, hsome⟩
    · rw [hsame]
      exact ⟨h, rfl⟩
    · rw [hsome]
      cases hrecord : value.isRecord with
      | true =>
        rw [coercePrimitiveByType_record type hrecord]
        exact ⟨h, hrecord⟩
      | false =>
        have hout := isRecord_coercePrimitiveByType type hrecord
        exact ⟨from_of_not_record hout, hout⟩
  unfold coerceByTypes
  dsimp only
  split_ifs with hmatch
  · exact ⟨h, rfl⟩
  · exact hfirst

theorem confined_forItem {f : Value → Run Value} {id : Nat} {itemSchema : Bool} {value : Value}
    (hid : n ≤ id) (hf : ∀ value, value.From n → Confined n (f value) (Value.From n))
    (h : value.From n) : Confined n (forItem f id itemSchema value) (Value.From n) := by
  unfold forItem
  split_ifs with hschema
  · refine Confined.bind (hf value h) fun value' hvalue => ?_
    refine Confined.bind (confined_write hid) fun _ _ => ?_
    exact Confined.pure hvalue
  · exact Confined.pure h

theorem confined_forEachItem {f : Value → Run Value} {id : Nat} {items : Bool}
    {elements : List Value} (hid : n ≤ id)
    (hf : ∀ value, value.From n → Confined n (f value) (Value.From n)) (h : ItemsFrom n elements) :
    Confined n (forEachItem f id items elements) (ItemsFrom n) := by
  induction elements with
  | nil => exact Confined.pure h
  | cons value elements ih =>
    unfold forEachItem
    refine Confined.bind (confined_forItem hid hf (h value (List.mem_cons_self ..)))
      fun value' hvalue => ?_
    refine Confined.bind (ih fun v hv => h v (List.mem_cons_of_mem _ hv)) fun elements' hall => ?_
    refine Confined.pure fun v hv => ?_
    rcases List.mem_cons.mp hv with rfl | hmem
    · exact hvalue
    · exact hall v hmem

theorem confined_forOtherEntries {f : Value → Run Value} {id : Nat} {additionalProperties : Bool}
    {definedKeys : List String} {entries fields : List (String × Value)} (hid : n ≤ id)
    (hf : ∀ value, value.From n → Confined n (f value) (Value.From n))
    (hentries : FieldsFrom n entries) (h : FieldsFrom n fields) :
    Confined n (forOtherEntries f id additionalProperties definedKeys entries fields)
      (FieldsFrom n) := by
  induction entries generalizing fields with
  | nil => exact Confined.pure h
  | cons entry entries ih =>
    obtain ⟨key, value⟩ := entry
    have hrest : FieldsFrom n entries := fun e he => hentries e (List.mem_cons_of_mem _ he)
    unfold forOtherEntries
    split_ifs with hskip
    · exact ih hrest h
    · refine Confined.bind (hf value (hentries _ (List.mem_cons_self ..))) fun value' hvalue => ?_
      refine Confined.bind (confined_write hid) fun _ _ => ?_
      exact ih hrest (h.setProperty hvalue)

mutual

/-- Coercion writes new containers only, and a container stays a container. -/
theorem confined_coerceWithJsonSchema : ∀ (schema : Schema) (value : Value), value.From n →
    Confined n (coerceWithJsonSchema compile schema value) fun value' =>
      value'.From n ∧ value'.isRecord = value.isRecord
  | .bool b, value, h => by
    unfold coerceWithJsonSchema
    exact Confined.pure ⟨h, rfl⟩
  | .object kind type properties items additionalProperties allOf anyOf oneOf other, value, h => by
    unfold coerceWithJsonSchema
    refine Confined.bind (confined_coerceAllOf allOf value h) fun v₁ h₁ => ?_
    refine Confined.bind (confined_coerceWithUnionSchema anyOf v₁ h₁.1) fun v₂ h₂ => ?_
    refine Confined.bind (confined_coerceWithUnionSchema oneOf v₂ h₂.1) fun v₃ h₃ => ?_
    obtain ⟨hfrom, hrecord⟩ := coerceByTypes_from (getSchemaTypes type) h₃.1
    rw [h₃.2, h₂.2, h₁.2] at hrecord
    dsimp only
    generalize coerceByTypes v₃ (getSchemaTypes type) = v₄ at hfrom hrecord ⊢
    cases v₄ with
    | obj id fields =>
      obtain ⟨hid, hfields⟩ := (from_obj_iff).mp hfrom
      dsimp only
      split_ifs with hobject
      · refine Confined.bind (confined_coerceProperties properties id fields hid hfields)
          fun fields' hfields' => ?_
        match additionalProperties with
        | some schema =>
          refine Confined.map (confined_forOtherEntries hid (fun v hv =>
            (confined_coerceWithJsonSchema schema v hv).mono fun _ hw => hw.1) hfields' hfields')
            fun fields'' hfields'' => ?_
          exact ⟨(from_obj_iff).mpr ⟨hid, hfields''⟩, hrecord⟩
        | none => exact Confined.pure ⟨(from_obj_iff).mpr ⟨hid, hfields'⟩, hrecord⟩
      · exact Confined.pure ⟨hfrom, hrecord⟩
    | arr id elements =>
      obtain ⟨hid, helements⟩ := (from_arr_iff).mp hfrom
      dsimp only
      split_ifs with harray
      · match items with
        | .tuple schemas =>
          refine Confined.map (confined_coerceTuple schemas id elements hid helements)
            fun elements' hall => ?_
          exact ⟨(from_arr_iff).mpr ⟨hid, hall⟩, hrecord⟩
        | .each schema =>
          refine Confined.map (confined_forEachItem hid (fun v hv =>
            (confined_coerceWithJsonSchema schema v hv).mono fun _ hw => hw.1) helements)
            fun elements' hall => ?_
          exact ⟨(from_arr_iff).mpr ⟨hid, hall⟩, hrecord⟩
        | .absent => exact Confined.pure ⟨hfrom, hrecord⟩
      · exact Confined.pure ⟨hfrom, hrecord⟩
    | _ => exact Confined.pure ⟨hfrom, hrecord⟩

theorem confined_coerceAllOf : ∀ (schemas : List Schema) (value : Value), value.From n →
    Confined n (coerceAllOf compile schemas value) fun value' =>
      value'.From n ∧ value'.isRecord = value.isRecord
  | [], value, h => by
    unfold coerceAllOf
    exact Confined.pure ⟨h, rfl⟩
  | nested :: schemas, value, h => by
    unfold coerceAllOf
    refine Confined.bind (confined_coerceWithJsonSchema nested value h) fun v₁ h₁ => ?_
    exact (confined_coerceAllOf schemas v₁ h₁.1).mono fun v hv => ⟨hv.1, hv.2.trans h₁.2⟩

theorem confined_coerceWithUnionSchema : ∀ (schemas : List Schema) (value : Value), value.From n →
    Confined n (coerceWithUnionSchema compile schemas value) fun value' =>
      value'.From n ∧ value'.isRecord = value.isRecord
  | [], value, h => by
    unfold coerceWithUnionSchema
    exact Confined.pure ⟨h, rfl⟩
  | schema :: schemas, value, h => by
    unfold coerceWithUnionSchema
    refine Confined.bind (confined_structuredClone value) fun candidate hcandidate => ?_
    refine Confined.bind (confined_coerceWithJsonSchema schema candidate hcandidate.1)
      fun coerced hcoerced => ?_
    split_ifs with haccepts
    · exact Confined.pure ⟨hcoerced.1, hcoerced.2.trans hcandidate.2⟩
    · exact confined_coerceWithUnionSchema schemas value h

theorem confined_coerceProperties : ∀ (properties : List (String × Schema)) (id : Nat)
    (fields : List (String × Value)), n ≤ id → FieldsFrom n fields →
    Confined n (coerceProperties compile properties id fields) (FieldsFrom n)
  | [], id, fields, _, h => by
    unfold coerceProperties
    exact Confined.pure h
  | (key, propertySchema) :: properties, id, fields, hid, h => by
    unfold coerceProperties
    cases hread : readProperty fields key with
    | none => exact confined_coerceProperties properties id fields hid h
    | some value =>
      refine Confined.bind
        (confined_coerceWithJsonSchema propertySchema value (h.readProperty hread))
        fun value' hvalue => ?_
      refine Confined.bind (confined_write hid) fun _ _ => ?_
      exact confined_coerceProperties properties id _ hid (h.setProperty hvalue.1)

theorem confined_coerceTuple : ∀ (schemas : List Schema) (id : Nat) (elements : List Value),
    n ≤ id → ItemsFrom n elements →
    Confined n (coerceTuple compile schemas id elements) (ItemsFrom n)
  | itemSchema :: schemas, id, value :: elements, hid, h => by
    unfold coerceTuple
    have hvalue := h value (List.mem_cons_self ..)
    have hitem : Confined n (forItem (coerceWithJsonSchema compile itemSchema) id itemSchema.truthy
        value) (Value.From n) :=
      confined_forItem hid (fun v hv =>
        (confined_coerceWithJsonSchema itemSchema v hv).mono fun _ hw => hw.1) hvalue
    refine Confined.bind hitem fun value' hvalue' => ?_
    refine Confined.bind (confined_coerceTuple schemas id elements hid fun v hv =>
      h v (List.mem_cons_of_mem _ hv)) fun elements' helements' => ?_
    refine Confined.pure fun v hv => ?_
    rcases List.mem_cons.mp hv with rfl | hmem
    · exact hvalue'
    · exact helements' v hmem
  | [], id, elements, _, h => by
    unfold coerceTuple
    exact Confined.pure h
  | _ :: _, id, [], _, h => by
    unfold coerceTuple
    exact Confined.pure h

end

/-! ## The exits -/

variable {env : Environment} {tool : Tool} {toolCall : ToolCall}

theorem confined_checkArguments (validator : Validator) {args : Value} (h : args.From n) :
    Confined n (checkArguments env validator tool toolCall args) (Value.From n) := by
  unfold checkArguments
  split_ifs with haccepts
  · exact Confined.pure h
  · exact Confined.throw

theorem checkArguments_accepted {validator : Validator} {args value : Value}
    (h : checkArguments env validator tool toolCall args m = .ok value m') :
    validator value = true := by
  unfold checkArguments at h
  split_ifs at h with haccepts
  · cases h
    exact haccepts
  · cases h

theorem confined_writeTo {value : Value} (h : value.From n) :
    Confined n (writeTo value) fun _ => True := by
  cases value with
  | arr id items => exact confined_write ((from_arr_iff).mp h).1
  | obj id fields => exact confined_write ((from_obj_iff).mp h).1
  | _ => exact Confined.pure trivial

theorem from_assign {args coerced : Value} (hargs : args.From n) (hcoerced : coerced.From n) :
    (assign args coerced).From n := by
  unfold assign
  split
  · exact (from_arr_iff).mpr ⟨((from_arr_iff).mp hargs).1, ((from_arr_iff).mp hcoerced).2⟩
  · exact (from_obj_iff).mpr ⟨((from_obj_iff).mp hargs).1, ((from_obj_iff).mp hcoerced).2⟩
  · exact hargs

theorem confined_validateToolArguments (henv : env.ConvertsInPlace) :
    Confined n (validateToolArguments env tool toolCall) (Value.From n) := by
  unfold validateToolArguments
  refine Confined.bind (confined_structuredClone toolCall.arguments) fun args₀ h₀ => ?_
  refine Confined.bind (henv.confined tool.parameters args₀ n h₀.1) fun args h => ?_
  cases hcompile : env.compile tool.parameters with
  | none => exact Confined.throw
  | some validator =>
    dsimp only
    split_ifs with hplain
    · refine Confined.bind (confined_coerceWithJsonSchema tool.parameters args h.1)
        fun coerced hcoerced => ?_
      split_ifs with hsame hrecords haccepts
      · exact confined_checkArguments validator hcoerced.1
      · refine Confined.bind (confined_writeTo h.1) fun _ _ => ?_
        exact confined_checkArguments validator (from_assign h.1 hcoerced.1)
      · exact Confined.pure hcoerced.1
      · exact Confined.pure h.1
    · exact confined_checkArguments validator h.1

theorem keepsArguments_validateToolArguments (henv : env.ConvertsInPlace)
    (hbelow : ∀ id ∈ toolCall.arguments.identities, id < m.next) :
    KeepsArguments toolCall m (validateToolArguments env tool toolCall m) := by
  have hconfined := @confined_validateToolArguments m.next _ tool toolCall henv m le_rfl
  intro id hid hnot
  have hlt := hbelow id hid
  have hkeeps : ∀ m', m.Grows m.next m' → id ∉ m'.written := by
    rintro m' ⟨-, new, hnew, hfrom⟩ hmem
    rw [hnew] at hmem
    rcases List.mem_append.mp hmem with h | h
    · exact absurd (hfrom id h) (by omega)
    · exact hnot h
  cases hres : validateToolArguments env tool toolCall m with
  | ok value m' =>
    rw [hres] at hconfined
    exact hkeeps m' hconfined.1
  | error e m' =>
    rw [hres] at hconfined
    exact hkeeps m' hconfined

theorem Confined.result {x : Run α} {Q : α → Prop} {a : α} (h : Confined 0 x Q)
    (hres : x m = .ok a m') : Q a := by
  have hm := h m (Nat.zero_le _)
  rw [hres] at hm
  exact hm.2

theorem run_bind_ok {x : Run α} {f : α → Run β} {b : β} (h : (x >>= f) m = .ok b m'') :
    ∃ a m', x m = .ok a m' ∧ f a m' = .ok b m'' := by
  rw [run_bind] at h
  cases hres : x m with
  | ok a m' =>
    rw [hres] at h
    exact ⟨a, m', rfl, h⟩
  | error e m' =>
    rw [hres] at h
    cases h

theorem from_zero (value : Value) : value.From 0 := fun id _ => Nat.zero_le id

theorem returnsAccepted_of_record (henv : env.ConvertsInPlace)
    (hrecord : toolCall.arguments.isRecord = true) :
    ReturnsAccepted env tool (validateToolArguments env tool toolCall m) := by
  intro value m₃ hres
  unfold validateToolArguments at hres
  obtain ⟨args₀, m₀, hclone, hres⟩ := run_bind_ok hres
  obtain ⟨args, m₁, hconvert, hres⟩ := run_bind_ok hres
  have h₀ := (Confined.result (confined_structuredClone _) hclone).2
  have h₁ := (Confined.result (henv.confined _ _ 0 (from_zero args₀)) hconvert).2
  have hargs : args.isRecord = true := h₁.trans (h₀.trans hrecord)
  cases hcompile : env.compile tool.parameters with
  | none =>
    rw [hcompile] at hres
    cases hres
  | some validator =>
    rw [hcompile] at hres
    refine ⟨validator, rfl, ?_⟩
    dsimp only at hres
    split_ifs at hres with hplain
    · obtain ⟨coerced, m₂, hcoerce, hres⟩ := run_bind_ok hres
      have hcoerced : coerced.isRecord = true :=
        (Confined.result (confined_coerceWithJsonSchema _ args (from_zero args)) hcoerce).2.trans hargs
      rw [hargs, hcoerced] at hres
      split_ifs at hres with hsame haccepts
      · exact checkArguments_accepted hres
      · obtain ⟨_, _, -, hres⟩ := run_bind_ok hres
        exact checkArguments_accepted hres
      · simp at haccepts
      · simp at haccepts
    · exact checkArguments_accepted hres

theorem structuredClone_primitive {value : Value} {json : Json} (hjson : value.json? = some json)
    (h : value.isRecord = false) : structuredClone value m = .ok value m := by
  cases value with
  | arr id items => exact absurd h (by simp [Value.isRecord])
  | obj id fields => exact absurd h (by simp [Value.isRecord])
  | method name => exact absurd hjson (by simp [Value.json?])
  | _ => rfl

/-- What is returned for arguments that are no container, when they are coerced. -/
theorem validateToolArguments_primitive {json : Json} {validator : Validator} {coerced : Value}
    (henv : env.ConvertsInPlace) (hjson : toolCall.arguments.json? = some json)
    (hrecord : toolCall.arguments.isRecord = false)
    (hcompile : env.compile tool.parameters = some validator)
    (hplain : tool.parameters.hasTypeBoxMetadata = false)
    (hobject : tool.parameters.isJsonSchemaObject = true)
    (hcoerce : coerceWithJsonSchema env.compile tool.parameters toolCall.arguments m =
      .ok coerced m') :
    validateToolArguments env tool toolCall m =
      if coerced.same toolCall.arguments then
        checkArguments env validator tool toolCall coerced m'
      else .ok (if validator coerced then coerced else toolCall.arguments) m' := by
  unfold validateToolArguments
  rw [run_bind, structuredClone_primitive hjson hrecord]
  dsimp only
  rw [run_bind, henv.primitive _ _ _ hrecord]
  dsimp only
  rw [hcompile, hplain, hobject]
  dsimp only
  rw [if_pos (by decide), run_bind, hcoerce, hrecord]
  simp only [Bool.false_and, Bool.false_eq_true, if_false]
  split_ifs with hsame <;> rfl

theorem returnsAccepted_of_not_unchecked (henv : env.ConvertsInPlace) {json : Json}
    (hjson : toolCall.arguments.json? = some json)
    (h : ¬ TakesUncheckedExit env tool toolCall.arguments m) :
    ReturnsAccepted env tool (validateToolArguments env tool toolCall m) := by
  cases hrecord : toolCall.arguments.isRecord with
  | true => exact returnsAccepted_of_record henv hrecord
  | false =>
    intro value m'' hres
    cases hcompile : env.compile tool.parameters with
    | none =>
      unfold validateToolArguments at hres
      obtain ⟨args₀, m₀, -, hres⟩ := run_bind_ok hres
      obtain ⟨args, m₁, -, hres⟩ := run_bind_ok hres
      rw [hcompile] at hres
      cases hres
    | some validator =>
      refine ⟨validator, rfl, ?_⟩
      by_cases hplain : tool.parameters.hasTypeBoxMetadata = false ∧
          tool.parameters.isJsonSchemaObject = true
      · cases hcoerce : coerceWithJsonSchema env.compile tool.parameters toolCall.arguments m with
        | ok coerced m' =>
          rw [validateToolArguments_primitive henv hjson hrecord hcompile hplain.1 hplain.2
            hcoerce] at hres
          split_ifs at hres with hsame haccepts
          · exact checkArguments_accepted hres
          · cases hres
            exact haccepts
          · cases hres
            by_contra hargs
            exact h ⟨hplain.1, hplain.2, hrecord, validator, coerced, _, hcompile, hcoerce,
              eq_false_of_ne_true hsame, eq_false_of_ne_true haccepts, eq_false_of_ne_true hargs⟩
        | error e m' =>
          exfalso
          unfold validateToolArguments at hres
          rw [run_bind, structuredClone_primitive hjson hrecord] at hres
          dsimp only at hres
          rw [run_bind, henv.primitive _ _ _ hrecord] at hres
          dsimp only at hres
          rw [hcompile, hplain.1, hplain.2] at hres
          dsimp only at hres
          rw [if_pos (by decide), run_bind, hcoerce] at hres
          cases hres
      · unfold validateToolArguments at hres
        obtain ⟨args₀, m₀, -, hres⟩ := run_bind_ok hres
        obtain ⟨args, m₁, -, hres⟩ := run_bind_ok hres
        rw [hcompile] at hres
        dsimp only at hres
        rw [if_neg (by simpa using hplain)] at hres
        exact checkArguments_accepted hres

/-- Validators of the standard meaning, and a `Convert` that changes nothing. -/
def sampleEnvironment : Environment where
  compile schema := some fun value => value.json?.any (valid (fun _ _ => true) schema)
  errors _ _ := []
  convert _ value := pure value

theorem sampleEnvironment_convertsInPlace : sampleEnvironment.ConvertsInPlace where
  primitive _ _ _ _ := rfl
  confined _ _ _ h := Confined.pure ⟨h, rfl⟩

/-- The schema with the keyword `type` alone. -/
def Schema.ofType (type : String) : Schema :=
  .object false (.one type) [] .absent none [] [] [] []

/-- `{ type: "object", properties: { count: { type: "number" } } }`. -/
def countSchema : Schema :=
  .object false (.one "object") [("count", .ofType "number")] .absent none [] [] [] []

theorem coerceWithJsonSchema_ofType (type : String) {value : Value} (h : value.isRecord = false) :
    coerceWithJsonSchema compile (.ofType type) value = pure (coerceByTypes value [type]) := by
  unfold Schema.ofType coerceWithJsonSchema coerceAllOf coerceWithUnionSchema
  simp only [pure_bind, getSchemaTypes]
  have hrecord := (coerceByTypes_from [type] (from_zero value)).2
  rw [h] at hrecord
  cases hcoerced : coerceByTypes value [type] with
  | arr id items => rw [hcoerced] at hrecord; cases hrecord
  | obj id fields => rw [hcoerced] at hrecord; cases hrecord
  | _ => rfl

theorem valid_ofType (meaning : List (String × Json) → Json → Bool) (type : String) {json : Json}
    (h : json.isPrimitive = true) :
    valid meaning (.ofType type) json = (hasType json type && meaning [] json) := by
  unfold Schema.ofType valid validCount
  cases json with
  | arr items => cases h
  | obj fields => cases h
  | _ => simp [typeValid]

theorem valid_ofType_one (type : String) (h : hasType (.num (Decimal.ofNat 1)) type = true) :
    valid (fun _ _ => true) (.ofType type) (.num (Decimal.ofNat 1)) = true := by
  rw [valid_ofType _ _ rfl, h]
  rfl

theorem accepts_ofType_one (type : String) (h : hasType (.num (Decimal.ofNat 1)) type = true) :
    subSchemaAccepts sampleEnvironment.compile (.ofType type) (.num (Decimal.ofNat 1)) = true := by
  have hobject : (Schema.ofType type).isJsonSchemaObject = true := rfl
  simp [subSchemaAccepts, sampleEnvironment, Value.json?, valid_ofType_one type h, hobject]

/-- A number that is an integer satisfies both members of `oneOf`. -/
def overlappingSchema : Schema :=
  .object false (.one "number") [] .absent none [] [] [.ofType "number", .ofType "integer"] []

theorem coerce_overlappingSchema (m : Memory) :
    coerceWithJsonSchema sampleEnvironment.compile overlappingSchema (.bool true) m =
      .ok (.num (Decimal.ofNat 1)) m := by
  have haccepts := accepts_ofType_one "number" rfl
  have hclone : structuredClone (.bool true) = pure (.bool true) := rfl
  have hcoerced : coerceByTypes (.bool true) ["number"] = .num (Decimal.ofNat 1) := rfl
  have hrecord : (Value.bool true).isRecord = false := rfl
  unfold overlappingSchema coerceWithJsonSchema coerceAllOf coerceWithUnionSchema
  simp only [pure_bind, hclone, coerceWithJsonSchema_ofType "number" hrecord, hcoerced, haccepts,
    if_true]
  rfl

theorem overlappingSchema_rejects_one :
    valid (fun _ _ => true) overlappingSchema (.num (Decimal.ofNat 1)) = false := by
  have hnumber := valid_ofType_one "number" rfl
  have hinteger := valid_ofType_one "integer" rfl
  have hcount : validCount (fun _ _ => true) [.ofType "number", .ofType "integer"]
      (.num (Decimal.ofNat 1)) = 2 := by
    unfold validCount validCount validCount
    rw [hnumber, hinteger]
    rfl
  unfold overlappingSchema valid
  rw [hcount]
  simp

theorem overlappingSchema_rejects_true :
    valid (fun _ _ => true) overlappingSchema (.bool true) = false := by
  unfold overlappingSchema valid
  rfl

end Ai.Validation
