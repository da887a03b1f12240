import Mathlib

/-!
# Insertion-ordered maps

The `Map` of ECMAScript: finite, with distinct keys, enumerated in the order in which the keys were
first added. Writing an existing key keeps its place; deleting a key and writing it again moves it
to the end.
-/

namespace Lib

/-- A finite map that remembers the order in which its keys were added. -/
structure OrderedMap (κ ν : Type*) where
  entries : List (κ × ν)
  /-- No key is listed twice. -/
  nodup_keys : (entries.map Prod.fst).Nodup

namespace OrderedMap

variable {κ ν : Type*}

/-- The keys in enumeration order. -/
def keys (m : OrderedMap κ ν) : List κ := m.entries.map Prod.fst

/-- `map.size`. -/
def size (m : OrderedMap κ ν) : Nat := m.entries.length

/-- The map without entries. -/
def empty : OrderedMap κ ν := ⟨[], List.nodup_nil⟩

theorem size_eq_zero_iff {m : OrderedMap κ ν} : m.size = 0 ↔ m.keys = [] := by
  simp [size, keys]

theorem size_pos_iff {m : OrderedMap κ ν} : 0 < m.size ↔ m.keys ≠ [] := by
  rw [Nat.pos_iff_ne_zero, Ne, size_eq_zero_iff]

theorem keys_nodup (m : OrderedMap κ ν) : m.keys.Nodup := m.nodup_keys

@[simp] theorem keys_empty : (empty : OrderedMap κ ν).keys = [] := rfl

variable [DecidableEq κ]

/-- `map.get(key)`. -/
def get? (m : OrderedMap κ ν) (k : κ) : Option ν := m.entries.lookup k

/-- `map.has(key)`. -/
def has (m : OrderedMap κ ν) (k : κ) : Bool := decide (k ∈ m.keys)

/-- The entries after writing `v` at `k`. -/
def setEntries : List (κ × ν) → κ → ν → List (κ × ν)
  | [], k, v => [(k, v)]
  | e :: es, k, v => if e.1 = k then (k, v) :: es else e :: setEntries es k v

theorem keys_setEntries (es : List (κ × ν)) (k : κ) (v : ν) :
    (setEntries es k v).map Prod.fst =
      if k ∈ es.map Prod.fst then es.map Prod.fst else es.map Prod.fst ++ [k] := by
  induction es with
  | nil => simp [setEntries]
  | cons e es ih =>
    by_cases h : e.1 = k
    · simp [setEntries, h]
    · have h' : ¬ k = e.1 := fun he => h he.symm
      simp only [setEntries, h, if_false, List.map_cons, ih, List.mem_cons, h', false_or]
      split <;> simp

theorem nodup_setEntries {es : List (κ × ν)} (h : (es.map Prod.fst).Nodup) (k : κ) (v : ν) :
    ((setEntries es k v).map Prod.fst).Nodup := by
  rw [keys_setEntries]
  split
  · exact h
  · rename_i hk
    exact h.append (List.nodup_singleton k) (by simpa using hk)

/-- `map.set(key, value)`. -/
def set (m : OrderedMap κ ν) (k : κ) (v : ν) : OrderedMap κ ν :=
  ⟨setEntries m.entries k v, nodup_setEntries m.nodup_keys k v⟩

/-- `map.delete(key)`. -/
def delete (m : OrderedMap κ ν) (k : κ) : OrderedMap κ ν :=
  ⟨m.entries.filter fun e => e.1 ≠ k,
    m.nodup_keys.sublist (List.Sublist.map _ List.filter_sublist)⟩

@[simp] theorem get?_empty (k : κ) : (empty : OrderedMap κ ν).get? k = none := rfl

theorem has_iff {m : OrderedMap κ ν} {k : κ} : m.has k = true ↔ k ∈ m.keys := by simp [has]

theorem keys_set (m : OrderedMap κ ν) (k : κ) (v : ν) :
    (m.set k v).keys = if k ∈ m.keys then m.keys else m.keys ++ [k] :=
  keys_setEntries m.entries k v

@[simp] theorem mem_keys_set {m : OrderedMap κ ν} {k k' : κ} {v : ν} :
    k' ∈ (m.set k v).keys ↔ k' ∈ m.keys ∨ k' = k := by
  rw [keys_set]
  split
  · exact ⟨Or.inl, by rintro (h | rfl) <;> assumption⟩
  · simp

theorem lookup_cons_ite (e : κ × ν) (es : List (κ × ν)) (k : κ) :
    (e :: es).lookup k = if k = e.1 then some e.2 else es.lookup k := by
  obtain ⟨a, b⟩ := e
  by_cases h : k = a
  · simp [h]
  · have hb : (k == a) = false := beq_eq_false_iff_ne.mpr h
    simp [List.lookup, hb, h]

theorem lookup_setEntries (es : List (κ × ν)) (k k' : κ) (v : ν) :
    (setEntries es k v).lookup k' = if k' = k then some v else es.lookup k' := by
  induction es with
  | nil => simp [setEntries, lookup_cons_ite]
  | cons e es ih =>
    by_cases h : e.1 = k
    · simp only [setEntries, h, if_true, lookup_cons_ite]
      split <;> rfl
    · simp only [setEntries, h, if_false, lookup_cons_ite, ih]
      by_cases h' : k' = e.1
      · have hk : ¬ k' = k := fun hk => h (h' ▸ hk)
        simp [h', h]
      · simp [h']

@[simp] theorem get?_set (m : OrderedMap κ ν) (k k' : κ) (v : ν) :
    (m.set k v).get? k' = if k' = k then some v else m.get? k' :=
  lookup_setEntries m.entries k k' v

theorem lookup_eq_none_iff_keys {es : List (κ × ν)} {k : κ} :
    es.lookup k = none ↔ k ∉ es.map Prod.fst := by
  induction es with
  | nil => simp
  | cons e es ih =>
    rw [lookup_cons_ite, List.map_cons, List.mem_cons]
    by_cases h : k = e.1
    · simp [h]
    · simp only [h, if_false, ih, false_or]

theorem get?_eq_none_iff {m : OrderedMap κ ν} {k : κ} : m.get? k = none ↔ k ∉ m.keys :=
  lookup_eq_none_iff_keys

theorem lookup_eq_some_iff_mem {es : List (κ × ν)} (h : (es.map Prod.fst).Nodup) {k : κ} {v : ν} :
    es.lookup k = some v ↔ (k, v) ∈ es := by
  induction es with
  | nil => simp
  | cons e es ih =>
    obtain ⟨a, b⟩ := e
    simp only [List.map_cons, List.nodup_cons] at h
    rw [lookup_cons_ite]
    by_cases hk : k = a
    · subst hk
      have : (k, v) ∉ es := fun hw => h.1 (List.mem_map.mpr ⟨_, hw, rfl⟩)
      simp [this, eq_comm]
    · simp [hk, ih h.2]

theorem get?_eq_some_iff {m : OrderedMap κ ν} {k : κ} {v : ν} :
    m.get? k = some v ↔ (k, v) ∈ m.entries :=
  lookup_eq_some_iff_mem m.nodup_keys

theorem keys_delete (m : OrderedMap κ ν) (k : κ) :
    (m.delete k).keys = m.keys.filter fun k' => k' ≠ k := by
  simp only [keys, delete, List.filter_map]
  rfl

theorem keys_delete_eq_erase (m : OrderedMap κ ν) (k : κ) :
    (m.delete k).keys = m.keys.erase k := by
  rw [keys_delete, List.Nodup.erase_eq_filter m.keys_nodup]
  exact List.filter_congr fun a _ => by simp [bne, beq_eq_decide]

@[simp] theorem mem_keys_delete {m : OrderedMap κ ν} {k k' : κ} :
    k' ∈ (m.delete k).keys ↔ k' ∈ m.keys ∧ k' ≠ k := by
  simp [keys_delete]

theorem get?_delete (m : OrderedMap κ ν) (k k' : κ) :
    (m.delete k).get? k' = if k' = k then none else m.get? k' := by
  split_ifs with h
  · rw [get?_eq_none_iff, mem_keys_delete, not_and_not_right]
    exact fun _ => h
  · ext v
    rw [get?_eq_some_iff, get?_eq_some_iff]
    simp [delete, h]

/-- `map.set(key, (map.get(key) ?? 0) + 1)`. -/
def bump (m : OrderedMap κ Nat) (k : κ) : OrderedMap κ Nat := m.set k ((m.get? k).getD 0 + 1)

theorem getD_foldl_bump (ks : List κ) (m : OrderedMap κ Nat) (k : κ) :
    ((ks.foldl bump m).get? k).getD 0 = (m.get? k).getD 0 + ks.count k := by
  induction ks generalizing m with
  | nil => simp
  | cons a ks ih =>
    rw [List.foldl_cons, ih, bump, get?_set]
    by_cases h : k = a
    · subst h; simp; omega
    · have h' : a ≠ k := fun he => h he.symm
      simp [h, List.count_cons_of_ne h']

theorem mem_keys_foldl_bump (ks : List κ) (m : OrderedMap κ Nat) (k : κ) :
    k ∈ (ks.foldl bump m).keys ↔ k ∈ m.keys ∨ k ∈ ks := by
  induction ks generalizing m with
  | nil => simp
  | cons a ks ih => rw [List.foldl_cons, ih, bump, mem_keys_set, List.mem_cons, or_assoc]

/-- Writing new, distinct keys appends them. -/
theorem keys_foldl_set {α : Type*} (f : α → κ) (g : OrderedMap κ ν → α → ν) (as : List α)
    (m : OrderedMap κ ν) (h : (m.keys ++ as.map f).Nodup) :
    (as.foldl (fun m a => m.set (f a) (g m a)) m).keys = m.keys ++ as.map f := by
  induction as generalizing m with
  | nil => simp
  | cons a as ih =>
    have ha : f a ∉ m.keys := by
      intro hmem
      have := (List.nodup_append.mp h).2.2 (f a) hmem (f a) (by simp)
      exact this rfl
    have hk : (m.set (f a) (g m a)).keys = m.keys ++ [f a] := by rw [keys_set, if_neg ha]
    rw [List.foldl_cons, ih _ (by rw [hk]; simpa using h), hk]
    simp

theorem keys_foldl_bump_of_nodup {ks : List κ} (h : ks.Nodup) :
    (ks.foldl bump empty).keys = ks := by
  have := keys_foldl_set id (fun (m : OrderedMap κ Nat) a => (m.get? a).getD 0 + 1) ks empty
    (by simpa using h)
  simp only [id_eq, keys_empty, List.map_id, List.nil_append] at this
  exact this

end OrderedMap

end Lib

/-!
# Loops that collect

A loop over a list that appends to one of its accumulators, and a loop that writes into a map.
-/

namespace Lib

variable {σ α β κ : Type*}

/-- When each step appends what the element adds, the loop appends what all elements add. -/
theorem foldl_appends {field : σ → List β} {step : σ → α → σ} {adds : α → List β}
    (hstep : ∀ s a, field (step s a) = field s ++ adds a) (as : List α) (s : σ) :
    field (as.foldl step s) = field s ++ as.flatMap adds := by
  induction as generalizing s with
  | nil => simp
  | cons a as ih => rw [List.foldl_cons, ih, hstep, List.flatMap_cons, List.append_assoc]

namespace OrderedMap

variable [DecidableEq κ]

/-- What is found at a key is the element that was written last. -/
theorem get?_foldl_set (key : α → κ) (as : List α) (m : OrderedMap κ α) (k : κ) :
    (as.foldl (fun m a => m.set (key a) a) m).get? k =
      (as.reverse.find? fun a => decide (key a = k)).or (m.get? k) := by
  induction as generalizing m with
  | nil => simp
  | cons a as ih =>
    rw [List.foldl_cons, ih, get?_set, List.reverse_cons, List.find?_append, Option.or_assoc]
    congr 1
    by_cases hk : k = key a
    · simp [hk]
    · have hk' : ¬ key a = k := fun he => hk he.symm
      simp [hk, hk']

/-- An element is found when it was written there and none after it was. -/
theorem get?_foldl_set_empty_eq_some_iff {key : α → κ} {as : List α} {k : κ} {a : α} :
    (as.foldl (fun m a => m.set (key a) a) empty).get? k = some a ↔
      ∃ before after, as = before ++ a :: after ∧ key a = k ∧ ∀ b ∈ after, key b ≠ k := by
  rw [get?_foldl_set, get?_empty, Option.or_none, List.find?_eq_some_iff_append]
  constructor
  · rintro ⟨ha, after, before, hsplit, hafter⟩
    refine ⟨before.reverse, after.reverse, ?_, by simpa using ha, ?_⟩
    · rw [← List.reverse_reverse as, hsplit]
      simp
    · intro b hb
      have := hafter b (List.mem_reverse.mp hb)
      simpa using this
  · rintro ⟨before, after, rfl, ha, hafter⟩
    refine ⟨by simpa using ha, after.reverse, before.reverse, by simp, ?_⟩
    intro b hb
    have := hafter b (List.mem_reverse.mp hb)
    simpa using this

theorem has_foldl_set_empty_iff {key : α → κ} {as : List α} {k : κ} :
    (as.foldl (fun m a => m.set (key a) a) empty).has k = true ↔ ∃ a ∈ as, key a = k := by
  rw [has_iff, ← not_iff_not, ← get?_eq_none_iff, get?_foldl_set, get?_empty, Option.or_none,
    List.find?_eq_none]
  simp

end OrderedMap

end Lib
