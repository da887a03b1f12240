import Mathlib

/-!
# JSON values

The values that `JSON.parse` can return, with the operations of ECMAScript on them that programs
use: reading an own property, object spread, truthiness and `===` on primitive values.

Three points where the model is coarser than the language. Fields keep the order in which they were
written, also those whose keys look like array indices. Numbers are exact decimals
`mantissa * 10 ^ exponent`; the rounding to binary64 is not modelled. Strings are sequences of
Unicode scalar values, so a lone surrogate has no representation.
-/

namespace Lib

/-- A JSON number: the decimal `mantissa * 10 ^ exponent`, in lowest terms. -/
@[ext]
structure Decimal where
  mantissa : Int
  exponent : Int
  normal : mantissa % 10 ≠ 0 ∨ (mantissa = 0 ∧ exponent = 0)
deriving DecidableEq

namespace Decimal

def zero : Decimal := ⟨0, 0, .inr ⟨rfl, rfl⟩⟩

/-- The trailing zeros of `digits` move into the exponent. -/
def stripZeros : (fuel : Nat) → (digits : Nat) → (exponent : Int) → Nat × Int
  | 0, digits, exponent => (digits, exponent)
  | fuel + 1, digits, exponent =>
    if digits % 10 = 0 then stripZeros fuel (digits / 10) (exponent + 1) else (digits, exponent)

theorem stripZeros_normal {fuel digits : Nat} (exponent : Int) (hpos : digits ≠ 0)
    (hfuel : digits ≤ fuel) : (stripZeros fuel digits exponent).1 % 10 ≠ 0 := by
  induction fuel generalizing digits exponent with
  | zero => omega
  | succ fuel ih =>
    unfold stripZeros
    split_ifs with h
    · exact ih (exponent + 1) (by omega) (by omega)
    · exact h

theorem stripZeros_mul {fuel digits zeros : Nat} (exponent : Int) (hd : digits % 10 ≠ 0)
    (hfuel : zeros < fuel) :
    stripZeros fuel (digits * 10 ^ zeros) exponent = (digits, exponent + zeros) := by
  induction zeros generalizing fuel exponent with
  | zero =>
    obtain ⟨fuel, rfl⟩ : ∃ f, fuel = f + 1 := ⟨fuel - 1, by omega⟩
    simp [stripZeros, hd]
  | succ zeros ih =>
    obtain ⟨fuel, rfl⟩ : ∃ f, fuel = f + 1 := ⟨fuel - 1, by omega⟩
    have hdiv : digits * 10 ^ (zeros + 1) / 10 = digits * 10 ^ zeros := by
      rw [pow_succ, ← Nat.mul_assoc, Nat.mul_div_cancel _ (by omega)]
    have hmod : digits * 10 ^ (zeros + 1) % 10 = 0 := by
      rw [pow_succ, ← Nat.mul_assoc, Nat.mul_mod_left]
    rw [stripZeros, if_pos hmod, hdiv, ih (exponent + 1) (by omega)]
    push_cast
    ring_nf

/-- The number `± digits * 10 ^ exponent`. -/
def ofDigits (negative : Bool) (digits : Nat) (exponent : Int) : Decimal :=
  if h : digits = 0 then zero
  else
    ⟨if negative then -((stripZeros digits digits exponent).1 : Int)
      else (stripZeros digits digits exponent).1, (stripZeros digits digits exponent).2, by
      have := stripZeros_normal exponent h le_rfl
      split_ifs <;> omega⟩

def ofNat (n : Nat) : Decimal := ofDigits false n 0

/-- The value of a non-negative integer. -/
def toNat? (n : Decimal) : Option Nat :=
  if 0 ≤ n.mantissa ∧ 0 ≤ n.exponent then some (n.mantissa.toNat * 10 ^ n.exponent.toNat) else none

theorem ofDigits_mul (n : Decimal) (hne : n.mantissa ≠ 0) (zeros : Nat) :
    ofDigits (decide (n.mantissa < 0)) (n.mantissa.natAbs * 10 ^ zeros) (n.exponent - zeros) = n := by
  have hd : n.mantissa.natAbs % 10 ≠ 0 := by
    have := n.normal
    omega
  have hpow : zeros < 10 ^ zeros := Nat.lt_pow_self (by omega)
  have hzeros : zeros < n.mantissa.natAbs * 10 ^ zeros :=
    lt_of_lt_of_le hpow (Nat.le_mul_of_pos_left _ (by omega))
  have hne' : n.mantissa.natAbs * 10 ^ zeros ≠ 0 := by omega
  have hstrip := stripZeros_mul (n.exponent - zeros) hd hzeros
  unfold ofDigits
  rw [dif_neg hne']
  ext
  · simp only [hstrip, decide_eq_true_eq]
    split_ifs <;> omega
  · simp only [hstrip]
    omega

theorem toNat?_ofNat (n : Nat) : (ofNat n).toNat? = some n := by
  have hstrip : ∀ fuel digits (exponent : Int), 0 ≤ exponent →
      0 ≤ (stripZeros fuel digits exponent).2 ∧
      (stripZeros fuel digits exponent).1 * 10 ^ (stripZeros fuel digits exponent).2.toNat =
        digits * 10 ^ exponent.toNat := by
    intro fuel
    induction fuel with
    | zero =>
      intro digits exponent h
      exact ⟨h, rfl⟩
    | succ fuel ih =>
      intro digits exponent h
      unfold stripZeros
      split_ifs with hz
      · obtain ⟨h1, h2⟩ := ih (digits / 10) (exponent + 1) (by omega)
        refine ⟨h1, h2.trans ?_⟩
        rw [show (exponent + 1).toNat = exponent.toNat + 1 by omega, pow_succ, ← Nat.mul_assoc,
          Nat.mul_right_comm, Nat.div_mul_cancel (Nat.dvd_of_mod_eq_zero hz)]
      · exact ⟨h, rfl⟩
  unfold ofNat ofDigits
  by_cases hn : n = 0
  · subst hn
    rfl
  · obtain ⟨h1, h2⟩ := hstrip n n 0 le_rfl
    rw [dif_neg hn]
    unfold toNat?
    simp only [Bool.false_eq_true, if_false, Int.natCast_nonneg, true_and, h1, if_true,
      Int.toNat_natCast, h2]
    simp

end Decimal

/-- A JSON value. The fields of an object stand in the order in which they were added. -/
inductive Json
  | null
  | bool (b : Bool)
  | num (n : Decimal)
  | str (s : String)
  | arr (items : List Json)
  | obj (fields : List (String × Json))
deriving Inhabited

namespace Json

/-- Decides whether two values are equal. -/
def beq : Json → Json → Bool
  | .null, .null => true
  | .bool a, .bool b => a == b
  | .num a, .num b => decide (a = b)
  | .str a, .str b => decide (a = b)
  | .arr as, .arr bs => beqItems as bs
  | .obj as, .obj bs => beqFields as bs
  | _, _ => false
where
  beqItems : List Json → List Json → Bool
    | [], [] => true
    | a :: as, b :: bs => beq a b && beqItems as bs
    | _, _ => false
  beqFields : List (String × Json) → List (String × Json) → Bool
    | [], [] => true
    | (k, a) :: as, (l, b) :: bs => decide (k = l) && beq a b && beqFields as bs
    | _, _ => false

mutual

theorem beq_iff : ∀ a b : Json, beq a b = true ↔ a = b
  | .null, b => by cases b <;> simp [beq]
  | .bool a, b => by cases b <;> simp [beq]
  | .num a, b => by cases b <;> simp [beq]
  | .str a, b => by cases b <;> simp [beq]
  | .arr as, b => by cases b <;> simp [beq, beqItems_iff as]
  | .obj as, b => by cases b <;> simp [beq, beqFields_iff as]

theorem beqItems_iff : ∀ as bs : List Json, beq.beqItems as bs = true ↔ as = bs
  | [], bs => by cases bs <;> simp [beq.beqItems]
  | a :: as, bs => by cases bs <;> simp [beq.beqItems, beq_iff a, beqItems_iff as]

theorem beqFields_iff : ∀ as bs : List (String × Json), beq.beqFields as bs = true ↔ as = bs
  | [], bs => by cases bs <;> simp [beq.beqFields]
  | (k, a) :: as, bs => by
    cases bs <;> simp [beq.beqFields, beq_iff a, beqFields_iff as, Prod.ext_iff]

end

instance : DecidableEq Json := fun a b => decidable_of_iff _ (beq_iff a b)

/-- `typeof value === "object" && value !== null && !Array.isArray(value)`. -/
def isRecord : Json → Bool
  | .obj _ => true
  | _ => false

/-- `Boolean(value)`. -/
def truthy : Json → Bool
  | .null => false
  | .bool b => b
  | .num n => decide (n.mantissa ≠ 0)
  | .str s => decide (s ≠ "")
  | .arr _ => true
  | .obj _ => true

/-- Values that are compared by value; arrays and objects have an identity. -/
def isPrimitive : Json → Bool
  | .arr _ => false
  | .obj _ => false
  | _ => true

/-- Reading the own property `key`; `none` is `undefined`. -/
def get? (value : Json) (key : String) : Option Json :=
  match value with
  | .obj fields => fields.lookup key
  | _ => none

/-- The fields after writing `key`: an existing field keeps its place, a new one is added last. -/
def setField : List (String × Json) → String → Json → List (String × Json)
  | [], key, value => [(key, value)]
  | (k, v) :: fields, key, value =>
    if k = key then (k, value) :: fields else (k, v) :: setField fields key value

/-- `{ ...value, [key]: field }`. -/
def set (value : Json) (key : String) (field : Json) : Json :=
  match value with
  | .obj fields => .obj (setField fields key field)
  | other => other

theorem lookup_cons_eq (field : String × Json) (fields : List (String × Json)) (key : String) :
    (field :: fields).lookup key = if key = field.1 then some field.2 else fields.lookup key := by
  obtain ⟨k, v⟩ := field
  by_cases h : key = k
  · simp [h]
  · have hb : (key == k) = false := beq_eq_false_iff_ne.mpr h
    simp [List.lookup, hb, h]

theorem lookup_setField (fields : List (String × Json)) (key key' : String) (value : Json) :
    (setField fields key value).lookup key' =
      if key' = key then some value else fields.lookup key' := by
  induction fields with
  | nil => rw [setField, lookup_cons_eq]
  | cons field fields ih =>
    obtain ⟨k, v⟩ := field
    by_cases hk : k = key
    · subst hk
      rw [setField, if_pos rfl, lookup_cons_eq, lookup_cons_eq]
      split_ifs <;> rfl
    · rw [setField, if_neg hk, lookup_cons_eq, lookup_cons_eq, ih]
      by_cases h : key' = k
      · subst h
        rw [if_pos rfl, if_neg hk, if_pos rfl]
      · simp only [if_neg h]

theorem get?_set_ne (value : Json) {key key' : String} (field : Json) (h : key' ≠ key) :
    (value.set key field).get? key' = value.get? key' := by
  cases value with
  | obj fields =>
    show (setField fields key field).lookup key' = fields.lookup key'
    rw [lookup_setField, if_neg h]
  | _ => rfl

theorem get?_set_self {value : Json} (hrecord : value.isRecord = true) (key : String)
    (field : Json) : (value.set key field).get? key = some field := by
  cases value with
  | obj fields =>
    show (setField fields key field).lookup key = some field
    rw [lookup_setField, if_pos rfl]
  | _ => exact absurd hrecord (by simp [isRecord])

theorem isRecord_of_get? {value field : Json} {key : String} (h : value.get? key = some field) :
    value.isRecord = true := by
  cases value with
  | obj fields => rfl
  | _ => simp [get?] at h

end Json

end Lib
