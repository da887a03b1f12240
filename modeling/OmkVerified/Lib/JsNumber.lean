import Mathlib

/-!
# Numbers of ECMAScript

The numbers of ECMAScript without rounding: exact rational numbers, the two infinities and `NaN`.
Zero has no sign.
-/

namespace Lib

inductive JsNumber
  | nan
  | negInfinity
  | finite (value : ℚ)
  | infinity
deriving DecidableEq

namespace JsNumber

instance : Coe ℚ JsNumber := ⟨finite⟩

instance {n : Nat} : OfNat JsNumber n := ⟨finite n⟩

/-- `Number.isFinite(value)`. -/
def isFinite : JsNumber → Bool
  | finite _ => true
  | _ => false

/-! ## Comparison -/

/-- `a < b`, false when one of them is `NaN`. -/
def lt : JsNumber → JsNumber → Bool
  | nan, _ => false
  | _, nan => false
  | _, negInfinity => false
  | negInfinity, _ => true
  | infinity, _ => false
  | finite _, infinity => true
  | finite a, finite b => a < b

instance : LT JsNumber := ⟨fun a b => lt a b = true⟩

instance (a b : JsNumber) : Decidable (a < b) := inferInstanceAs (Decidable (lt a b = true))

/-- `a === b`. -/
def same (a b : JsNumber) : Bool := a = b && a ≠ nan

instance : LE JsNumber := ⟨fun a b => a < b ∨ same a b = true⟩

instance (a b : JsNumber) : Decidable (a ≤ b) :=
  inferInstanceAs (Decidable (a < b ∨ same a b = true))

@[simp] theorem finite_lt {a b : ℚ} : finite a < finite b ↔ a < b := decide_eq_true_iff

end JsNumber

end Lib

/-!
# Strings as ECMAScript sees them

ECMAScript strings are sequences of UTF-16 code units: `length` counts code units and `<` compares
them lexicographically. Lean's strings are sequences of scalar values, so both are defined through
the UTF-16 encoding.
-/

namespace Lib

/-- The UTF-16 code units of a scalar value. -/
def utf16Units (c : Char) : List Nat :=
  if c.toNat < 0x10000 then [c.toNat]
  else [0xD800 + (c.toNat - 0x10000) / 0x400, 0xDC00 + (c.toNat - 0x10000) % 0x400]

/-- The UTF-16 encoding of a string. -/
def utf16 (s : List Char) : List Nat := s.flatMap utf16Units

/-- `string.length`. -/
def jsLength (s : String) : Nat := (utf16 s.toList).length

/-- Outside the supplementary planes `length` counts characters. -/
theorem jsLength_eq {s : String} (h : ∀ c ∈ s.toList, c.toNat < 0x10000) :
    jsLength s = s.toList.length := by
  unfold jsLength
  generalize s.toList = cs at h
  induction cs with
  | nil => rfl
  | cons c cs ih =>
    have hc : utf16Units c = [c.toNat] := if_pos (h c (by simp))
    rw [utf16, List.flatMap_cons, hc, List.length_append, List.length_singleton, List.length_cons,
      ← utf16, ih fun d hd => h d (by simp [hd])]
    omega

/-- Lexicographic comparison of code unit sequences. -/
def unitsLt : List Nat → List Nat → Bool
  | _, [] => false
  | [], _ :: _ => true
  | a :: as, b :: bs => if a < b then true else if b < a then false else unitsLt as bs

/-- `left < right` on strings. -/
def jsLt (left right : String) : Bool := unitsLt (utf16 left.toList) (utf16 right.toList)

/-- The line terminators that `.` of a regular expression does not match. -/
def isLineTerminator (c : Char) : Bool :=
  c = '\n' || c = '\r' || c = '\u2028' || c = '\u2029'

/-- White space and line terminators, which `trim` removes and `\s` of a regular expression
matches. -/
def isWhitespace (c : Char) : Bool :=
  c = '\t' || c = '\x0b' || c = '\x0c' || c = ' ' || c = '\u00a0' || c = '\ufeff' ||
    c = '\u1680' || (0x2000 ≤ c.toNat && c.toNat ≤ 0x200a) || c = '\u202f' || c = '\u205f' ||
    c = '\u3000' || isLineTerminator c

/-- `text.trim()`. -/
def trim (text : List Char) : List Char :=
  ((text.dropWhile isWhitespace).reverse.dropWhile isWhitespace).reverse

end Lib
