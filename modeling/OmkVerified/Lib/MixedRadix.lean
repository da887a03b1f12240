import Mathlib

/-!
# Mixed radices

The digits of a number below the product of the radices, most significant first, are ordered as the
numbers are.
-/

namespace Lib.MixedRadix

/-- The digits of a number, most significant first. -/
def digits : List ℕ → ℕ → List ℕ
  | [], _ => []
  | radix :: radices, n => n / radices.prod % radix :: digits radices n

@[simp] theorem digits_nil (n : ℕ) : digits [] n = [] := rfl

@[simp] theorem digits_cons (radix : ℕ) (radices : List ℕ) (n : ℕ) :
    digits (radix :: radices) n = n / radices.prod % radix :: digits radices n := rfl

theorem digits_congr {radices : List ℕ} {n m : ℕ} (h : n % radices.prod = m % radices.prod) :
    digits radices n = digits radices m := by
  induction radices with
  | nil => rfl
  | cons radix radices ih =>
    rw [List.prod_cons] at h
    have htail : n % radices.prod = m % radices.prod := by
      have hmod := congrArg (· % radices.prod) h
      simpa only [Nat.mod_mul_left_mod] using hmod
    have hhead : n / radices.prod % radix = m / radices.prod % radix := by
      rw [Nat.mul_comm] at h
      rw [← Nat.mod_mul_right_div_self, ← Nat.mod_mul_right_div_self, h]
    rw [digits_cons, digits_cons, hhead, ih htail]

theorem digits_lt {radices : List ℕ} {n m : ℕ} (hlt : n < m) (hm : m < radices.prod) :
    digits radices n < digits radices m := by
  induction radices generalizing n m with
  | nil =>
    rw [List.prod_nil] at hm
    omega
  | cons radix radices ih =>
    rw [List.prod_cons] at hm
    have hpos : 0 < radices.prod := by
      rcases Nat.eq_zero_or_pos radices.prod with hzero | hpos
      · rw [hzero, Nat.mul_zero] at hm
        omega
      · exact hpos
    have hmq : m / radices.prod < radix := Nat.div_lt_of_lt_mul (by rwa [Nat.mul_comm])
    have hle : n / radices.prod ≤ m / radices.prod := Nat.div_le_div_right hlt.le
    rw [digits_cons, digits_cons, Nat.mod_eq_of_lt hmq, Nat.mod_eq_of_lt (hle.trans_lt hmq),
      List.cons_lt_cons_iff]
    rcases Nat.lt_or_eq_of_le hle with hless | heq
    · exact .inl hless
    · refine .inr ⟨heq, ?_⟩
      have hn := Nat.div_add_mod n radices.prod
      have hm' := Nat.div_add_mod m radices.prod
      rw [heq] at hn
      have hrest : n % radices.prod < m % radices.prod := by omega
      rw [digits_congr (Nat.mod_mod n radices.prod).symm, digits_congr (Nat.mod_mod m radices.prod).symm]
      exact ih hrest (Nat.mod_lt m hpos)

end Lib.MixedRadix
