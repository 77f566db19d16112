/-
PrototypeLisp.Proofs.Decimal.Value — the rational number that a decimal stands
for.

A decimal is written with a sign, a coefficient and an exponent, and several
of them may stand for one number. At a given exponent there is only one, once
zero is written without a sign (`eq_of_value_eq`). A number brought into the
exponent range stays as it is when it lies there already.
-/
import Mathlib.Algebra.Order.Field.Basic
import Mathlib.Algebra.Order.Field.Rat
import Mathlib.Tactic.Linarith
import PrototypeLisp.Decimal.Basic

namespace PrototypeLisp.Decimal

/-! ## Signs -/

/-- The factor that a sign stands for. -/
def unit (negative : Bool) : ℚ :=
  if negative then -1 else 1

@[simp] theorem unit_false : unit false = 1 := rfl

@[simp] theorem unit_true : unit true = -1 := rfl

theorem unit_ne_zero (negative : Bool) : unit negative ≠ 0 := by
  cases negative <;> simp

@[simp] theorem abs_unit (negative : Bool) : |unit negative| = 1 := by
  cases negative <;> simp

/-- The sign of a quotient. -/
theorem unit_bne (a b : Bool) : unit (a != b) = unit a / unit b := by
  cases a <;> cases b <;> simp

/-! ## Values -/

/-- The rational number that a decimal stands for. -/
def value (d : Decimal) : ℚ :=
  unit d.negative * d.coefficient * 10 ^ d.exponent

theorem ten_zpow_pos (e : ℤ) : (0 : ℚ) < 10 ^ e :=
  zpow_pos (by norm_num) e

theorem cast_scaleUp (n k : Nat) : (scaleUp n k : ℚ) = n * 10 ^ k := by
  have hscale : scaleUp n k = n * 10 ^ k := scaleUp_eq n k
  rw [hscale]
  push_cast
  rfl

/-- Zero has the coefficient zero, whatever its sign and exponent. -/
theorem value_eq_zero_iff (d : Decimal) : d.value = 0 ↔ d.coefficient = 0 := by
  unfold value
  rw [mul_eq_zero, mul_eq_zero, Nat.cast_eq_zero]
  have hunit := unit_ne_zero d.negative
  have hpow := (ten_zpow_pos d.exponent).ne'
  tauto

/-- A number is a multiple of the power of ten at its exponent. -/
theorem exists_multiple (d : Decimal) : ∃ m : ℤ, d.value = m * 10 ^ d.exponent := by
  unfold value
  cases d.negative with
  | false => exact ⟨d.coefficient, by simp⟩
  | true => exact ⟨-d.coefficient, by simp⟩

/-- Numbers of one exponent and one value are written alike, if they do not
have a minus sign before zero. -/
theorem eq_of_value_eq {a b : Decimal} (hexponent : a.exponent = b.exponent)
    (hvalue : a.value = b.value) (ha : a.coefficient = 0 → a.negative = false)
    (hb : b.coefficient = 0 → b.negative = false) : a = b := by
  obtain ⟨na, ca, e⟩ := a
  obtain ⟨nb, cb, e'⟩ := b
  obtain rfl : e = e' := hexponent
  have hsigned : unit na * ca = unit nb * cb := mul_right_cancel₀ (ten_zpow_pos e).ne' hvalue
  have hsize : ca = cb := by
    have habs := congrArg abs hsigned
    rw [abs_mul, abs_mul, abs_unit, abs_unit, Nat.abs_cast, Nat.abs_cast] at habs
    exact_mod_cast mul_left_cancel₀ one_ne_zero habs
  subst hsize
  by_cases hzero : ca = 0
  · rw [show na = false from ha hzero, show nb = false from hb hzero]
  · have hunits : unit na = unit nb := mul_right_cancel₀ (by exact_mod_cast hzero) hsigned
    have hsame : na = nb := by
      cases na <;> cases nb <;> first | rfl | (norm_num at hunits)
    rw [hsame]

/-! ## The exponent range -/

/-- What lies in the exponent range is kept as it is. -/
theorem settle_of_inRange {d : Decimal} (hrange : d.InRange) : d.settle = .ok d := by
  obtain ⟨hmin, hmax⟩ := hrange
  unfold settle
  split
  · rename_i hzero
    have hadjusted : d.adjusted = d.exponent := by
      unfold adjusted
      rw [hzero, show digitCount 0 = 1 from rfl]
      omega
    have hsame : max minExponent (min maxAdjusted d.exponent) = d.exponent := by omega
    rw [hsame]
  · rw [if_neg (by omega), if_neg (by omega)]

end PrototypeLisp.Decimal
