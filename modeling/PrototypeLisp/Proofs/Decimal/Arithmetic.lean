/-
PrototypeLisp.Proofs.Decimal.Arithmetic — what sums and products stand for.

Adding and multiplying decimals adds and multiplies the numbers they stand
for. Which of the decimals of one value comes out is settled by the exponent
and the sign: a sum has the smallest exponent and no sign before zero, a
product has the sum of the exponents and the product of the signs, also before
zero. `IsSum` and `IsProduct` say this about a list of numbers. One decimal
only fits either of them, and neither depends on the order or the grouping of
the list.
-/
import Mathlib.Algebra.BigOperators.Group.List.Basic
import Mathlib.Tactic.Ring
import PrototypeLisp.Decimal.Arithmetic
import PrototypeLisp.Proofs.Decimal.Value

namespace PrototypeLisp.Decimal

/-! ## One step -/

/-- The sign of a product. -/
theorem unit_bne_eq_mul (a b : Bool) : unit (a != b) = unit a * unit b := by
  cases a <;> cases b <;> simp

@[simp] theorem value_ofNat (n : Nat) : (ofNat n).value = n := by
  simp [ofNat, value]

@[simp] theorem exponent_neg (d : Decimal) : d.neg.exponent = d.exponent := rfl

@[simp] theorem value_neg (d : Decimal) : d.neg.value = -d.value := by
  obtain ⟨negative, coefficient, exponent⟩ := d
  cases negative <;> simp [value, neg]

/-- A number written at a smaller exponent. -/
theorem value_eq_scaleUp (d : Decimal) {e : ℤ} (he : e ≤ d.exponent) :
    d.value = unit d.negative * scaleUp d.coefficient (d.exponent - e).toNat * 10 ^ e := by
  have hpow : (10 : ℚ) ^ d.exponent = 10 ^ (d.exponent - e).toNat * 10 ^ e := by
    rw [← zpow_natCast, ← zpow_add₀ (by norm_num), Int.toNat_of_nonneg (by omega),
      sub_add_cancel]
  rw [value, hpow, cast_scaleUp]
  ring

@[simp] theorem exponent_exactAdd (a b : Decimal) :
    (exactAdd a b).exponent = min a.exponent b.exponent := by
  unfold exactAdd
  dsimp only
  split
  · rfl
  · split
    · rfl
    · split <;> rfl

/-- Both addends are written at the smaller exponent. There the coefficients
are added or, under different signs, the smaller one is taken from the
larger, which gives its sign. -/
@[simp] theorem value_exactAdd (a b : Decimal) :
    (exactAdd a b).value = a.value + b.value := by
  rw [value_eq_scaleUp a (min_le_left a.exponent b.exponent),
    value_eq_scaleUp b (min_le_right a.exponent b.exponent), ← add_mul]
  unfold exactAdd
  dsimp only
  generalize scaleUp a.coefficient _ = m, scaleUp b.coefficient _ = n
  split
  · rename_i hsign
    rw [hsign]
    simp only [value, Nat.cast_add]
    ring
  · rename_i hsign
    have hunit : unit b.negative = -unit a.negative := by
      cases ha : a.negative <;> cases hb : b.negative <;> simp_all
    rw [hunit]
    split
    · rename_i hlt
      simp only [value, Nat.cast_sub hlt.le]
      ring
    · split
      · rename_i hlt
        simp only [value, hunit, Nat.cast_sub hlt.le]
        ring
      · obtain rfl : m = n := by omega
        simp [value]

/-- A sum that is zero has no sign, unless it starts from a zero with a
sign. -/
theorem unsigned_exactAdd {a : Decimal} (ha : a.coefficient = 0 → a.negative = false)
    (b : Decimal) (hzero : (exactAdd a b).coefficient = 0) :
    (exactAdd a b).negative = false := by
  unfold exactAdd at hzero ⊢
  dsimp only at hzero ⊢
  split at hzero
  · rename_i hsign
    rw [if_pos hsign]
    refine ha ?_
    have hscaled : scaleUp a.coefficient (a.exponent - min a.exponent b.exponent).toNat = 0 :=
      (Nat.add_eq_zero_iff.1 hzero).1
    rw [scaleUp_eq, Nat.mul_eq_zero] at hscaled
    exact hscaled.resolve_right (Nat.pow_pos (by decide)).ne'
  · rename_i hsign
    split at hzero
    · dsimp only at hzero
      omega
    · rename_i hge
      split at hzero
      · dsimp only at hzero
        omega
      · rename_i hle
        rw [if_neg hsign, if_neg hge, if_neg hle]

@[simp] theorem exponent_exactMul (a b : Decimal) :
    (exactMul a b).exponent = a.exponent + b.exponent := rfl

@[simp] theorem negative_exactMul (a b : Decimal) :
    (exactMul a b).negative = xor a.negative b.negative := by
  cases ha : a.negative <;> cases hb : b.negative <;> simp [exactMul, ha, hb]

@[simp] theorem value_exactMul (a b : Decimal) :
    (exactMul a b).value = a.value * b.value := by
  simp only [exactMul, value, unit_bne_eq_mul, Nat.cast_mul]
  rw [zpow_add₀ (by norm_num)]
  ring

/-! ## Sums of lists -/

/-- The sum of numbers, on top of `start`. -/
def exactSum (start : Decimal) (values : List Decimal) : Decimal :=
  values.foldl exactAdd start

theorem exactSum_cons (start b : Decimal) (rest : List Decimal) :
    exactSum start (b :: rest) = exactSum (exactAdd start b) rest := rfl

/-- The smallest of `start` and the exponents of the numbers. -/
def leastExponent (start : ℤ) (values : List Decimal) : ℤ :=
  (values.map exponent).foldl min start

theorem value_exactSum (start : Decimal) (values : List Decimal) :
    (exactSum start values).value = start.value + (values.map value).sum := by
  induction values generalizing start with
  | nil => simp [exactSum]
  | cons b rest ih =>
    rw [exactSum_cons, ih, value_exactAdd, List.map_cons, List.sum_cons, add_assoc]

theorem exponent_exactSum (start : Decimal) (values : List Decimal) :
    (exactSum start values).exponent = leastExponent start.exponent values := by
  induction values generalizing start with
  | nil => rfl
  | cons b rest ih =>
    rw [exactSum_cons, ih, exponent_exactAdd]
    rfl

theorem unsigned_exactSum {start : Decimal} (values : List Decimal)
    (hstart : start.coefficient = 0 → start.negative = false) :
    (exactSum start values).coefficient = 0 → (exactSum start values).negative = false := by
  induction values generalizing start with
  | nil => exact hstart
  | cons b rest ih => exact ih (unsigned_exactAdd hstart b)

/-- The decimal is the sum of the numbers. -/
structure IsSum (values : List Decimal) (r : Decimal) : Prop where
  /-- It stands for the sum of what the numbers stand for. -/
  value : r.value = (values.map value).sum
  /-- It has the smallest exponent, and none above zero. -/
  exponent : r.exponent = leastExponent 0 values
  /-- Zero has no sign. -/
  unsigned : r.coefficient = 0 → r.negative = false

theorem isSum_exactSum (values : List Decimal) : IsSum values (exactSum (ofNat 0) values) where
  value := by simp [value_exactSum]
  exponent := exponent_exactSum _ _
  unsigned := unsigned_exactSum values fun _ => rfl

namespace IsSum

variable {xs ys : List Decimal} {a b r r' : Decimal}

theorem unique (h : IsSum xs r) (h' : IsSum xs r') : r = r' :=
  eq_of_value_eq (h.exponent.trans h'.exponent.symm) (h.value.trans h'.value.symm)
    h.unsigned h'.unsigned

/-- A sum does not depend on the order of its numbers. -/
theorem perm (hperm : xs.Perm ys) (h : IsSum xs r) : IsSum ys r where
  value := h.value.trans (hperm.map _).sum_eq
  exponent := h.exponent.trans ((hperm.map _).foldl_eq 0)
  unsigned := h.unsigned

/-- A sum of sums is a sum. -/
theorem append (hx : IsSum xs a) (hy : IsSum ys b) (h : IsSum [a, b] r) :
    IsSum (xs ++ ys) r where
  value := by simp [h.value, hx.value, hy.value]
  exponent := by
    have hle : min 0 (leastExponent 0 xs) = leastExponent 0 xs := by
      calc min 0 (leastExponent 0 xs) = leastExponent (min 0 0) xs := List.foldl_assoc.symm
        _ = leastExponent 0 xs := by rw [min_self]
    have hjoin : leastExponent 0 (xs ++ ys) = leastExponent (leastExponent 0 xs) ys := by
      simp [leastExponent]
    calc r.exponent = min (min 0 a.exponent) b.exponent := h.exponent
      _ = min (leastExponent 0 xs) (leastExponent 0 ys) := by rw [hx.exponent, hy.exponent, hle]
      _ = leastExponent (min (leastExponent 0 xs) 0) ys := List.foldl_assoc.symm
      _ = leastExponent 0 (xs ++ ys) := by rw [min_comm, hle, hjoin]
  unsigned := h.unsigned

end IsSum

/-! ## Differences -/

/-- The decimal is the first number less all the others. -/
structure IsDifference (first : Decimal) (rest : List Decimal) (r : Decimal) : Prop where
  /-- It stands for the difference of what the numbers stand for. -/
  value : r.value = first.value - (rest.map value).sum
  /-- It has the smallest exponent. -/
  exponent : r.exponent = leastExponent first.exponent rest

/-- The decimal is a number with the other sign, taken from zero. -/
structure IsNegation (d r : Decimal) : Prop where
  value : r.value = -d.value
  exponent : r.exponent = min 0 d.exponent
  /-- Zero has no sign. -/
  unsigned : r.coefficient = 0 → r.negative = false

/-- A number is subtracted by adding its negation. -/
theorem isDifference_exactSum (first : Decimal) (rest : List Decimal) :
    IsDifference first rest (exactSum first (rest.map neg)) where
  value := by
    have hneg : (rest.map neg).map value = (rest.map value).map (-·) := by simp
    rw [value_exactSum, hneg, ← List.sum_neg, sub_eq_add_neg]
  exponent := by
    rw [exponent_exactSum, leastExponent, List.map_map]
    rfl

theorem isNegation_exactAdd (d : Decimal) : IsNegation d (exactAdd (ofNat 0) d.neg) where
  value := by simp
  exponent := by simp [ofNat]
  unsigned := unsigned_exactAdd (fun _ => rfl) d.neg

/-! ## Products of lists -/

/-- The product of numbers, times `start`. -/
def exactProduct (start : Decimal) (values : List Decimal) : Decimal :=
  values.foldl exactMul start

theorem exactProduct_cons (start b : Decimal) (rest : List Decimal) :
    exactProduct start (b :: rest) = exactProduct (exactMul start b) rest := rfl

/-- The decimal is the product of the numbers. -/
structure IsProduct (values : List Decimal) (r : Decimal) : Prop where
  /-- It stands for the product of what the numbers stand for. -/
  value : r.value = (values.map value).prod
  /-- Its exponent is the sum of theirs. -/
  exponent : r.exponent = (values.map exponent).sum
  /-- Its sign is the product of theirs, before zero too. -/
  negative : r.negative = (values.map negative).foldl xor false

theorem value_exactProduct (start : Decimal) (values : List Decimal) :
    (exactProduct start values).value = start.value * (values.map value).prod := by
  induction values generalizing start with
  | nil => simp [exactProduct]
  | cons b rest ih =>
    rw [exactProduct_cons, ih, value_exactMul, List.map_cons, List.prod_cons, mul_assoc]

theorem exponent_exactProduct (start : Decimal) (values : List Decimal) :
    (exactProduct start values).exponent = start.exponent + (values.map exponent).sum := by
  induction values generalizing start with
  | nil => simp [exactProduct]
  | cons b rest ih =>
    rw [exactProduct_cons, ih, exponent_exactMul, List.map_cons, List.sum_cons, add_assoc]

theorem negative_exactProduct (start : Decimal) (values : List Decimal) :
    (exactProduct start values).negative =
      (values.map negative).foldl xor start.negative := by
  induction values generalizing start with
  | nil => rfl
  | cons b rest ih =>
    rw [exactProduct_cons, ih, negative_exactMul, List.map_cons, List.foldl_cons]

theorem isProduct_exactProduct (values : List Decimal) :
    IsProduct values (exactProduct (ofNat 1) values) where
  value := by simp [value_exactProduct]
  exponent := by simp [exponent_exactProduct, ofNat]
  negative := negative_exactProduct _ _

/-- Numbers of one sign, one exponent and one value are written alike. -/
theorem eq_of_negative_eq {a b : Decimal} (hnegative : a.negative = b.negative)
    (hexponent : a.exponent = b.exponent) (hvalue : a.value = b.value) : a = b := by
  obtain ⟨negative, ca, e⟩ := a
  obtain ⟨negative', cb, e'⟩ := b
  obtain rfl : negative = negative' := hnegative
  obtain rfl : e = e' := hexponent
  have hsigned : unit negative * ca = unit negative * cb :=
    mul_right_cancel₀ (ten_zpow_pos e).ne' hvalue
  have hsize : (ca : ℚ) = cb := mul_left_cancel₀ (unit_ne_zero negative) hsigned
  rw [Nat.cast_injective hsize]

namespace IsProduct

variable {xs ys : List Decimal} {a b r r' : Decimal}

theorem unique (h : IsProduct xs r) (h' : IsProduct xs r') : r = r' :=
  eq_of_negative_eq (h.negative.trans h'.negative.symm) (h.exponent.trans h'.exponent.symm)
    (h.value.trans h'.value.symm)

/-- A product does not depend on the order of its numbers. -/
theorem perm (hperm : xs.Perm ys) (h : IsProduct xs r) : IsProduct ys r where
  value := h.value.trans (hperm.map _).prod_eq
  exponent := h.exponent.trans (hperm.map _).sum_eq
  negative := by
    have : RightCommutative xor := ⟨Bool.xor_right_comm⟩
    exact h.negative.trans ((hperm.map _).foldl_eq false)

/-- A product of products is a product. -/
theorem append (hx : IsProduct xs a) (hy : IsProduct ys b) (h : IsProduct [a, b] r) :
    IsProduct (xs ++ ys) r where
  value := by simp [h.value, hx.value, hy.value]
  exponent := by simp [h.exponent, hx.exponent, hy.exponent]
  negative := by
    have hpair : r.negative = xor a.negative b.negative := by
      rw [h.negative]
      simp
    have hjoin : (ys.map Decimal.negative).foldl xor (xor a.negative false) =
        xor a.negative b.negative := by
      rw [hy.negative]
      exact List.foldl_assoc
    rw [hpair, ← hjoin, Bool.xor_false, hx.negative, List.map_append, List.foldl_append]

end IsProduct

end PrototypeLisp.Decimal
