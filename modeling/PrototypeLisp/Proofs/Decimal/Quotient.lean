/-
PrototypeLisp.Proofs.Decimal.Quotient — what division gives.

A quotient with a finite decimal expansion is given exactly, at the wished
scale or at the least scale that writes it, whichever is larger. Any other
quotient is rounded to the wished scale, and there it is the one multiple that
is nearest: a tie would be a finite expansion with one more digit, so none
occurs. `IsQuotient` says this about a rational number; one decimal only
fits it, and it is what division gives whenever it lies in the exponent range.
-/
import Mathlib.Data.Nat.Cast.Field
import Mathlib.Logic.ExistsUnique
import PrototypeLisp.Proofs.Decimal.Terminating
import PrototypeLisp.Proofs.Operator.Overflow

namespace PrototypeLisp.Decimal

/-! ## Rounding -/

/-- A quotient without remainder is not rounded. -/
theorem roundHalfEven_of_dvd {n d : Nat} (hd : 0 < d) (hdvd : d ∣ n) :
    (roundHalfEven n d : ℚ) = n / d := by
  have hrest : n % d = 0 := Nat.mod_eq_zero_of_dvd hdvd
  have hround : roundHalfEven n d = n / d := by
    simp only [roundHalfEven, hrest]
    rw [if_pos (by omega)]
  rw [hround, Nat.cast_div hdvd (by exact_mod_cast hd.ne')]

/-- Where no tie can occur, the rounded quotient is less than one half away. -/
theorem roundHalfEven_near {n d : Nat} (hd : 0 < d) (htie : ¬ d ∣ 2 * n) :
    |(roundHalfEven n d : ℚ) - n / d| < 1 / 2 := by
  have hsplit : d * (n / d) + n % d = n := Nat.div_add_mod n d
  have hne : 2 * (n % d) ≠ d := by
    intro heq
    refine htie ⟨2 * (n / d) + 1, ?_⟩
    calc 2 * n = 2 * (d * (n / d) + n % d) := by rw [hsplit]
      _ = d * (2 * (n / d)) + 2 * (n % d) := by ring
      _ = d * (2 * (n / d) + 1) := by rw [heq]; ring
  have hlt : n % d < d := Nat.mod_lt n hd
  unfold roundHalfEven
  generalize n / d = whole, n % d = rest at hsplit hne hlt
  have hd' : (0 : ℚ) < d := by exact_mod_cast hd
  have hvalue : (n : ℚ) / d = whole + rest / d := by
    have hcast : (n : ℚ) = d * whole + rest := by exact_mod_cast hsplit.symm
    rw [hcast]
    field_simp
  have hrest : (0 : ℚ) ≤ rest / d ∧ (rest : ℚ) / d < 1 := by
    refine ⟨by positivity, ?_⟩
    rw [div_lt_one hd']
    exact_mod_cast hlt
  rw [hvalue, abs_lt]
  by_cases hdown : 2 * rest < d
  · have hhalf : (rest : ℚ) / d < 1 / 2 := by
      rw [div_lt_div_iff₀ hd' (by norm_num)]
      exact_mod_cast (by omega : rest * 2 < 1 * d)
    rw [if_pos hdown]
    constructor <;> linarith
  · have hhalf : (1 : ℚ) / 2 < rest / d := by
      rw [div_lt_div_iff₀ (by norm_num) hd']
      exact_mod_cast (by omega : 1 * d < rest * 2)
    rw [if_neg hdown, if_pos (by omega)]
    push_cast
    constructor <;> linarith

/-! ## The quotient as a fraction -/

theorem scaleUp_pos {n : Nat} (hn : 0 < n) (k : Nat) : 0 < scaleUp n k := by
  rw [scaleUp_eq]
  exact Nat.mul_pos hn (Nat.pow_pos (by decide))

/-- Scaling numerator or denominator scales the fraction. -/
theorem scaleUp_div_scaleUp (n d : Nat) (e : ℤ) :
    (scaleUp n e.toNat : ℚ) / scaleUp d (-e).toNat = n / d * 10 ^ e := by
  have hpow : (10 : ℚ) ^ e = 10 ^ e.toNat / 10 ^ (-e).toNat := by
    rw [← zpow_natCast, ← zpow_natCast, ← zpow_sub₀ (by norm_num), Int.toNat_sub_toNat_neg]
  rw [cast_scaleUp, cast_scaleUp, hpow, mul_div_mul_comm]

section

variable {a b : Decimal} (hb : b.coefficient ≠ 0)

include hb

theorem ratio_pos : 0 < (ratio a b).2 := by
  have hpos := scaleUp_pos (Nat.pos_of_ne_zero hb) (b.exponent - a.exponent).toNat
  exact Nat.div_pos (Nat.gcd_le_right _ hpos) (Nat.gcd_pos_of_pos_right _ hpos)

theorem ratio_coprime : Nat.Coprime (ratio a b).1 (ratio a b).2 := by
  have hpos := scaleUp_pos (Nat.pos_of_ne_zero hb) (b.exponent - a.exponent).toNat
  exact Nat.coprime_div_gcd_div_gcd (Nat.gcd_pos_of_pos_right _ hpos)

/-- Lowest terms do not change the fraction. -/
theorem ratio_div : ((ratio a b).1 : ℚ) / (ratio a b).2 =
    a.coefficient / b.coefficient * 10 ^ (a.exponent - b.exponent) := by
  have hpos := scaleUp_pos (Nat.pos_of_ne_zero hb) (b.exponent - a.exponent).toNat
  have hscaled := scaleUp_div_scaleUp a.coefficient b.coefficient (a.exponent - b.exponent)
  rw [Int.neg_sub] at hscaled
  rw [← hscaled]
  unfold ratio
  generalize scaleUp a.coefficient (a.exponent - b.exponent).toNat = n,
    scaleUp b.coefficient (b.exponent - a.exponent).toNat = d at hpos
  have hgcd : ((n.gcd d : ℕ) : ℚ) ≠ 0 := by exact_mod_cast (Nat.gcd_pos_of_pos_right n hpos).ne'
  simp only
  rw [Nat.cast_div (Nat.gcd_dvd_left n d) hgcd, Nat.cast_div (Nat.gcd_dvd_right n d) hgcd,
    div_div_div_cancel_right₀ hgcd]

/-- The quotient of two values as a sign and a fraction in lowest terms. -/
theorem value_div_value : a.value / b.value =
    unit (a.negative != b.negative) * ((ratio a b).1 / (ratio a b).2) := by
  rw [ratio_div hb, unit_bne, zpow_sub₀ (by norm_num), value, value, mul_div_mul_comm,
    mul_div_mul_comm, mul_assoc]

/-- The quotient has a finite expansion when the denominator has a scale. -/
theorem writes_div_iff (k : Nat) : Writes k (a.value / b.value) ↔
    ∃ needed, terminatingScale (ratio a b).2 = some needed ∧ needed ≤ k := by
  rw [value_div_value hb, writes_iff (ratio_pos hb) (ratio_coprime hb),
    dvd_ten_pow_iff (ratio_pos hb)]

/-- A denominator with a scale divides the numerator once it is scaled. -/
theorem scaleUp_dvd_scaleUp {needed : Nat}
    (hscale : terminatingScale (ratio a b).2 = some needed) {places : ℤ}
    (hplaces : needed ≤ places) :
    scaleUp (ratio a b).2 (-places).toNat ∣ scaleUp (ratio a b).1 places.toNat := by
  have hdvd : (ratio a b).2 ∣ 10 ^ places.toNat :=
    (dvd_ten_pow_iff (ratio_pos hb) _).2 ⟨needed, hscale, by omega⟩
  rw [scaleUp_eq, scaleUp_eq, show (-places).toNat = 0 by omega]
  exact Nat.dvd_trans (by simp) (Nat.dvd_trans hdvd (Nat.dvd_mul_left _ _))

/-- A tie would be a finite expansion with one more digit. -/
theorem not_scaleUp_dvd (hscale : terminatingScale (ratio a b).2 = none) (places : ℤ) :
    ¬ scaleUp (ratio a b).2 (-places).toNat ∣ 2 * scaleUp (ratio a b).1 places.toNat := by
  intro htie
  have hdvd : (ratio a b).2 ∣ (ratio a b).1 * (2 * 10 ^ places.toNat) := by
    have hfirst : (ratio a b).2 ∣ scaleUp (ratio a b).2 (-places).toNat := by
      rw [scaleUp_eq]
      exact Nat.dvd_mul_right _ _
    refine Nat.dvd_trans hfirst (Nat.dvd_trans htie ?_)
    rw [scaleUp_eq, Nat.mul_left_comm]
    exact Nat.dvd_refl _
  have hten : 2 * 10 ^ places.toNat ∣ 10 ^ (places.toNat + 1) := by
    rw [Nat.pow_succ, Nat.mul_comm 2]
    exact Nat.mul_dvd_mul_left _ (by decide)
  have hpower : (ratio a b).2 ∣ 10 ^ (places.toNat + 1) :=
    Nat.dvd_trans ((ratio_coprime hb).symm.dvd_of_dvd_mul_left hdvd) hten
  obtain ⟨needed, hsome, -⟩ := (dvd_ten_pow_iff (ratio_pos hb) _).1 hpower
  rw [hscale] at hsome
  simp at hsome

end

/-! ## What division gives -/

/-- The decimal is the quotient `q` at the wished scale. -/
structure IsQuotient (q : ℚ) (wished : ℤ) (r : Decimal) : Prop where
  /-- A finite expansion is given exactly, at the wished scale or at the least
  one that writes it. -/
  exact : ∀ k, IsLeast {k | Writes k q} k → r.value = q ∧ r.exponent = -max wished k
  /-- Any other number is rounded to the nearest multiple, which is less than
  half a unit away. -/
  nearest : (∀ k, ¬ Writes k q) → r.exponent = -wished ∧ |r.value - q| < 10 ^ (-wished) / 2 ∧
    ∀ m : ℤ, m * 10 ^ (-wished) ≠ r.value → |r.value - q| < |m * 10 ^ (-wished) - q|
  /-- Zero has no sign. -/
  unsigned : r.coefficient = 0 → r.negative = false

/-- A multiple of a unit that is less than half a unit away is nearer than
every other one. -/
theorem abs_sub_lt_of_ne {u q : ℚ} {c m : ℤ} (hu : 0 < u) (hnear : |c * u - q| < u / 2)
    (hne : m * u ≠ c * u) : |c * u - q| < |m * u - q| := by
  have hsteps : (1 : ℚ) ≤ |(m : ℚ) - c| := by
    have hint : m - c ≠ 0 := fun heq => hne (by rw [Int.sub_eq_zero.1 heq])
    exact_mod_cast Int.one_le_abs hint
  have hapart : u ≤ |m * u - c * u| := by
    rw [← sub_mul, abs_mul, abs_of_pos hu]
    exact le_mul_of_one_le_left hu.le hsteps
  have htriangle : |m * u - c * u| ≤ |m * u - q| + |c * u - q| := by
    have h := abs_sub (m * u - q) (c * u - q)
    rwa [sub_sub_sub_cancel_right] at h
  linarith

section

variable {a b : Decimal}

/-- The sign of the result can be taken from the operands. -/
theorem value_rawQuotient (a b : Decimal) (wished : ℤ) :
    (rawQuotient a b wished).value = unit (a.negative != b.negative) *
      (rawQuotient a b wished).coefficient * 10 ^ (rawQuotient a b wished).exponent := by
  unfold value
  by_cases hzero : (rawQuotient a b wished).coefficient = 0
  · simp [hzero]
  · have hsign : (rawQuotient a b wished).negative = (a.negative != b.negative) := by
      show ((rawQuotient a b wished).coefficient != 0 && _) = _
      simp [hzero]
    rw [hsign]

variable (hb : b.coefficient ≠ 0)

include hb

/-- The result is off by what rounding adds, in units of its last digit. -/
theorem abs_value_rawQuotient_sub (wished : ℤ) {places : ℤ}
    (hplaces : quotientScale (ratio a b).2 wished = places) {n d : Nat}
    (hn : scaleUp (ratio a b).1 places.toNat = n) (hd : scaleUp (ratio a b).2 (-places).toNat = d) :
    |(rawQuotient a b wished).value - a.value / b.value| =
      |(roundHalfEven n d : ℚ) - n / d| * 10 ^ (-places) := by
  have hscaled := scaleUp_div_scaleUp (ratio a b).1 (ratio a b).2 places
  have hcoefficient : (rawQuotient a b wished).coefficient = roundHalfEven n d := by
    subst hplaces hn hd
    rfl
  have hexponent : (rawQuotient a b wished).exponent = -places := by
    subst hplaces
    rfl
  have hback : ((ratio a b).1 / (ratio a b).2 : ℚ) = n / d * 10 ^ (-places) := by
    rw [hn, hd] at hscaled
    rw [hscaled, mul_assoc, ← zpow_add₀ (by norm_num), add_neg_cancel, zpow_zero, mul_one]
  rw [value_rawQuotient, hcoefficient, hexponent, value_div_value hb, hback, mul_assoc,
    ← mul_sub, ← sub_mul, abs_mul, abs_mul, abs_unit, one_mul, abs_of_pos (ten_zpow_pos _)]

/-- A finite expansion is formed exactly. -/
theorem value_rawQuotient_of_some {needed : Nat}
    (hscale : terminatingScale (ratio a b).2 = some needed) (wished : ℤ) :
    (rawQuotient a b wished).value = a.value / b.value ∧
      (rawQuotient a b wished).exponent = -max wished needed := by
  have hplaces : quotientScale (ratio a b).2 wished = max wished needed := by
    simp [quotientScale, hscale]
  have hdvd := scaleUp_dvd_scaleUp hb hscale (le_max_right wished needed)
  have hoff := abs_value_rawQuotient_sub hb wished hplaces rfl rfl
  rw [roundHalfEven_of_dvd (scaleUp_pos (ratio_pos hb) _) hdvd, sub_self, abs_zero, zero_mul,
    abs_eq_zero, sub_eq_zero] at hoff
  exact ⟨hoff, congrArg Neg.neg hplaces⟩

/-- Any other quotient is formed less than half a unit away. -/
theorem value_rawQuotient_of_none (hscale : terminatingScale (ratio a b).2 = none) (wished : ℤ) :
    |(rawQuotient a b wished).value - a.value / b.value| < 10 ^ (-wished) / 2 ∧
      (rawQuotient a b wished).exponent = -wished := by
  have hplaces : quotientScale (ratio a b).2 wished = wished := by simp [quotientScale, hscale]
  have hnear := roundHalfEven_near (scaleUp_pos (ratio_pos hb) (-wished).toNat)
    (not_scaleUp_dvd hb hscale wished)
  refine ⟨?_, congrArg Neg.neg hplaces⟩
  calc |(rawQuotient a b wished).value - a.value / b.value|
    _ = _ * 10 ^ (-wished) := abs_value_rawQuotient_sub hb wished hplaces rfl rfl
    _ < 1 / 2 * 10 ^ (-wished) := mul_lt_mul_of_pos_right hnear (ten_zpow_pos _)
    _ = 10 ^ (-wished) / 2 := by ring

/-- The result that division forms is the quotient at the wished scale. -/
theorem isQuotient_rawQuotient (wished : ℤ) :
    IsQuotient (a.value / b.value) wished (rawQuotient a b wished) where
  exact k hk := by
    obtain ⟨needed, hscale, hle⟩ := (writes_div_iff hb k).1 hk.1
    have hleast : k ≤ needed := hk.2 ((writes_div_iff hb needed).2 ⟨needed, hscale, le_refl _⟩)
    rw [le_antisymm hleast hle]
    exact value_rawQuotient_of_some hb hscale wished
  nearest hwrites := by
    have hscale : terminatingScale (ratio a b).2 = none := by
      refine Option.eq_none_iff_forall_ne_some.2 fun needed hsome => ?_
      exact hwrites needed ((writes_div_iff hb needed).2 ⟨needed, hsome, le_refl _⟩)
    obtain ⟨hnear, hexponent⟩ := value_rawQuotient_of_none hb hscale wished
    obtain ⟨c, hc⟩ := exists_multiple (rawQuotient a b wished)
    rw [hexponent] at hc
    refine ⟨hexponent, hnear, fun m hne => ?_⟩
    rw [hc] at hnear hne ⊢
    exact abs_sub_lt_of_ne (ten_zpow_pos _) hnear hne
  unsigned hzero := by
    show ((rawQuotient a b wished).coefficient != 0 && _) = false
    simp [hzero]

end

/-- One decimal only is the quotient of two numbers at a scale. -/
theorem IsQuotient.unique {q : ℚ} {wished : ℤ} {r r' : Decimal} (h : IsQuotient q wished r)
    (h' : IsQuotient q wished r') : r = r' := by
  by_cases hwrites : Terminates q
  · obtain ⟨k, hleast⟩ := hwrites.exists_isLeast
    obtain ⟨hvalue, hexponent⟩ := h.exact _ hleast
    obtain ⟨hvalue', hexponent'⟩ := h'.exact _ hleast
    exact eq_of_value_eq (hexponent.trans hexponent'.symm) (hvalue.trans hvalue'.symm)
      h.unsigned h'.unsigned
  · have hnone : ∀ k, ¬ Writes k q := fun k hk => hwrites ⟨k, hk⟩
    obtain ⟨hexponent, -, hnearer⟩ := h.nearest hnone
    obtain ⟨hexponent', -, hnearer'⟩ := h'.nearest hnone
    obtain ⟨m, hm⟩ := exists_multiple r
    obtain ⟨m', hm'⟩ := exists_multiple r'
    rw [hexponent] at hm
    rw [hexponent'] at hm'
    refine eq_of_value_eq (hexponent.trans hexponent'.symm) ?_ h.unsigned h'.unsigned
    -- each of two different multiples would be nearer than the other
    by_contra hne
    have hlt := hnearer m' (by rw [← hm']; exact fun heq => hne heq.symm)
    have hlt' := hnearer' m (by rw [← hm]; exact hne)
    rw [← hm'] at hlt
    rw [← hm] at hlt'
    exact lt_asymm hlt hlt'

/-- A finite expansion is given exactly. -/
theorem IsQuotient.value_eq {q : ℚ} {wished : ℤ} {r : Decimal} (h : IsQuotient q wished r)
    (hq : Terminates q) : r.value = q := by
  obtain ⟨k, hleast⟩ := hq.exists_isLeast
  exact (h.exact k hleast).1

/-- The scale of a quotient is the wished one or larger. -/
theorem IsQuotient.wished_le_scale {q : ℚ} {wished : ℤ} {r : Decimal}
    (h : IsQuotient q wished r) : wished ≤ r.scale := by
  unfold scale
  by_cases hq : Terminates q
  · obtain ⟨k, hleast⟩ := hq.exists_isLeast
    rw [(h.exact k hleast).2, neg_neg]
    exact le_max_left _ _
  · rw [(h.nearest fun k hk => hq ⟨k, hk⟩).1, neg_neg]

/-- Bringing a result into the exponent range is never a division by zero. -/
theorem settle_ne_divisionByZero (d x y : Decimal) : d.settle ≠ .error (.divisionByZero x y) := by
  unfold settle
  split
  · simp
  · split
    · simp
    · split <;> simp

/-- Division fails for a divisor of value zero, whatever its sign and scale.
For any other divisor there is exactly one decimal that is the quotient at the
wished scale: exact if that can be written, the nearest one if not. Division
gives it whenever it lies in the exponent range. -/
theorem quotient_exact_or_nearest (a b : Decimal) (wished : ℤ) :
    (∀ x y, quotient a b wished = .error (.divisionByZero x y) ↔
      b.value = 0 ∧ x = a ∧ y = b) ∧
    (b.value ≠ 0 → (∃! r, IsQuotient (a.value / b.value) wished r) ∧
      ∀ r, IsQuotient (a.value / b.value) wished r → r.InRange →
        quotient a b wished = .ok r) := by
  rw [value_eq_zero_iff, Ne, value_eq_zero_iff, quotient_eq]
  refine ⟨fun x y => ?_, fun hb => ?_⟩
  · by_cases hb : b.coefficient = 0
    · rw [if_pos hb]
      simp [hb, eq_comm]
    · rw [if_neg hb]
      simp [hb, settle_ne_divisionByZero]
  · have hquotient := isQuotient_rawQuotient (a := a) hb wished
    refine ⟨⟨_, hquotient, fun r hr => hr.unique hquotient⟩, fun r hr hrange => ?_⟩
    rw [if_neg hb, ← hr.unique hquotient]
    exact settle_of_inRange hrange

/-- `-2.0 / 3` has no finite expansion and is rounded to `-0.7`, and a zero
with a sign and a scale divides nothing. -/
theorem quotient_exact_or_nearest_thirds :
    value ⟨false, 3, 0⟩ ≠ 0 ∧ InRange ⟨true, 7, -1⟩ ∧
    IsQuotient (value ⟨true, 20, -1⟩ / value ⟨false, 3, 0⟩) 1 ⟨true, 7, -1⟩ ∧
    quotient ⟨true, 20, -1⟩ ⟨false, 3, 0⟩ 1 = .ok ⟨true, 7, -1⟩ ∧
    value ⟨true, 0, -3⟩ = 0 ∧ quotient ⟨false, 1, 0⟩ ⟨true, 0, -3⟩ 0 =
      .error (.divisionByZero ⟨false, 1, 0⟩ ⟨true, 0, -3⟩) := by
  have hthree : value ⟨false, 3, 0⟩ ≠ 0 := by simp [value_eq_zero_iff]
  have hzero : value ⟨true, 0, -3⟩ = 0 := by simp [value_eq_zero_iff]
  have hrange : InRange ⟨true, 7, -1⟩ := by decide +kernel
  have hrounded : IsQuotient (value ⟨true, 20, -1⟩ / value ⟨false, 3, 0⟩) 1 ⟨true, 7, -1⟩ := by
    have hraw : rawQuotient ⟨true, 20, -1⟩ ⟨false, 3, 0⟩ 1 = ⟨true, 7, -1⟩ := by decide +kernel
    rw [← hraw]
    exact isQuotient_rawQuotient (by decide) 1
  exact ⟨hthree, hrange, hrounded,
    ((quotient_exact_or_nearest _ _ _).2 hthree).2 _ hrounded hrange, hzero,
    ((quotient_exact_or_nearest _ _ _).1 _ _).2 ⟨hzero, rfl, rfl⟩⟩

/-- An exact quotient has a digit more than wished where it needs one. -/
example : quotient ⟨false, 10, -1⟩ ⟨false, 4, 0⟩ 1 = .ok ⟨false, 25, -2⟩ := by decide +kernel

end PrototypeLisp.Decimal
