/-
PrototypeLisp.Proofs.Decimal.Terminating — finite decimal expansions.

A fraction in lowest terms can be written with `k` digits after the point
exactly when its denominator divides the `k`-th power of ten (`writes_iff`).
Powers of ten have the prime factors two and five only, and as many of the one
as of the other. So a denominator divides some power of ten when nothing is
left of it without its twos and fives, and the least such power is the larger
of their numbers, which is what `terminatingScale` computes.
-/
import Mathlib.Data.Nat.Prime.Basic
import Mathlib.Order.Bounds.Defs
import Mathlib.Tactic.FieldSimp
import Mathlib.Tactic.Positivity
import Mathlib.Tactic.Ring
import PrototypeLisp.Decimal.Quotient
import PrototypeLisp.Proofs.Decimal.Value

namespace PrototypeLisp.Decimal

/-! ## Divisors of powers of ten -/

/-- Stripping a factor splits a number into a power of the factor and a rest
that the factor does not divide. -/
theorem stripFactor_spec {p n : Nat} (hp : 1 < p) (hn : 0 < n) :
    n = p ^ (stripFactor p n).1 * (stripFactor p n).2 ∧ ¬ p ∣ (stripFactor p n).2 := by
  induction n using Nat.strongRecOn with
  | _ n ih =>
    rw [stripFactor]
    by_cases hdvd : p ∣ n
    · have hzero : n % p = 0 := Nat.mod_eq_zero_of_dvd hdvd
      rw [dif_pos ⟨hp, hn, hzero⟩]
      have hpos : 0 < n / p := Nat.div_pos (Nat.le_of_dvd hn hdvd) (by omega)
      obtain ⟨hsplit, hrest⟩ := ih (n / p) (Nat.div_lt_self hn hp) hpos
      refine ⟨?_, hrest⟩
      calc n = p * (n / p) := (Nat.mul_div_cancel' hdvd).symm
        _ = p * (p ^ (stripFactor p (n / p)).1 * (stripFactor p (n / p)).2) := by rw [← hsplit]
        _ = p ^ ((stripFactor p (n / p)).1 + 1) * (stripFactor p (n / p)).2 := by ring
    · have hrest : n % p ≠ 0 := fun hzero => hdvd (Nat.dvd_of_mod_eq_zero hzero)
      rw [dif_neg (fun h => hrest h.2.2)]
      exact ⟨by simp, hdvd⟩

/-- The twos and fives of a divisor of a power of ten. -/
theorem two_pow_mul_five_pow_dvd_iff (i j k : Nat) :
    2 ^ i * 5 ^ j ∣ 10 ^ k ↔ max i j ≤ k := by
  have hten : (10 : Nat) ^ k = 2 ^ k * 5 ^ k := by rw [← Nat.mul_pow]
  have hcop : ∀ a b, Nat.Coprime (2 ^ a) (5 ^ b) := fun a b => Nat.Coprime.pow a b (by decide)
  rw [hten, Nat.max_le]
  constructor
  · intro hdvd
    have htwo : 2 ^ i ∣ 2 ^ k :=
      (hcop i k).dvd_of_dvd_mul_right (Nat.dvd_trans (Nat.dvd_mul_right _ _) hdvd)
    have hfive : 5 ^ j ∣ 5 ^ k :=
      (hcop k j).symm.dvd_of_dvd_mul_left (Nat.dvd_trans (Nat.dvd_mul_left _ _) hdvd)
    exact ⟨(Nat.pow_dvd_pow_iff_le_right (by decide)).1 htwo,
      (Nat.pow_dvd_pow_iff_le_right (by decide)).1 hfive⟩
  · rintro ⟨hi, hj⟩
    exact Nat.mul_dvd_mul (Nat.pow_dvd_pow 2 hi) (Nat.pow_dvd_pow 5 hj)

/-- What is left without twos and fives has no part in a power of ten. -/
theorem eq_one_of_dvd_ten_pow {m k : Nat} (htwo : ¬ 2 ∣ m) (hfive : ¬ 5 ∣ m)
    (hdvd : m ∣ 10 ^ k) : m = 1 := by
  have hten : Nat.Coprime m (2 * 5) :=
    .mul_right ((Nat.prime_two.coprime_iff_not_dvd).2 htwo).symm
      ((Nat.prime_five.coprime_iff_not_dvd).2 hfive).symm
  exact (hten.pow_right k).eq_one_of_dvd hdvd

/-- The scale of a denominator is the least power of ten that it divides, and
a denominator without a scale divides none. -/
theorem dvd_ten_pow_iff {d : Nat} (hd : 0 < d) (k : Nat) :
    d ∣ 10 ^ k ↔ ∃ needed, terminatingScale d = some needed ∧ needed ≤ k := by
  obtain ⟨hsplit, hodd⟩ := stripFactor_spec (p := 2) (by decide) hd
  generalize htwos : stripFactor 2 d = twos at hsplit hodd
  obtain ⟨i, rest⟩ := twos
  have hpos : 0 < rest := Nat.pos_of_ne_zero fun hzero => hodd (by simp [hzero])
  obtain ⟨hsplit', hfive⟩ := stripFactor_spec (p := 5) (by decide) hpos
  generalize hfives : stripFactor 5 rest = fives at hsplit' hfive
  obtain ⟨j, m⟩ := fives
  have hscale : terminatingScale d = if m = 1 then some (max i j) else none := by
    simp only [terminatingScale, Int.toNat_natCast, htwos, hfives]
  simp only at hsplit hodd hsplit' hfive
  rw [hscale]
  by_cases hm : m = 1
  · rw [hm, Nat.mul_one] at hsplit'
    rw [if_pos hm, hsplit, hsplit', two_pow_mul_five_pow_dvd_iff]
    simp
  · rw [if_neg hm]
    refine ⟨fun hdvd => absurd ?_ hm, by simp⟩
    have htwo : ¬ 2 ∣ m := fun h => hodd (hsplit' ▸ Nat.dvd_trans h (Nat.dvd_mul_left _ _))
    refine eq_one_of_dvd_ten_pow htwo hfive (Nat.dvd_trans ?_ hdvd)
    rw [hsplit, hsplit']
    exact Nat.dvd_trans (Nat.dvd_mul_left _ _) (Nat.dvd_mul_left _ _)

/-! ## Finite expansions -/

/-- The number is written exactly with `k` digits after the point. -/
def Writes (k : Nat) (q : ℚ) : Prop :=
  ∃ m : ℤ, q * 10 ^ k = m

/-- A fraction in lowest terms is written with `k` digits when its denominator
divides the `k`-th power of ten. -/
theorem writes_iff {n d : Nat} (hd : 0 < d) (hcop : Nat.Coprime n d) (negative : Bool)
    (k : Nat) : Writes k (unit negative * (n / d)) ↔ d ∣ 10 ^ k := by
  have hd' : (d : ℚ) ≠ 0 := by exact_mod_cast hd.ne'
  constructor
  · rintro ⟨m, hm⟩
    have hsize : (n : ℚ) / d * 10 ^ k = m.natAbs := by
      rw [Nat.cast_natAbs, Int.cast_abs, ← hm, abs_mul, abs_mul, abs_unit, one_mul,
        abs_of_nonneg (by positivity), abs_of_nonneg (by positivity)]
    have habs : n * 10 ^ k = m.natAbs * d := by
      have hq : (n : ℚ) * 10 ^ k = m.natAbs * d := by
        rw [← hsize]
        field_simp
      exact_mod_cast hq
    exact hcop.symm.dvd_of_dvd_mul_left ⟨m.natAbs, by rw [habs, Nat.mul_comm]⟩
  · rintro ⟨c, hc⟩
    refine ⟨(if negative then -1 else 1) * (n * c : ℕ), ?_⟩
    have hten : (10 : ℚ) ^ k = d * c := by exact_mod_cast hc
    rw [hten]
    cases negative <;> simp <;> field_simp

/-- The number has a finite decimal expansion. -/
def Terminates (q : ℚ) : Prop :=
  ∃ k, Writes k q

/-- What a decimal stands for has a finite expansion. -/
theorem terminates_value (d : Decimal) : Terminates d.value := by
  obtain ⟨m, hm⟩ := exists_multiple d
  refine ⟨(-d.exponent).toNat, m * 10 ^ d.exponent.toNat, ?_⟩
  have hpow : (10 : ℚ) ^ d.exponent * 10 ^ (-d.exponent).toNat = 10 ^ d.exponent.toNat := by
    rw [← zpow_natCast, ← zpow_natCast, ← zpow_add₀ (by norm_num)]
    congr 1
    omega
  rw [hm, mul_assoc, hpow]
  push_cast
  rfl

/-- A product has a finite expansion if its factors have. -/
theorem Terminates.mul {p q : ℚ} (hp : Terminates p) (hq : Terminates q) :
    Terminates (p * q) := by
  obtain ⟨k, m, hm⟩ := hp
  obtain ⟨l, n, hn⟩ := hq
  refine ⟨k + l, m * n, ?_⟩
  calc p * q * 10 ^ (k + l) = (p * 10 ^ k) * (q * 10 ^ l) := by ring
    _ = (m * n : ℤ) := by
      rw [hm, hn]
      push_cast
      rfl

/-- A finite expansion has a least number of digits. -/
theorem Terminates.exists_isLeast {q : ℚ} (hq : Terminates q) :
    ∃ k, IsLeast {k | Writes k q} k := by
  classical
  exact ⟨Nat.find hq, Nat.find_spec hq, fun k hk => Nat.find_min' hq hk⟩

end PrototypeLisp.Decimal
