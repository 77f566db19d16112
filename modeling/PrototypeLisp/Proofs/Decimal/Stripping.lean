/-
PrototypeLisp.Proofs.Decimal.Stripping — the loops behind the scale of a
denominator.

Two loops find the scale: the first divides the denominator by two as long as
that goes, the second divides what is left by five, and each counts its turns.
`Strips` says how such a loop ends, if it does. A turn takes one factor off, so
a loop ends with the number of factors and with what is left without them, and
in no other way (`strips_iff`). The sign makes no difference to that. Zero has
no last factor, and it is the only number on which a loop goes on for ever.

`terminatingScale` is what the two loops find wherever they end
(`scales_iff`): the least power of ten that a positive denominator divides.
Division looks for the scale of a positive denominator only.
-/
import PrototypeLisp.Proofs.Decimal.Quotient

namespace PrototypeLisp.Decimal

/-! ## One loop -/

/-- The loop that divides by `p` as long as that goes, started with a number,
ends after so many turns and with this rest. Quotients are rounded down, and
remainders go with them. -/
inductive Strips (p : ℤ) : ℤ → ℕ → ℤ → Prop where
  | done {n : ℤ} (h : n.fmod p ≠ 0) : Strips p n 0 n
  | turn {n rest : ℤ} {turns : ℕ} (h : n.fmod p = 0) (hs : Strips p (n.fdiv p) turns rest) :
      Strips p n (turns + 1) rest

section

variable {p n rest : ℤ} {turns : ℕ}

/-- Zero stays zero, and there is always one more turn. -/
theorem Strips.ne_zero (h : Strips p n turns rest) : n ≠ 0 := by
  induction h with
  | done hn =>
    rintro rfl
    exact hn (Int.zero_fmod p)
  | turn hn hs ih =>
    rintro rfl
    exact ih (Int.zero_fdiv p)

/-- Each turn takes one factor off, and the loop goes on while there is one. -/
theorem Strips.split (h : Strips p n turns rest) : n = p ^ turns * rest ∧ ¬ p ∣ rest := by
  induction h with
  | done hn => exact ⟨by simp, fun hdvd => hn (Int.fmod_eq_zero_of_dvd hdvd)⟩
  | @turn n rest turns hn hs ih =>
    obtain ⟨hsplit, hrest⟩ := ih
    refine ⟨?_, hrest⟩
    calc n = p * n.fdiv p := (Int.mul_fdiv_cancel' (Int.dvd_of_fmod_eq_zero hn)).symm
      _ = p * (p ^ turns * rest) := by rw [← hsplit]
      _ = p ^ (turns + 1) * rest := by ring

/-- The loop takes off all factors that there are. -/
theorem strips_pow_mul (hp : p ≠ 0) (hrest : ¬ p ∣ rest) (turns : ℕ) :
    Strips p (p ^ turns * rest) turns rest := by
  induction turns with
  | zero =>
    rw [pow_zero, one_mul]
    exact .done fun hzero => hrest (Int.dvd_of_fmod_eq_zero hzero)
  | succ turns ih =>
    have hfactor : p ^ (turns + 1) * rest = p * (p ^ turns * rest) := by ring
    rw [hfactor]
    refine .turn (Int.fmod_eq_zero_of_dvd (Int.dvd_mul_right _ _)) ?_
    rwa [Int.mul_fdiv_cancel_left _ hp]

/-- A loop ends after as many turns as there are factors, with the rest. -/
theorem strips_iff (hp : p ≠ 0) :
    Strips p n turns rest ↔ n = p ^ turns * rest ∧ ¬ p ∣ rest := by
  refine ⟨Strips.split, ?_⟩
  rintro ⟨rfl, hrest⟩
  exact strips_pow_mul hp hrest turns

/-- A loop ends in one way only. -/
theorem Strips.unique {turns' : ℕ} {rest' : ℤ} (h : Strips p n turns rest)
    (h' : Strips p n turns' rest') : turns = turns' ∧ rest = rest' := by
  induction h generalizing turns' with
  | done hn =>
    cases h' with
    | done => exact ⟨rfl, rfl⟩
    | turn hzero => exact absurd hzero hn
  | turn hn hs ih =>
    cases h' with
    | done hne => exact absurd hn hne
    | turn _ hs' =>
      obtain ⟨rfl, rfl⟩ := ih hs'
      exact ⟨rfl, rfl⟩

/-- The loop takes the same turns on a number of the other sign. -/
theorem Strips.neg (hp : p ≠ 0) (h : Strips p n turns rest) : Strips p (-n) turns (-rest) := by
  obtain ⟨rfl, hrest⟩ := h.split
  rw [← mul_neg]
  exact strips_pow_mul hp (mt Int.dvd_neg.1 hrest) turns

/-- On a positive number the loop ends as `stripFactor` says. -/
theorem strips_stripFactor {p n : ℕ} (hp : 1 < p) (hn : 0 < n) :
    Strips p n (stripFactor p n).1 (stripFactor p n).2 := by
  obtain ⟨hsplit, hrest⟩ := stripFactor_spec hp hn
  refine (strips_iff (by omega)).2 ⟨by exact_mod_cast hsplit, ?_⟩
  rwa [Int.natCast_dvd_natCast]

/-- On every number but zero the loop ends. -/
theorem exists_strips {p : ℕ} (hp : 1 < p) (hn : n ≠ 0) :
    ∃ turns rest, Strips p n turns rest := by
  obtain ⟨m, rfl | rfl⟩ := n.eq_nat_or_neg
  · exact ⟨_, _, strips_stripFactor hp (by omega)⟩
  · exact ⟨_, _, (strips_stripFactor hp (by omega)).neg (by omega)⟩

end

/-! ## Both loops -/

/-- The loops, one after the other, both end, and this is the scale that they
find. -/
def Scales (denominator : ℤ) (scale? : Option ℕ) : Prop :=
  ∃ twos left fives rest, Strips 2 denominator twos left ∧ Strips 5 left fives rest ∧
    scale? = if rest = 1 then some (max twos fives) else none

theorem terminatingScale_of_neg {d : ℤ} (hd : d < 0) : terminatingScale d = none := by
  have hzero : d.toNat = 0 := by omega
  have hstrip : ∀ p, stripFactor p 0 = (0, 0) := fun p => by
    rw [stripFactor, dif_neg (by omega)]
  simp [terminatingScale, hzero, hstrip]

/-- What the loops find is the scale. -/
theorem terminatingScale_of_strips {d left rest : ℤ} {twos fives : ℕ}
    (htwos : Strips 2 d twos left) (hfives : Strips 5 left fives rest) :
    terminatingScale d = if rest = 1 then some (max twos fives) else none := by
  have hd := htwos.ne_zero
  obtain ⟨n, rfl | rfl⟩ := d.eq_nat_or_neg
  · have hn : 0 < n := by omega
    obtain ⟨rfl, rfl⟩ := htwos.unique (strips_stripFactor (p := 2) (by decide) hn)
    have hleft := hfives.ne_zero
    obtain ⟨rfl, rfl⟩ := hfives.unique (strips_stripFactor (p := 5) (by decide) (by omega))
    simp only [terminatingScale, Int.toNat_natCast, Nat.cast_eq_one]
  · have hn : -(n : ℤ) < 0 := by omega
    obtain ⟨hsplit, -⟩ := htwos.split
    obtain ⟨hsplit', -⟩ := hfives.split
    -- taking factors off keeps the sign, so one is never left
    have hne : rest ≠ 1 := by
      rintro rfl
      rw [hsplit', mul_one] at hsplit
      have hpos : (0 : ℤ) < 2 ^ twos * 5 ^ fives := by positivity
      omega
    rw [if_neg hne, terminatingScale_of_neg hn]

/-- The loops end on every denominator but zero, and find its scale. -/
theorem scales_iff {d : ℤ} {scale? : Option ℕ} :
    Scales d scale? ↔ d ≠ 0 ∧ scale? = terminatingScale d := by
  constructor
  · rintro ⟨twos, left, fives, rest, htwos, hfives, rfl⟩
    exact ⟨htwos.ne_zero, (terminatingScale_of_strips htwos hfives).symm⟩
  · rintro ⟨hd, rfl⟩
    obtain ⟨twos, left, htwos⟩ := exists_strips (p := 2) (by decide) hd
    have hleft : left ≠ 0 := fun hzero => htwos.split.2 (hzero ▸ Int.dvd_zero _)
    obtain ⟨fives, rest, hfives⟩ := exists_strips (p := 5) (by decide) hleft
    exact ⟨twos, left, fives, rest, htwos, hfives, terminatingScale_of_strips htwos hfives⟩

/-- The powers of ten that a positive denominator divides. -/
theorem dvd_ten_pow_iff_of_pos {d : ℤ} (hd : 0 < d) (k : ℕ) :
    d ∣ 10 ^ k ↔ ∃ needed, terminatingScale d = some needed ∧ needed ≤ k := by
  obtain ⟨n, rfl⟩ := Int.eq_ofNat_of_zero_le hd.le
  rw [← dvd_ten_pow_iff (by omega) k]
  exact_mod_cast Iff.rfl

/-- The scale of a positive denominator is the least power of ten that it
divides. -/
theorem terminatingScale_eq_some_iff {d : ℤ} (hd : 0 < d) (k : ℕ) :
    terminatingScale d = some k ↔ IsLeast {k : ℕ | d ∣ 10 ^ k} k := by
  have hdvd := dvd_ten_pow_iff_of_pos hd
  constructor
  · intro hscale
    refine ⟨(hdvd k).2 ⟨k, hscale, le_refl k⟩, fun l hl => ?_⟩
    obtain ⟨needed, hneeded, hle⟩ := (hdvd l).1 hl
    obtain rfl : k = needed := Option.some.inj (hscale.symm.trans hneeded)
    exact hle
  · rintro ⟨hk, hleast⟩
    obtain ⟨needed, hneeded, hle⟩ := (hdvd k).1 hk
    have hge : k ≤ needed := hleast ((hdvd needed).2 ⟨needed, hneeded, le_refl needed⟩)
    rw [hneeded, le_antisymm hle hge]

theorem terminatingScale_eq_none_iff {d : ℤ} (hd : 0 < d) :
    terminatingScale d = none ↔ ∀ k : ℕ, ¬ d ∣ 10 ^ k := by
  have hdvd := dvd_ten_pow_iff_of_pos hd
  constructor
  · rintro hnone k hk
    obtain ⟨needed, hneeded, -⟩ := (hdvd k).1 hk
    rw [hnone] at hneeded
    cases hneeded
  · intro hnever
    refine Option.eq_none_iff_forall_ne_some.2 fun needed hneeded => ?_
    exact hnever needed ((hdvd needed).2 ⟨needed, hneeded, le_refl needed⟩)

/-! ## The loops in division -/

/-- How many digits after the point division gives when it has found a scale. -/
def placesFor (wished : ℤ) : Option ℕ → ℤ
  | none => wished
  | some needed => max wished needed

/-- What is left to do when the number of digits is known. -/
def quotientAt (a b : Decimal) (places : ℤ) : Except Fault Decimal :=
  let rounded := roundHalfEven (scaleUp (ratio a b).1 places.toNat)
    (scaleUp (ratio a b).2 (-places).toNat)
  settle ⟨rounded != 0 && a.negative != b.negative, rounded, -places⟩

theorem quotient_eq_quotientAt {a b : Decimal} (hb : b.coefficient ≠ 0) (wished : ℤ) :
    quotient a b wished =
      quotientAt a b (placesFor wished (terminatingScale (ratio a b).2)) := by
  have hplaces : quotientScale (ratio a b).2 wished =
      placesFor wished (terminatingScale (ratio a b).2) := by
    unfold quotientScale placesFor
    cases terminatingScale (ratio a b).2 <;> rfl
  rw [quotient, if_neg hb, ← hplaces]
  rfl

/-- The denominator in lowest terms is that of the quotient. -/
theorem den_value_div_value {a b : Decimal} (hb : b.coefficient ≠ 0) :
    (a.value / b.value).den = (ratio a b).2 := by
  have hden : ((ratio a b).1 / (ratio a b).2 : ℚ).den = (ratio a b).2 := by
    have hpos : (0 : ℤ) < (ratio a b).2 := by exact_mod_cast ratio_pos hb
    have hcop : (Int.natAbs (ratio a b).1).Coprime (Int.natAbs (ratio a b).2) := by
      simpa using ratio_coprime hb
    have hlowest := Rat.den_div_eq_of_coprime hpos hcop
    rw [Int.cast_natCast, Int.cast_natCast] at hlowest
    exact_mod_cast hlowest
  rw [value_div_value hb]
  cases a.negative != b.negative with
  | false => rw [unit_false, one_mul, hden]
  | true => rw [unit_true, neg_one_mul, Rat.neg_den, hden]

/-- On a positive denominator both loops end, and they find the least power of
ten that it divides, or none if it divides no power of ten. On a negative
denominator they end and find none. They end on every denominator but zero, in
one way only, and division by a number other than zero never gets them to zero:
it looks for the scale of the quotient's denominator in lowest terms. -/
theorem loops_find_least_power :
    (∀ d : ℤ, 0 < d → Scales d (terminatingScale d) ∧
      (∀ k, terminatingScale d = some k ↔ IsLeast {k : ℕ | d ∣ 10 ^ k} k) ∧
      (terminatingScale d = none ↔ ∀ k : ℕ, ¬ d ∣ 10 ^ k)) ∧
    (∀ d : ℤ, d < 0 → Scales d none ∧ terminatingScale d = none) ∧
    (∀ d : ℤ, (∃ scale?, Scales d scale?) ↔ d ≠ 0) ∧
    (∀ d scale?, Scales d scale? → scale? = terminatingScale d) ∧
    ∀ (a b : Decimal) (wished : ℤ), b.value ≠ 0 →
      (ratio a b).2 ≠ 0 ∧ (ratio a b).2 = (a.value / b.value).den ∧
      ∃ needed, Scales (ratio a b).2 needed ∧
        quotient a b wished = quotientAt a b (placesFor wished needed) := by
  refine ⟨?_, ?_, ?_, ?_, ?_⟩
  · intro d hd
    exact ⟨scales_iff.2 ⟨hd.ne', rfl⟩, terminatingScale_eq_some_iff hd,
      terminatingScale_eq_none_iff hd⟩
  · intro d hd
    have hnone := terminatingScale_of_neg hd
    exact ⟨scales_iff.2 ⟨hd.ne, hnone.symm⟩, hnone⟩
  · intro d
    constructor
    · rintro ⟨scale?, h⟩
      exact (scales_iff.1 h).1
    · intro hd
      exact ⟨_, scales_iff.2 ⟨hd, rfl⟩⟩
  · intro d scale? h
    exact (scales_iff.1 h).2
  · intro a b wished hb
    have hb' : b.coefficient ≠ 0 := mt (value_eq_zero_iff b).2 hb
    have hne : (ratio a b).2 ≠ 0 := (ratio_pos hb').ne'
    have hends : Scales (ratio a b).2 (terminatingScale (ratio a b).2) :=
      scales_iff.2 ⟨by exact_mod_cast hne, rfl⟩
    exact ⟨hne, (den_value_div_value hb').symm, _, hends, quotient_eq_quotientAt hb' wished⟩

/-- The number `40` divides `1000` and no smaller power of ten, `6` divides none,
of `-10` it is `-1` that is left, and `-3 / 8` asks for the scale of `8`. -/
theorem loops_find_least_power_forty :
    Scales 40 (some 3) ∧ IsLeast {k : ℕ | (40 : ℤ) ∣ 10 ^ k} 3 ∧
    Scales 6 none ∧ (∀ k : ℕ, ¬ (6 : ℤ) ∣ 10 ^ k) ∧
    Scales (-10) none ∧ (¬ ∃ scale?, Scales 0 scale?) ∧
    value ⟨false, 8, 0⟩ ≠ 0 ∧ (ratio ⟨true, 3, 0⟩ ⟨false, 8, 0⟩).2 = 8 ∧
    ∃ needed, Scales (ratio ⟨true, 3, 0⟩ ⟨false, 8, 0⟩).2 needed ∧
      quotient ⟨true, 3, 0⟩ ⟨false, 8, 0⟩ 0 =
        quotientAt ⟨true, 3, 0⟩ ⟨false, 8, 0⟩ (placesFor 0 needed) := by
  obtain ⟨positive, negative, ends, -, division⟩ := loops_find_least_power
  have hforty : terminatingScale 40 = some 3 := by decide +kernel
  have hsix : terminatingScale 6 = none := by decide +kernel
  obtain ⟨hends, hleast, -⟩ := positive 40 (by decide)
  obtain ⟨hends', -, hnever⟩ := positive 6 (by decide)
  rw [hforty] at hends
  rw [hsix] at hends'
  have height : value ⟨false, 8, 0⟩ ≠ 0 := by simp [value_eq_zero_iff]
  exact ⟨hends, (hleast 3).1 hforty, hends', hnever.1 hsix, (negative (-10) (by decide)).1,
    fun h => (ends 0).1 h rfl, height, by decide +kernel, (division _ _ 0 height).2.2⟩

end PrototypeLisp.Decimal
