/-
PrototypeLisp.Proofs.Operator.Overflow — when an operator overflows.

Operators work through their operands from left to right. Each step forms an
exact result and brings it into the exponent range, which fails exactly when
the result is not zero and its leading digit lies above the range
(`settle_eq_overflow_iff`). So an operator overflows exactly when one of the
exact results that it forms on its way does (`compute_eq_overflow_iff`).
-/
import PrototypeLisp.Operator.Apply

namespace PrototypeLisp

namespace Decimal

/-- A number other than zero whose leading digit lies above the exponent
range. -/
def Above (d : Decimal) : Prop :=
  d.coefficient ≠ 0 ∧ maxAdjusted < d.adjusted

theorem Above.not_inRange {d : Decimal} (h : d.Above) : ¬ d.InRange :=
  fun hrange => absurd hrange.2 (Int.not_le.2 h.2)

/-- Bringing an exact result into the range fails for the numbers above it. -/
theorem settle_eq_overflow_iff (d : Decimal) : d.settle = .error .overflow ↔ d.Above := by
  unfold settle Above
  split
  · rename_i hzero
    simp [hzero]
  · rename_i hzero
    split
    · rename_i habove
      simp [hzero, habove]
    · rename_i habove
      split <;> simp [hzero, habove]

/-- The quotient before it is brought into the exponent range. -/
def rawQuotient (a b : Decimal) (wished : Int) : Decimal :=
  let places := quotientScale (ratio a b).2 wished
  let rounded :=
    roundHalfEven (scaleUp (ratio a b).1 places.toNat) (scaleUp (ratio a b).2 (-places).toNat)
  ⟨rounded != 0 && a.negative != b.negative, rounded, -places⟩

theorem quotient_eq (a b : Decimal) (wished : Int) : quotient a b wished =
    if b.coefficient = 0 then .error (.divisionByZero a b) else (rawQuotient a b wished).settle :=
  rfl

theorem quotient_eq_overflow_iff (a b : Decimal) (wished : Int) :
    quotient a b wished = .error .overflow ↔
      b.coefficient ≠ 0 ∧ (rawQuotient a b wished).Above := by
  rw [quotient_eq]
  split
  · rename_i hzero
    simp [hzero]
  · rename_i hzero
    rw [settle_eq_overflow_iff]
    simp [hzero]

end Decimal

namespace Operator

open Decimal

/-- A chain of steps fails exactly when one of them fails after all the steps
before it have succeeded. -/
theorem foldlM_eq_error_iff {α β ε : Type} {step : β → α → Except ε β} {start : β}
    {xs : List α} {fault : ε} : xs.foldlM step start = .error fault ↔
      ∃ before x after b, xs = before ++ x :: after ∧ before.foldlM step start = .ok b ∧
        step b x = .error fault := by
  constructor
  · intro h
    induction xs generalizing start with
    | nil => simp [pure, Except.pure] at h
    | cons x xs ih =>
      cases hx : step start x with
      | error fault' =>
        obtain rfl : fault' = fault := by simpa [List.foldlM_cons, hx, bind, Except.bind] using h
        exact ⟨[], x, xs, start, rfl, rfl, hx⟩
      | ok next =>
        have hrest : xs.foldlM step next = .error fault := by
          simpa [List.foldlM_cons, hx, bind, Except.bind] using h
        obtain ⟨before, y, after, b, rfl, hb, hy⟩ := ih hrest
        refine ⟨x :: before, y, after, b, rfl, ?_, hy⟩
        simpa [List.foldlM_cons, hx, bind, Except.bind] using hb
  · rintro ⟨before, x, after, b, rfl, hb, hx⟩
    simp [List.foldlM_append, hb, List.foldlM_cons, hx, bind, Except.bind]

/-- The exact results that an operator forms on its way through its
operands. -/
inductive Forms : Operator → List Decimal → Decimal → Prop where
  | sum {before after : List Decimal} {a b : Decimal} (h : sumFrom (.ofNat 0) before = .ok a) :
      Forms .plus (before ++ b :: after) (exactAdd a b)
  | product {before after : List Decimal} {a b : Decimal}
      (h : productFrom (.ofNat 1) before = .ok a) :
      Forms .times (before ++ b :: after) (exactMul a b)
  | negation (b : Decimal) : Forms .minus [b] (exactAdd (.ofNat 0) b.neg)
  | difference {first : Decimal} {before after : List Decimal} {a b : Decimal}
      (h : differenceFrom first before = .ok a) :
      Forms .minus (first :: (before ++ b :: after)) (exactAdd a b.neg)
  | reciprocal {b : Decimal} (hb : b.coefficient ≠ 0) :
      Forms .over [b] (rawQuotient (.ofNat 1) b b.scale)
  | quotient {first : Decimal} {before after : List Decimal} {a b : Decimal}
      (h : quotientFrom first before = .ok a) (hb : b.coefficient ≠ 0) :
      Forms .over (first :: (before ++ b :: after)) (rawQuotient a b a.scale)

/-- An operator that fails at a step formed a result above the range there. -/
theorem forms_of_compute {operator : Operator} {values : List Decimal}
    (h : operator.compute values = some (.error .overflow)) :
    ∃ d, operator.Forms values d ∧ d.Above := by
  unfold compute at h
  split at h
  · obtain ⟨before, b, after, a, rfl, ha, hb⟩ := foldlM_eq_error_iff.1 (Option.some.inj h)
    exact ⟨_, .sum ha, (settle_eq_overflow_iff _).1 hb⟩
  · obtain ⟨before, b, after, a, rfl, ha, hb⟩ := foldlM_eq_error_iff.1 (Option.some.inj h)
    exact ⟨_, .product ha, (settle_eq_overflow_iff _).1 hb⟩
  · simp at h
  · simp at h
  · exact ⟨_, .negation _, (settle_eq_overflow_iff _).1 (Option.some.inj h)⟩
  · obtain ⟨before, b, after, a, rfl, ha, hb⟩ := foldlM_eq_error_iff.1 (Option.some.inj h)
    exact ⟨_, .difference ha, (settle_eq_overflow_iff _).1 hb⟩
  · obtain ⟨hzero, habove⟩ := (quotient_eq_overflow_iff _ _ _).1 (Option.some.inj h)
    exact ⟨_, .reciprocal hzero, habove⟩
  · obtain ⟨before, b, after, a, rfl, ha, hb⟩ := foldlM_eq_error_iff.1 (Option.some.inj h)
    obtain ⟨hzero, habove⟩ := (quotient_eq_overflow_iff _ _ _).1 hb
    exact ⟨_, .quotient ha hzero, habove⟩

theorem compute_minus (first : Decimal) {rest : List Decimal} (h : rest ≠ []) :
    compute .minus (first :: rest) = some (differenceFrom first rest) := by
  cases rest with
  | nil => exact absurd rfl h
  | cons _ _ => rfl

theorem compute_over (first : Decimal) {rest : List Decimal} (h : rest ≠ []) :
    compute .over (first :: rest) = some (quotientFrom first rest) := by
  cases rest with
  | nil => exact absurd rfl h
  | cons _ _ => rfl

/-- An operator overflows exactly when it forms a result above the range. -/
theorem compute_eq_overflow_iff (operator : Operator) (values : List Decimal) :
    operator.compute values = some (.error .overflow) ↔
      ∃ d, operator.Forms values d ∧ d.Above := by
  refine ⟨forms_of_compute, ?_⟩
  rintro ⟨d, hforms, habove⟩
  have hsettle := (settle_eq_overflow_iff d).2 habove
  cases hforms with
  | sum ha => exact congrArg some (foldlM_eq_error_iff.2 ⟨_, _, _, _, rfl, ha, hsettle⟩)
  | product ha => exact congrArg some (foldlM_eq_error_iff.2 ⟨_, _, _, _, rfl, ha, hsettle⟩)
  | negation b => exact congrArg some hsettle
  | difference ha =>
    rw [compute_minus _ (by simp)]
    exact congrArg some (foldlM_eq_error_iff.2 ⟨_, _, _, _, rfl, ha, hsettle⟩)
  | reciprocal hb =>
    exact congrArg some ((quotient_eq_overflow_iff _ _ _).2 ⟨hb, habove⟩)
  | quotient ha hb =>
    rw [compute_over _ (by simp)]
    exact congrArg some (foldlM_eq_error_iff.2 ⟨_, _, _, _, rfl, ha,
      (quotient_eq_overflow_iff _ _ _).2 ⟨hb, habove⟩⟩)

/-- The numbers that an operator works among are all its arguments. -/
theorem eq_map_of_numbers {arguments : List Value} {values : List Decimal}
    (h : numbers arguments = .ok values) : arguments = values.map .number := by
  induction arguments generalizing values with
  | nil =>
    obtain rfl := Except.ok.inj h
    rfl
  | cons argument arguments ih =>
    cases argument with
    | number value =>
      cases hrest : numbers arguments with
      | error other => simp [numbers, hrest, Except.map] at h
      | ok rest =>
        obtain rfl : value :: rest = values := by simpa [numbers, hrest, Except.map] using h
        rw [ih hrest, List.map_cons]
    | atom _ | null | function _ | object _ => simp [numbers] at h

/-- An operator that overflows was applied to numbers and formed a result
above the range. -/
theorem forms_of_apply {h : Heap} {operator : Operator} {arguments : List Value}
    (ha : operator.apply h arguments = .error .overflow) :
    ∃ values d, arguments = values.map .number ∧ operator.Forms values d ∧ d.Above := by
  unfold apply at ha
  split at ha
  · simp at ha
  · rename_i values hvalues
    split at ha
    · simp at ha
    · rename_i fault hfault
      obtain rfl : fault = .overflow := by
        cases fault with
        | overflow => rfl
        | divisionByZero _ _ => simp [failure] at ha
      obtain ⟨d, hforms, habove⟩ := (compute_eq_overflow_iff operator values).1 hfault
      exact ⟨values, d, eq_map_of_numbers hvalues, hforms, habove⟩
    · simp at ha

end Operator

end PrototypeLisp
