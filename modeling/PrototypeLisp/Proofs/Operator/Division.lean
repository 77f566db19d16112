/-
PrototypeLisp.Proofs.Operator.Division — division by one number after another.

Each quotient on the way is rounded to the scale of its dividend unless it can
be written exactly. Rounding never gets in the way of an exact result: a
quotient on the way is the last quotient times the divisors that are still to
come, so it has a finite expansion if the last one has
(`value_foldl_nextQuotient`). The other way round, what a decimal stands for
has a finite expansion.
-/
import Mathlib.Algebra.BigOperators.Ring.List
import PrototypeLisp.Proofs.Decimal.Arithmetic
import PrototypeLisp.Proofs.Decimal.Quotient
import PrototypeLisp.Proofs.Operator.Range

namespace PrototypeLisp.Operator

open Decimal

/-! ## Chains of quotients -/

/-- What a step of a division forms. -/
def nextQuotient (a b : Decimal) : Decimal :=
  rawQuotient a b a.scale

theorem form_over (a : Decimal) {b : Decimal} (hb : b.value ≠ 0) :
    form .over a b = some (nextQuotient a b) :=
  if_neg (mt (value_eq_zero_iff b).2 hb)

theorem isQuotient_nextQuotient (a : Decimal) {b : Decimal} (hb : b.value ≠ 0) :
    IsQuotient (a.value / b.value) a.scale (nextQuotient a b) :=
  isQuotient_rawQuotient (mt (value_eq_zero_iff b).2 hb) a.scale

/-- The product of the values of numbers other than zero. -/
theorem prod_ne_zero {values : List Decimal} (hvalues : ∀ b ∈ values, b.value ≠ 0) :
    (values.map value).prod ≠ 0 := by
  refine List.prod_ne_zero fun hzero => ?_
  obtain ⟨b, hb, hvalue⟩ := List.mem_map.1 hzero
  exact hvalues b hb hvalue

theorem terminates_prod (values : List Decimal) : Terminates (values.map value).prod := by
  induction values with
  | nil => exact ⟨0, 1, by simp⟩
  | cons b rest ih =>
    rw [List.map_cons, List.prod_cons]
    exact (terminates_value b).mul ih

/-- A chain of quotients is exact if the last one has a finite expansion. -/
theorem value_foldl_nextQuotient {start : Decimal} {rest : List Decimal}
    (hrest : ∀ b ∈ rest, b.value ≠ 0)
    (hfinite : Terminates (start.value / (rest.map value).prod)) :
    (rest.foldl nextQuotient start).value = start.value / (rest.map value).prod := by
  induction rest generalizing start with
  | nil => simp
  | cons b rest ih =>
    have hrest' : ∀ c ∈ rest, c.value ≠ 0 := fun c hc => hrest c (List.mem_cons_of_mem _ hc)
    rw [List.map_cons, List.prod_cons, ← div_div] at hfinite ⊢
    -- the first quotient is the last one times the divisors still to come
    have hfirst : Terminates (start.value / b.value) := by
      have hback := hfinite.mul (terminates_prod rest)
      rwa [div_mul_cancel₀ _ (prod_ne_zero hrest')] at hback
    have hexact : (nextQuotient start b).value = start.value / b.value :=
      (isQuotient_nextQuotient start (hrest b List.mem_cons_self)).value_eq hfirst
    rw [← hexact] at hfinite ⊢
    exact ih hrest' hfinite

/-- The scale does not fall from one quotient to the next. -/
theorem scale_le_foldl_nextQuotient (start : Decimal) {rest : List Decimal}
    (hrest : ∀ b ∈ rest, b.value ≠ 0) :
    start.scale ≤ (rest.foldl nextQuotient start).scale := by
  induction rest generalizing start with
  | nil => exact le_refl _
  | cons b rest ih =>
    have hstep := (isQuotient_nextQuotient start (hrest b List.mem_cons_self)).wished_le_scale
    exact hstep.trans (ih _ fun c hc => hrest c (List.mem_cons_of_mem _ hc))

/-- A chain of quotients in range fails at the first divisor of value zero. -/
theorem foldlM_over_of_zero {start b : Decimal} {rest : List Decimal} (hb : b ∈ rest)
    (hzero : b.value = 0) (hrange : ∀ d ∈ formedFrom .over start rest, d.InRange) :
    ∃ x y, rest.foldlM (step .over) start = .error (.divisionByZero x y) := by
  induction rest generalizing start with
  | nil => simp at hb
  | cons c rest ih =>
    by_cases hc : c.value = 0
    · have hform : form .over start c = none := if_pos ((value_eq_zero_iff c).1 hc)
      exact ⟨start, c, by simp [List.foldlM_cons, step_eq, hform, bind, Except.bind]⟩
    · have hform := form_over start hc
      simp only [formedFrom, hform] at hrange
      have hstep := step_of_inRange hform (hrange _ List.mem_cons_self)
      have hmem : b ∈ rest := by
        refine (List.mem_cons.1 hb).resolve_left ?_
        rintro rfl
        exact hc hzero
      obtain ⟨x, y, hrest⟩ := ih hmem fun d hd => hrange d (List.mem_cons_of_mem _ hd)
      exact ⟨x, y, by simpa [List.foldlM_cons, hstep, bind, Except.bind] using hrest⟩

/-! ## Division of values -/

/-- Applied to the numbers, division fails with a division by zero. -/
def DividesByZero (h : Heap) (values : List Decimal) : Prop :=
  ∃ x y, apply h .over (values.map .number) = .error (.eval (.divisionByZero x y))

theorem Gives.not_dividesByZero {h : Heap} {values : List Decimal} {r : Decimal}
    (hr : Gives h .over values r) : ¬ DividesByZero h values := by
  rintro ⟨x, y, herror⟩
  rw [hr] at herror
  simp at herror

theorem dividesByZero_of_compute {values : List Decimal} {x y : Decimal}
    (hc : compute .over values = some (.error (.divisionByZero x y))) (h : Heap) :
    DividesByZero h values :=
  ⟨x, y, apply_of_compute hc⟩

theorem gives_quotient (h : Heap) {first : Decimal} {rest : List Decimal} (hne : rest ≠ [])
    (hrange : StaysInRange .over (first :: rest)) (hrest : ∀ b ∈ rest, b.value ≠ 0) :
    Gives h .over (first :: rest) (rest.foldl nextQuotient first) :=
  (Chain.quotient first hne).gives (fun a b hb => form_over a (hrest b hb)) hrange h

theorem dividesByZero_iff (h : Heap) {first : Decimal} {rest : List Decimal} (hne : rest ≠ [])
    (hrange : StaysInRange .over (first :: rest)) :
    DividesByZero h (first :: rest) ↔ ∃ b ∈ rest, b.value = 0 := by
  have hchain := Chain.quotient first hne
  constructor
  · intro hzero
    by_contra hnone
    have hrest : ∀ b ∈ rest, b.value ≠ 0 := fun b hb hvalue => hnone ⟨b, hb, hvalue⟩
    exact (gives_quotient h hne hrange hrest).not_dividesByZero hzero
  · rintro ⟨b, hb, hzero⟩
    obtain ⟨x, y, herror⟩ := foldlM_over_of_zero hb hzero (hchain.staysInRange_iff.1 hrange)
    exact dividesByZero_of_compute (hchain.compute_eq.trans (congrArg some herror)) h

theorem gives_reciprocal (h : Heap) {b : Decimal} (hrange : StaysInRange .over [b])
    (hb : b.value ≠ 0) : Gives h .over [b] (rawQuotient (.ofNat 1) b b.scale) := by
  have hzero : b.coefficient ≠ 0 := mt (value_eq_zero_iff b).2 hb
  refine gives_of_compute ?_ h
  rw [compute, quotient_eq, if_neg hzero, settle_of_inRange (hrange _ (.reciprocal hzero))]

theorem dividesByZero_singleton_iff (h : Heap) {b : Decimal} (hrange : StaysInRange .over [b]) :
    DividesByZero h [b] ↔ b.value = 0 := by
  constructor
  · intro hzero
    by_contra hb
    exact (gives_reciprocal h hrange hb).not_dividesByZero hzero
  · intro hb
    have hcompute : compute .over [b] = some (.error (.divisionByZero (.ofNat 1) b)) := by
      rw [compute, quotient_eq, if_pos ((value_eq_zero_iff b).1 hb)]
    exact dividesByZero_of_compute hcompute h

/-- A decimal that is exact whenever it can be is exact only then. -/
theorem value_eq_iff_terminates {q : ℚ} {r : Decimal} (hr : Terminates q → r.value = q) :
    r.value = q ↔ Terminates q := by
  refine ⟨fun heq => ?_, hr⟩
  rw [← heq]
  exact terminates_value r

/-- A division that stays in range fails if one of the divisors has the value
zero, and gives a number if none has. The number is exact if and only if the
true quotient has a finite expansion, and its scale is not below that of the
dividend. A reciprocal is one divided by the only argument. -/
theorem division_exact_iff_terminates (h : Heap) :
    (∀ first rest, rest ≠ [] → StaysInRange .over (first :: rest) →
      (DividesByZero h (first :: rest) ↔ ∃ b ∈ rest, b.value = 0) ∧
      ((∀ b ∈ rest, b.value ≠ 0) → ∃ r, Gives h .over (first :: rest) r ∧
        (r.value = first.value / (rest.map value).prod ↔
          Terminates (first.value / (rest.map value).prod)) ∧
        first.scale ≤ r.scale)) ∧
    ∀ b, StaysInRange .over [b] →
      (DividesByZero h [b] ↔ b.value = 0) ∧
      (b.value ≠ 0 → ∃ r, Gives h .over [b] r ∧
        (r.value = 1 / b.value ↔ Terminates (1 / b.value))) := by
  refine ⟨fun first rest hne hrange => ⟨dividesByZero_iff h hne hrange, fun hrest => ?_⟩,
    fun b hrange => ⟨dividesByZero_singleton_iff h hrange, fun hb => ?_⟩⟩
  · exact ⟨_, gives_quotient h hne hrange hrest,
      value_eq_iff_terminates (value_foldl_nextQuotient hrest),
      scale_le_foldl_nextQuotient first hrest⟩
  · have hquotient : IsQuotient (1 / b.value) b.scale (rawQuotient (.ofNat 1) b b.scale) := by
      have hone : (Decimal.ofNat 1).value = 1 := by simp
      rw [← hone]
      exact isQuotient_rawQuotient (mt (value_eq_zero_iff b).2 hb) b.scale
    exact ⟨_, gives_reciprocal h hrange hb, value_eq_iff_terminates hquotient.value_eq⟩

/-- `3 / 8 / 0.6` has a finite expansion and is given exactly, with more
places than its dividend, while `1.0 / 3 / 8` is rounded on its way. `1 / 0.0 /
3` and the reciprocal of `-0` fail, the reciprocal of `8` is exact. -/
theorem division_exact_iff_terminates_eighths :
    let exactly : List Decimal := [⟨false, 8, 0⟩, ⟨false, 6, -1⟩]
    let rounded : List Decimal := [⟨false, 3, 0⟩, ⟨false, 8, 0⟩]
    (StaysInRange .over (⟨false, 3, 0⟩ :: exactly) ∧ (∀ b ∈ exactly, b.value ≠ 0) ∧
      Gives .empty .over (⟨false, 3, 0⟩ :: exactly) ⟨false, 625, -3⟩ ∧
      (value ⟨false, 625, -3⟩ = value ⟨false, 3, 0⟩ / (exactly.map value).prod ↔
        Terminates (value ⟨false, 3, 0⟩ / (exactly.map value).prod))) ∧
    (StaysInRange .over (⟨false, 10, -1⟩ :: rounded) ∧ (∀ b ∈ rounded, b.value ≠ 0) ∧
      Gives .empty .over (⟨false, 10, -1⟩ :: rounded) ⟨false, 375, -4⟩ ∧
      (value ⟨false, 375, -4⟩ = value ⟨false, 10, -1⟩ / (rounded.map value).prod ↔
        Terminates (value ⟨false, 10, -1⟩ / (rounded.map value).prod))) ∧
    (StaysInRange .over [⟨false, 1, 0⟩, ⟨false, 0, -1⟩, ⟨false, 3, 0⟩] ∧
      DividesByZero .empty [⟨false, 1, 0⟩, ⟨false, 0, -1⟩, ⟨false, 3, 0⟩]) ∧
    (StaysInRange .over [⟨true, 0, 0⟩] ∧ DividesByZero .empty [⟨true, 0, 0⟩]) ∧
    (StaysInRange .over [⟨false, 8, 0⟩] ∧ value ⟨false, 8, 0⟩ ≠ 0 ∧
      ∃ r, Gives .empty .over [⟨false, 8, 0⟩] r ∧
        (r.value = 1 / value ⟨false, 8, 0⟩ ↔ Terminates (1 / value ⟨false, 8, 0⟩))) := by
  intro exactly rounded
  obtain ⟨chains, reciprocals⟩ := division_exact_iff_terminates .empty
  have hexactly : StaysInRange .over (⟨false, 3, 0⟩ :: exactly) := by decide +kernel
  have hrounded : StaysInRange .over (⟨false, 10, -1⟩ :: rounded) := by decide +kernel
  have hfailing : StaysInRange .over [⟨false, 1, 0⟩, ⟨false, 0, -1⟩, ⟨false, 3, 0⟩] := by
    decide +kernel
  have hzero : StaysInRange .over [⟨true, 0, 0⟩] := by decide +kernel
  have height : StaysInRange .over [⟨false, 8, 0⟩] := by decide +kernel
  have hnonzero : (∀ b ∈ exactly, b.value ≠ 0) ∧ ∀ b ∈ rounded, b.value ≠ 0 := by
    simp [exactly, rounded, value_eq_zero_iff]
  obtain ⟨r, hr, hiff, -⟩ := (chains _ _ (by decide) hexactly).2 hnonzero.1
  obtain ⟨r', hr', hiff', -⟩ := (chains _ _ (by decide) hrounded).2 hnonzero.2
  have hresult : Gives .empty .over (⟨false, 3, 0⟩ :: exactly) ⟨false, 625, -3⟩ :=
    gives_of_compute (by decide +kernel) _
  have hresult' : Gives .empty .over (⟨false, 10, -1⟩ :: rounded) ⟨false, 375, -4⟩ :=
    gives_of_compute (by decide +kernel) _
  obtain rfl := hr.unique hresult
  obtain rfl := hr'.unique hresult'
  have hb : value ⟨false, 8, 0⟩ ≠ 0 := by simp [value_eq_zero_iff]
  exact ⟨⟨hexactly, hnonzero.1, hr, hiff⟩, ⟨hrounded, hnonzero.2, hr', hiff'⟩,
    ⟨hfailing, (chains _ _ (by decide) hfailing).1.2 ⟨⟨false, 0, -1⟩, by simp, by simp [value]⟩⟩,
    ⟨hzero, (reciprocals _ hzero).1.2 (by simp [value])⟩,
    ⟨height, hb, (reciprocals _ height).2 hb⟩⟩

end PrototypeLisp.Operator
