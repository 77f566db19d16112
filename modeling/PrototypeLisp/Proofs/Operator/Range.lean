/-
PrototypeLisp.Proofs.Operator.Range — operators whose results stay in range.

An operator goes through its operands step by step. Each step forms an exact
result (`form`) and brings it into the exponent range (`step_eq`); only a
division by zero forms none. As long as the results lie in the range, they are
kept as they are formed. So they can be listed without regard to the range
(`formed`), it can be decided whether all of them lie there
(`staysInRange_iff`), and if they do, the operator is the plain fold of its
exact steps (`Chain.gives`).
-/
import PrototypeLisp.Proofs.Decimal.Value
import PrototypeLisp.Proofs.Operator.Overflow

namespace PrototypeLisp.Operator

open Decimal

/-- Every exact result that the operator forms on its way lies in the exponent
range. -/
def StaysInRange (operator : Operator) (values : List Decimal) : Prop :=
  ∀ d, operator.Forms values d → d.InRange

/-! ## Steps -/

/-- One step of an operator on its way through its operands. -/
def step : Operator → Decimal → Decimal → Except Fault Decimal
  | .plus, a, b => a.add b
  | .minus, a, b => a.sub b
  | .times, a, b => a.mul b
  | .over, a, b => a.quotient b a.scale

/-- The exact result that a step forms. -/
def form : Operator → Decimal → Decimal → Option Decimal
  | .plus, a, b => some (exactAdd a b)
  | .minus, a, b => some (exactAdd a b.neg)
  | .times, a, b => some (exactMul a b)
  | .over, a, b => if b.coefficient = 0 then none else some (rawQuotient a b a.scale)

/-- A step brings what it forms into the exponent range. -/
theorem step_eq (operator : Operator) (a b : Decimal) :
    operator.step a b =
      match operator.form a b with
      | none => .error (.divisionByZero a b)
      | some d => d.settle := by
  match operator with
  | .plus | .minus | .times => rfl
  | .over =>
    simp only [step, form, quotient_eq]
    split <;> rfl

theorem step_of_inRange {operator : Operator} {a b d : Decimal}
    (hform : operator.form a b = some d) (hrange : d.InRange) : operator.step a b = .ok d := by
  rw [step_eq, hform]
  exact settle_of_inRange hrange

/-! ## Chains of steps -/

/-- The results that a chain of steps forms, in order, if each is kept as it
is. The chain ends at a step that forms none. -/
def formedFrom (operator : Operator) (start : Decimal) : List Decimal → List Decimal
  | [] => []
  | b :: rest =>
    match operator.form start b with
    | none => []
    | some d => d :: formedFrom operator d rest

/-- A chain of steps forms the result at one of its operands. -/
def FormsFrom (operator : Operator) (start : Decimal) (values : List Decimal) (d : Decimal) :
    Prop :=
  ∃ before b after a, values = before ++ b :: after ∧
    before.foldlM operator.step start = .ok a ∧ operator.form a b = some d

section

variable {operator : Operator} {start : Decimal}

theorem not_formsFrom_nil (d : Decimal) : ¬ operator.FormsFrom start [] d := by
  rintro ⟨before, b, after, a, hsplit, -, -⟩
  simp at hsplit

/-- A chain forms what its first step forms, and what the rest forms after
that step. -/
theorem formsFrom_cons_iff (b : Decimal) (rest : List Decimal) (d : Decimal) :
    operator.FormsFrom start (b :: rest) d ↔ operator.form start b = some d ∨
      ∃ next, operator.step start b = .ok next ∧ operator.FormsFrom next rest d := by
  constructor
  · rintro ⟨before, b', after, a, hsplit, hbefore, hform⟩
    cases before with
    | nil =>
      obtain ⟨rfl, rfl⟩ : b = b' ∧ rest = after := by simpa using hsplit
      obtain rfl : start = a := by simpa [pure, Except.pure] using hbefore
      exact .inl hform
    | cons c before =>
      obtain ⟨rfl, rfl⟩ : b = c ∧ rest = before ++ b' :: after := by simpa using hsplit
      cases hnext : operator.step start b with
      | error fault => simp [List.foldlM_cons, hnext, bind, Except.bind] at hbefore
      | ok next =>
        have hrest : before.foldlM operator.step next = .ok a := by
          simpa [List.foldlM_cons, hnext, bind, Except.bind] using hbefore
        exact .inr ⟨next, rfl, before, b', after, a, rfl, hrest, hform⟩
  · rintro (hform | ⟨next, hnext, before, b', after, a, rfl, hbefore, hform⟩)
    · exact ⟨[], b, rest, start, rfl, rfl, hform⟩
    · refine ⟨b :: before, b', after, a, rfl, ?_, hform⟩
      simpa [List.foldlM_cons, hnext, bind, Except.bind] using hbefore

/-- A chain stays in range when the results listed do. -/
theorem formsFrom_inRange_iff (values : List Decimal) :
    (∀ d, operator.FormsFrom start values d → d.InRange) ↔
      ∀ d ∈ operator.formedFrom start values, d.InRange := by
  induction values generalizing start with
  | nil => simp [formedFrom, not_formsFrom_nil]
  | cons b rest ih =>
    simp only [formsFrom_cons_iff, formedFrom]
    cases hform : operator.form start b with
    | none => simp [step_eq, hform]
    | some c =>
      constructor
      · intro hforms d hd
        have hc : c.InRange := hforms c (.inl rfl)
        rcases List.mem_cons.1 hd with rfl | hd
        · exact hc
        · refine ih.1 (fun e he => ?_) d hd
          exact hforms e (.inr ⟨c, step_of_inRange hform hc, he⟩)
      · rintro hall d (hd | ⟨next, hnext, hd⟩)
        · obtain rfl : c = d := Option.some.inj hd
          exact hall c List.mem_cons_self
        · have hc : c.InRange := hall c List.mem_cons_self
          obtain rfl : c = next := by
            rw [step_of_inRange hform hc] at hnext
            exact Except.ok.inj hnext
          exact ih.2 (fun e he => hall e (List.mem_cons_of_mem _ he)) d hd

/-- A chain that stays in range is the fold of what its steps form. -/
theorem foldlM_step {next : Decimal → Decimal → Decimal} {values : List Decimal}
    (hnext : ∀ a, ∀ b ∈ values, operator.form a b = some (next a b))
    (hrange : ∀ d ∈ operator.formedFrom start values, d.InRange) :
    values.foldlM operator.step start = .ok (values.foldl next start) := by
  induction values generalizing start with
  | nil => rfl
  | cons b rest ih =>
    have hform := hnext start b List.mem_cons_self
    simp only [formedFrom, hform] at hrange
    have hstep := step_of_inRange hform (hrange _ List.mem_cons_self)
    have hrest := ih (fun a c hc => hnext a c (List.mem_cons_of_mem _ hc))
      (fun d hd => hrange d (List.mem_cons_of_mem _ hd))
    simpa [List.foldlM_cons, hstep, bind, Except.bind] using hrest

end

/-! ## Operators -/

/-- The operator goes step by step from `start` through `operands`. Only a
reciprocal does not: it is taken at the scale of its argument. -/
inductive Chain : Operator → List Decimal → Decimal → List Decimal → Prop where
  | sum (values : List Decimal) : Chain .plus values (.ofNat 0) values
  | product (values : List Decimal) : Chain .times values (.ofNat 1) values
  | negation (value : Decimal) : Chain .minus [value] (.ofNat 0) [value]
  | difference (first : Decimal) {rest : List Decimal} (h : rest ≠ []) :
      Chain .minus (first :: rest) first rest
  | quotient (first : Decimal) {rest : List Decimal} (h : rest ≠ []) :
      Chain .over (first :: rest) first rest

namespace Chain

variable {operator : Operator} {values operands : List Decimal} {start : Decimal}

theorem compute_eq (hc : Chain operator values start operands) :
    operator.compute values = some (operands.foldlM operator.step start) := by
  cases hc with
  | sum | product => rfl
  | negation value =>
    simp only [compute, List.foldlM_cons, List.foldlM_nil, step]
    cases (Decimal.ofNat 0).sub value <;> rfl
  | difference _ h =>
    rw [compute_minus _ h]
    rfl
  | quotient _ h =>
    rw [compute_over _ h]
    rfl

/-- What the steps of an operator form is what the operator forms. -/
theorem forms (hc : Chain operator values start operands) {d : Decimal}
    (hforms : operator.FormsFrom start operands d) : operator.Forms values d := by
  obtain ⟨before, b, after, a, hsplit, h, hform⟩ := hforms
  cases hc with
  | sum =>
    subst hsplit
    obtain rfl := Option.some.inj hform
    exact .sum h
  | product =>
    subst hsplit
    obtain rfl := Option.some.inj hform
    exact .product h
  | negation value =>
    obtain ⟨rfl, rfl, rfl⟩ : before = [] ∧ b = value ∧ after = [] := by
      cases before <;> simp_all
    obtain rfl : Decimal.ofNat 0 = a := by simpa [pure, Except.pure] using h
    obtain rfl := Option.some.inj hform
    exact .negation b
  | difference _ _ =>
    subst hsplit
    obtain rfl := Option.some.inj hform
    exact .difference h
  | quotient _ _ =>
    subst hsplit
    simp only [form] at hform
    split at hform
    · simp at hform
    · rename_i hb
      obtain rfl := Option.some.inj hform
      exact .quotient h hb

/-- What an operator forms is what its steps form. -/
theorem formsFrom (hc : Chain operator values start operands) {d : Decimal}
    (hforms : operator.Forms values d) : operator.FormsFrom start operands d := by
  -- the operands are split in two ways, which only an equation can compare
  obtain ⟨values', hvalues⟩ : ∃ values', values' = values := ⟨_, rfl⟩
  rw [← hvalues] at hc
  cases hforms with
  | sum h =>
    cases hc
    exact ⟨_, _, _, _, hvalues, h, rfl⟩
  | product h =>
    cases hc
    exact ⟨_, _, _, _, hvalues, h, rfl⟩
  | negation b =>
    cases hc with
    | negation value => exact ⟨[], b, [], _, hvalues, rfl, rfl⟩
    | difference _ h => exact absurd (List.cons.inj hvalues).2 h
  | difference h =>
    cases hc with
    | negation value => simp at hvalues
    | difference _ _ =>
      obtain ⟨rfl, rfl⟩ := List.cons.inj hvalues
      exact ⟨_, _, _, _, rfl, h, rfl⟩
  | reciprocal hb =>
    cases hc with
    | quotient _ h => exact absurd (List.cons.inj hvalues).2 h
  | quotient h hb =>
    cases hc with
    | quotient _ _ =>
      obtain ⟨rfl, rfl⟩ := List.cons.inj hvalues
      exact ⟨_, _, _, _, rfl, h, by simp [form, hb]⟩

theorem staysInRange_iff (hc : Chain operator values start operands) :
    operator.StaysInRange values ↔ ∀ d ∈ operator.formedFrom start operands, d.InRange := by
  rw [← formsFrom_inRange_iff]
  exact ⟨fun h d hd => h d (hc.forms hd), fun h d hd => h d (hc.formsFrom hd)⟩

end Chain

/-- A reciprocal forms one result, unless it divides by zero. -/
theorem staysInRange_reciprocal_iff (b : Decimal) : StaysInRange .over [b] ↔
    (b.coefficient ≠ 0 → (rawQuotient (.ofNat 1) b b.scale).InRange) := by
  constructor
  · intro h hb
    exact h _ (.reciprocal hb)
  · intro h d hforms
    generalize hvalues : [b] = values at hforms
    cases hforms with
    | reciprocal hb =>
      obtain ⟨rfl, -⟩ := List.cons.inj hvalues
      exact h hb
    | quotient _ _ => simp at hvalues

/-- The results that an operator forms, in order, if each is kept as it is. -/
def formed : Operator → List Decimal → List Decimal
  | .plus, values => formedFrom .plus (.ofNat 0) values
  | .times, values => formedFrom .times (.ofNat 1) values
  | .minus, [] | .over, [] => []
  | .minus, [value] => formedFrom .minus (.ofNat 0) [value]
  | .minus, first :: rest => formedFrom .minus first rest
  | .over, [value] =>
    if value.coefficient = 0 then [] else [rawQuotient (.ofNat 1) value value.scale]
  | .over, first :: rest => formedFrom .over first rest

theorem staysInRange_iff (operator : Operator) (values : List Decimal) :
    operator.StaysInRange values ↔ ∀ d ∈ operator.formed values, d.InRange := by
  match operator, values with
  | .plus, values => exact (Chain.sum values).staysInRange_iff
  | .times, values => exact (Chain.product values).staysInRange_iff
  | .minus, [] | .over, [] => exact ⟨fun _ => by simp [formed], fun _ _ hforms => nomatch hforms⟩
  | .minus, [value] => exact (Chain.negation value).staysInRange_iff
  | .minus, first :: _ :: _ => exact (Chain.difference first (by simp)).staysInRange_iff
  | .over, [value] =>
    rw [staysInRange_reciprocal_iff, formed]
    by_cases hzero : value.coefficient = 0 <;> simp [hzero]
  | .over, first :: _ :: _ => exact (Chain.quotient first (by simp)).staysInRange_iff

instance (operator : Operator) (values : List Decimal) :
    Decidable (operator.StaysInRange values) :=
  decidable_of_iff _ (staysInRange_iff operator values).symm

/-! ## Operators on values -/

/-- Applied to the numbers, the operator gives the number `r`. -/
def Gives (h : Heap) (operator : Operator) (values : List Decimal) (r : Decimal) : Prop :=
  operator.apply h (values.map .number) = .ok (.number r)

theorem Gives.unique {h : Heap} {operator : Operator} {values : List Decimal} {r r' : Decimal}
    (hr : operator.Gives h values r) (hr' : operator.Gives h values r') : r = r' :=
  Value.number.inj (Except.ok.inj (hr.symm.trans hr'))

theorem numbers_map (values : List Decimal) : numbers (values.map .number) = .ok values := by
  induction values with
  | nil => rfl
  | cons value rest ih => simp [numbers, ih, Except.map]

theorem apply_of_compute {h : Heap} {operator : Operator} {values : List Decimal}
    {result : Except Fault Decimal} (hc : operator.compute values = some result) :
    operator.apply h (values.map .number) = (result.mapError failure).map .number := by
  rw [apply, numbers_map]
  simp only [hc]
  cases result <;> rfl

theorem gives_of_compute {operator : Operator} {values : List Decimal} {r : Decimal}
    (hc : operator.compute values = some (.ok r)) (h : Heap) : operator.Gives h values r :=
  apply_of_compute hc

/-- An operator that stays in range gives the fold of what its steps form. -/
theorem Chain.gives {operator : Operator} {values operands : List Decimal} {start : Decimal}
    (hc : Chain operator values start operands) {next : Decimal → Decimal → Decimal}
    (hnext : ∀ a, ∀ b ∈ operands, operator.form a b = some (next a b))
    (hrange : operator.StaysInRange values) (h : Heap) :
    operator.Gives h values (operands.foldl next start) := by
  refine gives_of_compute ?_ h
  rw [hc.compute_eq, foldlM_step hnext (hc.staysInRange_iff.1 hrange)]

end PrototypeLisp.Operator
