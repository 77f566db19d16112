/-
PrototypeLisp.Proofs.Operator.Exact — sums, differences and products.

An operator whose results stay in the exponent range forms exact results only,
and which decimal it gives is known down to sign, coefficient and exponent.
For sums and products this does not depend on the order of the operands, nor
on how they are grouped, since `IsSum` and `IsProduct` do not. An argument
that is not a number is refused before anything is computed, and the first
such argument is the one that the error names.
-/
import PrototypeLisp.Proofs.Decimal.Arithmetic
import PrototypeLisp.Proofs.Operator.Range

namespace PrototypeLisp.Operator

open Decimal

/-! ## Results -/

theorem gives_sum (h : Heap) {values : List Decimal} (hrange : StaysInRange .plus values) :
    ∃ r, Gives h .plus values r ∧ IsSum values r :=
  ⟨_, (Chain.sum values).gives (fun _ _ _ => rfl) hrange h, isSum_exactSum values⟩

theorem gives_product (h : Heap) {values : List Decimal} (hrange : StaysInRange .times values) :
    ∃ r, Gives h .times values r ∧ IsProduct values r :=
  ⟨_, (Chain.product values).gives (fun _ _ _ => rfl) hrange h, isProduct_exactProduct values⟩

theorem gives_difference (h : Heap) (first : Decimal) {rest : List Decimal} (hrest : rest ≠ [])
    (hrange : StaysInRange .minus (first :: rest)) :
    ∃ r, Gives h .minus (first :: rest) r ∧ IsDifference first rest r := by
  refine ⟨_, (Chain.difference first hrest).gives (fun _ _ _ => rfl) hrange h, ?_⟩
  have hdifference := isDifference_exactSum first rest
  rwa [exactSum, List.foldl_map] at hdifference

theorem gives_negation (h : Heap) {value : Decimal} (hrange : StaysInRange .minus [value]) :
    ∃ r, Gives h .minus [value] r ∧ IsNegation value r :=
  ⟨_, (Chain.negation value).gives (fun _ _ _ => rfl) hrange h, isNegation_exactAdd value⟩

/-! ## Order and grouping -/

/-- The number that an operator gives does not depend on the order of its
operands, nor on whether they are first combined in two groups, as long as its
results stay in range either way. -/
structure OrderFree (h : Heap) (operator : Operator) : Prop where
  perm : ∀ xs ys, xs.Perm ys → operator.StaysInRange xs → operator.StaysInRange ys →
    ∃ r, operator.Gives h xs r ∧ operator.Gives h ys r
  regroup : ∀ xs ys, operator.StaysInRange xs → operator.StaysInRange ys →
    operator.StaysInRange (xs ++ ys) → ∃ a b, operator.Gives h xs a ∧ operator.Gives h ys b ∧
      (operator.StaysInRange [a, b] →
        ∃ r, operator.Gives h [a, b] r ∧ operator.Gives h (xs ++ ys) r)

/-- An operator is free of order if it gives the one decimal with a property
that is free of order. -/
theorem orderFree_of_unique {h : Heap} {operator : Operator} {Is : List Decimal → Decimal → Prop}
    (hgives : ∀ {values}, operator.StaysInRange values →
      ∃ r, operator.Gives h values r ∧ Is values r)
    (hunique : ∀ {values r r'}, Is values r → Is values r' → r = r')
    (hperm : ∀ {xs ys r}, xs.Perm ys → Is xs r → Is ys r)
    (happend : ∀ {xs ys a b r}, Is xs a → Is ys b → Is [a, b] r → Is (xs ++ ys) r) :
    OrderFree h operator where
  perm xs ys hxy hx hy := by
    obtain ⟨r, hr, his⟩ := hgives hx
    obtain ⟨r', hr', his'⟩ := hgives hy
    obtain rfl := hunique (hperm hxy his) his'
    exact ⟨r, hr, hr'⟩
  regroup xs ys hx hy hxy := by
    obtain ⟨a, ha, hisa⟩ := hgives hx
    obtain ⟨b, hb, hisb⟩ := hgives hy
    refine ⟨a, b, ha, hb, fun hab => ?_⟩
    obtain ⟨r, hr, his⟩ := hgives hab
    obtain ⟨r', hr', his'⟩ := hgives hxy
    obtain rfl := hunique (happend hisa hisb his) his'
    exact ⟨r, hr, hr'⟩

theorem orderFree_plus (h : Heap) : OrderFree h .plus :=
  orderFree_of_unique (gives_sum h) IsSum.unique IsSum.perm IsSum.append

theorem orderFree_times (h : Heap) : OrderFree h .times :=
  orderFree_of_unique (gives_product h) IsProduct.unique IsProduct.perm IsProduct.append

/-! ## Arguments that are not numbers -/

/-- Numbers are looked for up to the first argument that is none. -/
theorem numbers_of_not_number {arguments : List Value} {v : Value} (hv : v ∈ arguments)
    (hnumber : ∀ d, v ≠ .number d) :
    ∃ (before : List Decimal) (x : Value) (after : List Value),
      arguments = before.map .number ++ x :: after ∧ (∀ d, x ≠ .number d) ∧
      numbers arguments = .error x := by
  induction arguments with
  | nil => simp at hv
  | cons argument rest ih =>
    cases argument with
    | number d =>
      have hrest : v ∈ rest := (List.mem_cons.1 hv).resolve_left (hnumber d)
      obtain ⟨before, x, after, rfl, hx, herror⟩ := ih hrest
      exact ⟨d :: before, x, after, rfl, hx, by simp [numbers, herror, Except.map]⟩
    | atom _ | null | function _ | object _ => exact ⟨[], _, rest, rfl, by simp, rfl⟩

/-- The operator refuses the first argument that is not a number. -/
def RefusesFirst (h : Heap) (operator : Operator) (arguments : List Value) : Prop :=
  ∃ (before : List Decimal) (x : Value) (after : List Value) (error : EvalError),
    arguments = before.map .number ++ x :: after ∧ (∀ d, x ≠ .number d) ∧
    operator.apply h arguments = .error (.eval error) ∧ error.kind = .typeMismatch ∧
    error.message =
      "Invalid argument " ++ h.text x ++ " to " ++ operator.symbol ++ ", expected a number."

theorem refusesFirst (h : Heap) (operator : Operator) {arguments : List Value} {v : Value}
    (hv : v ∈ arguments) (hnumber : ∀ d, v ≠ .number d) :
    operator.RefusesFirst h arguments := by
  obtain ⟨before, x, after, hsplit, hx, herror⟩ := numbers_of_not_number hv hnumber
  exact ⟨before, x, after, _, hsplit, hx, by rw [apply, herror], rfl, rfl⟩

/-- Sums, differences and products that stay in range are exact, with the
exponent and the sign that `IsSum`, `IsDifference`, `IsNegation` and
`IsProduct` tell. Sums and products do not depend on order and grouping. The
first argument that is not a number is refused. -/
theorem exact_and_orderFree (h : Heap) :
    (∀ values, StaysInRange .plus values → ∃ r, Gives h .plus values r ∧ IsSum values r) ∧
    (∀ first rest, rest ≠ [] → StaysInRange .minus (first :: rest) →
      ∃ r, Gives h .minus (first :: rest) r ∧ IsDifference first rest r) ∧
    (∀ value, StaysInRange .minus [value] →
      ∃ r, Gives h .minus [value] r ∧ IsNegation value r) ∧
    (∀ values, StaysInRange .times values →
      ∃ r, Gives h .times values r ∧ IsProduct values r) ∧
    OrderFree h .plus ∧ OrderFree h .times ∧
    ∀ operator : Operator, ∀ arguments, (∃ v ∈ arguments, ∀ d, v ≠ .number d) →
      operator.RefusesFirst h arguments := by
  refine ⟨fun values => gives_sum h, fun first rest => gives_difference h first,
    fun value => gives_negation h, fun values => gives_product h, orderFree_plus h,
    orderFree_times h, ?_⟩
  rintro operator arguments ⟨v, hv, hnumber⟩
  exact refusesFirst h operator hv hnumber

/-- `-0`, `0.50` and `-0.5` add up to a zero with two places and no sign, in
this order, in another, and in two groups. Their differences and products keep
the places of zeros and the signs of products; an atom among the arguments is
refused. -/
theorem exact_and_orderFree_cancelling :
    let xs : List Decimal := [⟨true, 0, 0⟩, ⟨false, 50, -2⟩]
    let ys : List Decimal := [⟨true, 5, -1⟩]
    (StaysInRange .plus xs ∧ StaysInRange .plus ys ∧ StaysInRange .plus (xs ++ ys) ∧
      StaysInRange .plus (ys ++ xs) ∧ StaysInRange .plus [⟨false, 50, -2⟩, ⟨true, 5, -1⟩]) ∧
    (∃ r, Gives .empty .plus (xs ++ ys) r ∧ IsSum (xs ++ ys) r) ∧
    (∃ r, Gives .empty .plus (xs ++ ys) r ∧ Gives .empty .plus (ys ++ xs) r) ∧
    (∃ r, Gives .empty .plus [⟨false, 50, -2⟩, ⟨true, 5, -1⟩] r ∧
      Gives .empty .plus (xs ++ ys) r) ∧
    (StaysInRange .minus xs ∧ ∃ r, Gives .empty .minus xs r ∧
      IsDifference ⟨true, 0, 0⟩ [⟨false, 50, -2⟩] r) ∧
    (StaysInRange .minus ys ∧ ∃ r, Gives .empty .minus ys r ∧ IsNegation ⟨true, 5, -1⟩ r) ∧
    (StaysInRange .times xs ∧ ∃ r, Gives .empty .times xs r ∧ IsProduct xs r) ∧
    RefusesFirst .empty .minus [.number ⟨true, 5, -1⟩, .atom "x", .null] := by
  intro xs ys
  have hx : StaysInRange .plus xs := by decide +kernel
  have hy : StaysInRange .plus ys := by decide +kernel
  have hxy : StaysInRange .plus (xs ++ ys) := by decide +kernel
  have hyx : StaysInRange .plus (ys ++ xs) := by decide +kernel
  have hab : StaysInRange .plus [⟨false, 50, -2⟩, ⟨true, 5, -1⟩] := by decide +kernel
  have hdifference : StaysInRange .minus xs := by decide +kernel
  have hnegation : StaysInRange .minus ys := by decide +kernel
  have hproduct : StaysInRange .times xs := by decide +kernel
  obtain ⟨sum, difference, negation, product, order, -, refuses⟩ := exact_and_orderFree .empty
  have hregroup : ∃ r, Gives .empty .plus [⟨false, 50, -2⟩, ⟨true, 5, -1⟩] r ∧
      Gives .empty .plus (xs ++ ys) r := by
    obtain ⟨a, b, ha, hb, hjoin⟩ := order.regroup xs ys hx hy hxy
    have hsum : Gives .empty .plus xs ⟨false, 50, -2⟩ := rfl
    have hsum' : Gives .empty .plus ys ⟨true, 5, -1⟩ := rfl
    obtain rfl := ha.unique hsum
    obtain rfl := hb.unique hsum'
    exact hjoin hab
  exact ⟨⟨hx, hy, hxy, hyx, hab⟩, sum _ hxy, order.perm _ _ List.perm_append_comm hxy hyx,
    hregroup, ⟨hdifference, difference _ _ (by decide) hdifference⟩,
    ⟨hnegation, negation _ hnegation⟩, ⟨hproduct, product _ hproduct⟩,
    refuses .minus _ ⟨.atom "x", by decide, by simp⟩⟩

end PrototypeLisp.Operator
