/-
PrototypeLisp.Operator.Apply — operators applied to runtime values.

That all arguments are numbers is checked before their count; the first one
that is not is named in the error.
-/
import PrototypeLisp.Error
import PrototypeLisp.Heap.Text

namespace PrototypeLisp.Operator

/-- The numbers among which an operator works, or the first argument that is
none. -/
def numbers : List Value → Except Value (List Decimal)
  | [] => .ok []
  | .number value :: rest => (numbers rest).map (value :: ·)
  | other :: _ => .error other

/-- The failure that an arithmetic fault amounts to. -/
def failure : Decimal.Fault → Failure
  | .overflow => .overflow
  | .divisionByZero dividend divisor => .eval (.divisionByZero dividend divisor)

/-- Apply an operator to values. -/
def apply (h : Heap) (operator : Operator) (arguments : List Value) : Except Failure Value :=
  match numbers arguments with
  | .error other => .error (.eval (.notANumber (h.text other) operator.symbol))
  | .ok values =>
    match operator.compute values with
    | none => .error (.eval (.missingOperand operator.symbol))
    | some (.error fault) => .error (failure fault)
    | some (.ok value) => .ok (.number value)

/-- An operator fails with an error of the language or overflows. -/
theorem apply_error {h : Heap} {operator : Operator} {arguments : List Value}
    {failure : Failure} (ha : operator.apply h arguments = .error failure) :
    failure = .overflow ∨ ∃ error, failure = .eval error := by
  unfold apply at ha
  split at ha
  · obtain rfl := Except.error.inj ha
    exact .inr ⟨_, rfl⟩
  · split at ha
    · obtain rfl := Except.error.inj ha
      exact .inr ⟨_, rfl⟩
    · rename_i fault _
      obtain rfl := Except.error.inj ha
      cases fault with
      | overflow => exact .inl rfl
      | divisionByZero dividend divisor => exact .inr ⟨_, rfl⟩
    · simp at ha

/-- The value of an operator is a number. -/
theorem exists_number_of_apply {h : Heap} {operator : Operator} {arguments : List Value}
    {value : Value} (ha : operator.apply h arguments = .ok value) : ∃ d, value = .number d := by
  unfold apply at ha
  split at ha
  · simp at ha
  · split at ha
    · simp at ha
    · simp at ha
    · rename_i d _
      exact ⟨d, (Except.ok.inj ha).symm⟩

end PrototypeLisp.Operator
