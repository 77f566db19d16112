/-
PrototypeLisp.Operator.Basic — the arithmetic operators on numbers.

Sums start from zero and products from one. A difference or a quotient of one
number is taken from zero or one. Division goes from left to right, each
quotient at the scale of the dividend, and a reciprocal at the scale of its
argument.
-/
import PrototypeLisp.Decimal.Arithmetic
import PrototypeLisp.Decimal.Quotient

namespace PrototypeLisp

/-- The arithmetic operators. -/
inductive Operator where
  | plus
  | minus
  | times
  | over
deriving DecidableEq

namespace Operator

/-- The name of an operator. -/
def symbol : Operator → String
  | .plus => "+"
  | .minus => "-"
  | .times => "*"
  | .over => "/"

/-- The sum of numbers, on top of `start`. -/
def sumFrom (start : Decimal) (values : List Decimal) : Except Decimal.Fault Decimal :=
  values.foldlM Decimal.add start

/-- `start` less all the numbers. -/
def differenceFrom (start : Decimal) (values : List Decimal) : Except Decimal.Fault Decimal :=
  values.foldlM Decimal.sub start

/-- The product of numbers, times `start`. -/
def productFrom (start : Decimal) (values : List Decimal) : Except Decimal.Fault Decimal :=
  values.foldlM Decimal.mul start

/-- `start` divided by one number after the other, each quotient at the scale
of its dividend. -/
def quotientFrom (start : Decimal) (values : List Decimal) : Except Decimal.Fault Decimal :=
  values.foldlM (fun dividend divisor => dividend.quotient divisor dividend.scale) start

/-- An operator on numbers; `none` when an operand is missing. -/
def compute (operator : Operator) (values : List Decimal) :
    Option (Except Decimal.Fault Decimal) :=
  match operator, values with
  | .plus, values => some (sumFrom (.ofNat 0) values)
  | .times, values => some (productFrom (.ofNat 1) values)
  | .minus, [] | .over, [] => none
  | .minus, [value] => some ((Decimal.ofNat 0).sub value)
  | .minus, value :: rest => some (differenceFrom value rest)
  | .over, [value] => some ((Decimal.ofNat 1).quotient value value.scale)
  | .over, value :: rest => some (quotientFrom value rest)

end Operator

end PrototypeLisp
