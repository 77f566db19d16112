/-
PrototypeLisp.Decimal.Arithmetic — exact sums, differences and products.

The exponent of a sum is the smaller of the two, that of a product their sum,
so no digit is ever dropped. A sum that is zero is negative only if both
addends are negative; the sign of a product is the product of the signs, also
for zero.
-/
import PrototypeLisp.Decimal.Basic

namespace PrototypeLisp.Decimal

/-- The exact sum, before it is brought into the exponent range. -/
def exactAdd (a b : Decimal) : Decimal :=
  let exponent := min a.exponent b.exponent
  let m := scaleUp a.coefficient (a.exponent - exponent).toNat
  let n := scaleUp b.coefficient (b.exponent - exponent).toNat
  if a.negative = b.negative then ⟨a.negative, m + n, exponent⟩
  else if n < m then ⟨a.negative, m - n, exponent⟩
  else if m < n then ⟨b.negative, n - m, exponent⟩
  else ⟨false, 0, exponent⟩

/-- The exact product, before it is brought into the exponent range. -/
def exactMul (a b : Decimal) : Decimal :=
  ⟨a.negative != b.negative, a.coefficient * b.coefficient, a.exponent + b.exponent⟩

/-- The sum of two numbers. -/
def add (a b : Decimal) : Except Fault Decimal :=
  (exactAdd a b).settle

/-- The difference of two numbers. -/
def sub (a b : Decimal) : Except Fault Decimal :=
  (exactAdd a b.neg).settle

/-- The product of two numbers. -/
def mul (a b : Decimal) : Except Fault Decimal :=
  (exactMul a b).settle

end PrototypeLisp.Decimal
