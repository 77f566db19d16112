/-
PrototypeLisp.Decimal.Basic — decimal numbers as they are written.

A decimal is a sign, a natural coefficient and an integer exponent: it stands
for (−1)^sign · coefficient · 10^exponent. The written scale and the sign of
zero are part of the number, so `1.50` and `1.5` are two decimals of one
value. Exponents are confined to a fixed range; `InRange` states it and
`settle` brings an exact result into it.

Design notes. Two limits are left out. The context of exact arithmetic confines
a coefficient to 999999999999999999 digits, its largest precision, and would
round a longer one; here a coefficient has as many digits as the result needs.
And a host holds only the numbers that fit in its memory; here every number can
be formed. A coefficient beyond that precision fits in the memory of no host,
so the two limits are met together, and what is computed within memory is the
same with and without them.
-/

namespace PrototypeLisp

/-- A decimal number: sign, coefficient and exponent of ten. -/
structure Decimal where
  /-- Does the number carry a minus sign? Zero may carry one too. -/
  negative : Bool
  /-- The digits, read as one natural number. -/
  coefficient : Nat
  /-- The power of ten that the coefficient is multiplied by. -/
  exponent : Int
deriving DecidableEq, Inhabited

namespace Decimal

/-- What arithmetic on decimals can fail with. -/
inductive Fault where
  /-- The result's leading digit lies above the largest exponent. -/
  | overflow
  /-- The divisor has the value zero. -/
  | divisionByZero (dividend divisor : Decimal)
deriving DecidableEq

/-- The integer `n`, with exponent zero. -/
def ofNat (n : Nat) : Decimal :=
  ⟨false, n, 0⟩

/-- The number of digits after the point; negative for a positive exponent. -/
def scale (d : Decimal) : Int :=
  -d.exponent

/-- The last `2 ^ k` decimal digits of a natural number, leading zeros
included, in front of `rest`. The digits are halved, so that a long number
takes few long divisions. -/
def paddedDigits : (k n : Nat) → (rest : List Char) → List Char
  | 0, n, rest => (n % 10).digitChar :: rest
  | k + 1, n, rest =>
    let half := Nat.pow 10 (Nat.pow 2 k)
    paddedDigits k (n / half) (paddedDigits k (n % half) rest)

/-- A `k` such that `n` has at most `2 ^ k` decimal digits: a number of `b`
bits has at most `b / 3 + 1` of them. -/
def digitBound (n : Nat) : Nat :=
  Nat.log2 (Nat.log2 n / 3 + 1) + 1

/-- The decimal digits of a natural number; zero has one. -/
def digits (n : Nat) : List Char :=
  if n = 0 then ['0'] else (paddedDigits (digitBound n) n []).dropWhile (· = '0')

/-- How many decimal digits a natural number has; zero has one. -/
def digitCount (n : Nat) : Nat :=
  (digits n).length

/-- The exponent of the leading digit. -/
def adjusted (d : Decimal) : Int :=
  d.exponent + digitCount d.coefficient - 1

/-- `n · 10^k`, without forming the power when `n` is zero. -/
def scaleUp (n k : Nat) : Nat :=
  if n = 0 then 0 else n * Nat.pow 10 k

/-- Whether the power is formed does not show in the product. -/
theorem scaleUp_eq (n k : Nat) : scaleUp n k = n * Nat.pow 10 k := by
  unfold scaleUp
  split
  · rename_i h
    rw [h, Nat.zero_mul]
  · rfl

/-- The same number with the other sign. -/
def neg (d : Decimal) : Decimal :=
  { d with negative := !d.negative }

/-! ## The exponent range -/

/-- The largest exponent of a leading digit. -/
def maxAdjusted : Int :=
  999999999999999999

/-- The smallest exponent. -/
def minExponent : Int :=
  -1999999999999999997

/-- The numbers that can be held without change. -/
def InRange (d : Decimal) : Prop :=
  minExponent ≤ d.exponent ∧ d.adjusted ≤ maxAdjusted

instance (d : Decimal) : Decidable d.InRange :=
  inferInstanceAs (Decidable (_ ∧ _))

/-- The natural number nearest to `n / d`; a tie goes to the even neighbour. -/
def roundHalfEven (n d : Nat) : Nat :=
  let q := n / d
  let r := n % d
  if 2 * r < d then q
  else if d < 2 * r then q + 1
  else if q % 2 = 0 then q
  else q + 1

/-- `n / 10^k` to the nearest natural number. A quotient below one tenth is
zero, which is decided without forming the power. -/
def shiftDown (n k : Nat) : Nat :=
  if digitCount n < k then 0 else roundHalfEven n (Nat.pow 10 k)

/-- Bring an exact result into the exponent range. A zero takes the nearest
exponent of the range; any other number overflows above it and is rounded to
the smallest exponent below it. The number of digits is not confined. -/
def settle (d : Decimal) : Except Fault Decimal :=
  if d.coefficient = 0 then
    .ok { d with exponent := max minExponent (min maxAdjusted d.exponent) }
  else if maxAdjusted < d.adjusted then
    .error .overflow
  else if d.exponent < minExponent then
    .ok { d with
      coefficient := shiftDown d.coefficient (minExponent - d.exponent).toNat
      exponent := minExponent }
  else
    .ok d

/-! ## Equality of value -/

/-- Do two numbers have the same value? Signs and scales of zeros do not
count. Numbers of different magnitude are told apart before any power of ten
is formed. -/
def sameValue (a b : Decimal) : Bool :=
  if a.coefficient = 0 ∨ b.coefficient = 0 then
    a.coefficient == b.coefficient
  else
    a.negative == b.negative && a.adjusted == b.adjusted &&
      scaleUp a.coefficient (a.exponent - b.exponent).toNat ==
        scaleUp b.coefficient (b.exponent - a.exponent).toNat

end Decimal

end PrototypeLisp
