/-
PrototypeLisp.Decimal.Quotient — division at a wished scale.

A quotient that has a finite decimal expansion is given exactly, at the wished
scale or at the least scale that writes it, whichever is larger. Any other
quotient is rounded to the wished scale. Whether the expansion is finite is
read off the denominator in lowest terms: it must be a product of twos and
fives.
-/
import PrototypeLisp.Decimal.Basic

namespace PrototypeLisp.Decimal

/-- Divide `n` by `p` as often as it goes: how often, and what is left. -/
def stripFactor (p n : Nat) : Nat × Nat :=
  if _h : 1 < p ∧ 0 < n ∧ n % p = 0 then
    let stripped := stripFactor p (n / p)
    (stripped.1 + 1, stripped.2)
  else
    (0, n)
termination_by n
decreasing_by exact Nat.div_lt_self _h.2.1 _h.1

/-- How many digits after the point write one over `denominator` exactly;
`none` when its expansion does not end, and for every denominator that is not
positive. -/
def terminatingScale (denominator : Int) : Option Nat :=
  let twos := stripFactor 2 denominator.toNat
  let fives := stripFactor 5 twos.2
  if fives.2 = 1 then some (max twos.1 fives.1) else none

/-- Numerator and denominator of `a / b` in lowest terms, signs left out. -/
def ratio (a b : Decimal) : Nat × Nat :=
  let n := scaleUp a.coefficient (a.exponent - b.exponent).toNat
  let d := scaleUp b.coefficient (b.exponent - a.exponent).toNat
  let g := n.gcd d
  (n / g, d / g)

/-- The number of digits after the point that a quotient with denominator
`d` in lowest terms is given, when `wished` are wished for. -/
def quotientScale (d : Nat) (wished : Int) : Int :=
  match terminatingScale d with
  | none => wished
  | some needed => max wished needed

/-- The quotient of two numbers, at the wished scale if it has to be rounded
and at no smaller scale if not. It is never a negative zero. -/
def quotient (a b : Decimal) (wished : Int) : Except Fault Decimal :=
  if b.coefficient = 0 then
    .error (.divisionByZero a b)
  else
    let (n, d) := ratio a b
    let places := quotientScale d wished
    let rounded := roundHalfEven (scaleUp n places.toNat) (scaleUp d (-places).toNat)
    settle ⟨rounded != 0 && a.negative != b.negative, rounded, -places⟩

end PrototypeLisp.Decimal
