/-
PrototypeLisp.Decimal.Notation — decimals as text.

Plain notation writes every digit: a nonzero coefficient is followed by the
zeros of a positive exponent, and the point stands where a negative exponent
puts it. Scientific notation is plain for exponents up to zero whose leading
digit is no further than six places after the point, and otherwise writes one
digit before the point and the exponent of the leading digit.
-/
import PrototypeLisp.Decimal.Basic

namespace PrototypeLisp.Decimal

/-- The minus sign, if the number carries one. -/
def signChars (negative : Bool) : List Char :=
  if negative then ['-'] else []

/-- Put the point `places` digits before the end of a row of digits, with at
least one digit before it. -/
def insertPoint (row : List Char) (places : Nat) : List Char :=
  let padded := List.replicate (places + 1 - row.length) '0' ++ row
  let whole := padded.length - places
  padded.take whole ++ '.' :: padded.drop whole

/-- The number without its sign in plain notation. -/
def plainDigits (d : Decimal) : List Char :=
  match d.exponent with
  | .ofNat k =>
    if d.coefficient = 0 then digits 0 else digits d.coefficient ++ List.replicate k '0'
  | .negSucc k => insertPoint (digits d.coefficient) (k + 1)

/-- Plain notation, as characters. -/
def plainChars (d : Decimal) : List Char :=
  signChars d.negative ++ plainDigits d

/-- The exponent part of scientific notation. -/
def exponentChars (e : Int) : List Char :=
  'E' :: (if e < 0 then '-' else '+') :: digits e.natAbs

/-- One digit before the point, the others after it. -/
def mantissaChars : List Char → List Char
  | [] => []
  | [c] => [c]
  | c :: cs => c :: '.' :: cs

/-- Scientific notation, as characters. -/
def scientificChars (d : Decimal) : List Char :=
  if d.exponent ≤ 0 ∧ -6 ≤ d.adjusted then plainChars d
  else
    signChars d.negative ++ mantissaChars (digits d.coefficient) ++ exponentChars d.adjusted

/-- The number in plain notation. -/
def plain (d : Decimal) : String :=
  String.ofList (plainChars d)

/-- The number in scientific notation. -/
def scientific (d : Decimal) : String :=
  String.ofList (scientificChars d)

end PrototypeLisp.Decimal
