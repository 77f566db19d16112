/-
PrototypeLisp.Decimal.Numeral — number words.

A numeral is an optional sign, digits with an optional point among or around
them, and an optional exponent: `e` or `E`, an optional sign and digits. At
least one digit stands beside the point. The digits may be those of any
script. `Numeral.read?` finds the parts of a word and `Numeral.toDecimal` is
the number they spell.
-/
import PrototypeLisp.Text.Digit
import PrototypeLisp.Decimal.Basic

namespace PrototypeLisp

open Text

/-- The parts of a number word. -/
structure Numeral where
  /-- Is there a minus sign? -/
  negative : Bool
  /-- The digits before the point. -/
  whole : List Nat
  /-- The digits after the point. -/
  fraction : List Nat
  /-- The exponent, zero when none is written. -/
  exponent : Int
deriving DecidableEq

namespace Numeral

/-- Split an optional sign off: is it a minus sign, and what follows. -/
def takeSign : List Char → Bool × List Char
  | '+' :: cs => (false, cs)
  | '-' :: cs => (true, cs)
  | cs => (false, cs)

/-- The values of the leading digits. -/
def leadingDigits (cs : List Char) : List Nat :=
  (cs.takeWhile isDigit).filterMap digitValue?

/-- Split an optional point and the digits after it off. -/
def takeFraction : List Char → List Nat × List Char
  | '.' :: cs => (leadingDigits cs, cs.dropWhile isDigit)
  | cs => ([], cs)

/-- A natural number with a sign. -/
def signed (negative : Bool) (n : Nat) : Int :=
  if negative then -n else n

/-- The exponent that the rest of a word spells: zero for an empty rest. -/
def readExponent? : List Char → Option Int
  | [] => some 0
  | c :: cs =>
    let (negative, row) := takeSign cs
    if (c = 'e' ∨ c = 'E') ∧ row ≠ [] ∧ row.all isDigit then
      some (signed negative (ofDigits (leadingDigits row)))
    else
      none

/-- The parts of a number word; `none` for every other word. -/
def read? (word : List Char) : Option Numeral :=
  let (negative, body) := takeSign word
  let whole := leadingDigits body
  let (fraction, rest) := takeFraction (body.dropWhile isDigit)
  if whole = [] ∧ fraction = [] then none
  else (readExponent? rest).map fun exponent => ⟨negative, whole, fraction, exponent⟩

/-- The number that the parts spell. -/
def toDecimal (n : Numeral) : Decimal :=
  ⟨n.negative, ofDigits (n.whole ++ n.fraction), n.exponent - n.fraction.length⟩

end Numeral

end PrototypeLisp
