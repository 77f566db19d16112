/-
PrototypeLisp.Expr.Basic — expressions, their text and their sameness.

An expression is a number, an atom, a variable, or a form: a name and
arguments in parentheses. A form whose head is itself a form has the empty
name and that head as its first argument; it declares a method inside an
object. A tree put together by a program instead of the reader may also hold
foreign pieces, which print as their text and mean nothing.
-/
import PrototypeLisp.Decimal.Notation

namespace PrototypeLisp

/-- A syntax tree. -/
inductive Expr where
  /-- A number literal. -/
  | number (value : Decimal)
  /-- An atom literal, without its colon. -/
  | atom (name : String)
  /-- A reference to a name. -/
  | variable (name : String)
  /-- A parenthesised form; the name is empty when the head is a form. -/
  | form (name : String) (arguments : List Expr)
  /-- A piece that is no expression, given by its text. -/
  | foreign (text : String)
deriving Inhabited

namespace Expr

mutual

/-- The text of an expression. -/
def chars : Expr → List Char
  | .number value => value.scientificChars
  | .atom name => ':' :: name.toList
  | .variable name => name.toList
  | .form name arguments =>
    '(' ::
      ((if name = "" then joinedChars arguments else name.toList ++ spacedChars arguments) ++
        [')'])
  | .foreign text => text.toList

/-- The texts of expressions, a space between two of them. -/
def joinedChars : List Expr → List Char
  | [] => []
  | e :: es => e.chars ++ spacedChars es

/-- The texts of expressions, a space before each of them. -/
def spacedChars : List Expr → List Char
  | [] => []
  | e :: es => ' ' :: e.chars ++ spacedChars es

end

/-- The text of an expression. -/
def text (e : Expr) : String :=
  String.ofList e.chars

mutual

/-- Are two trees the same, numbers being compared by value? -/
def same : Expr → Expr → Bool
  | .number a, .number b => a.sameValue b
  | .atom a, .atom b => a == b
  | .variable a, .variable b => a == b
  | .form f as, .form g bs => f == g && sameAll as bs
  | .foreign a, .foreign b => a == b
  | _, _ => false

/-- Are two lists of trees the same, place by place? -/
def sameAll : List Expr → List Expr → Bool
  | [], [] => true
  | a :: as, b :: bs => a.same b && sameAll as bs
  | _, _ => false

end

end Expr

end PrototypeLisp
