/-
PrototypeLisp.Token.Basic — tokens of a source text and the kinds of words.

A source text consists of parentheses and words. What a word means is read off
its spelling: a number word spells a decimal, a colon followed by at least one
character is an atom, and every other word is a name.
-/
import PrototypeLisp.Decimal.Numeral

namespace PrototypeLisp

/-- What a word stands for. -/
inductive WordKind where
  | number
  | atom
  | name
deriving DecidableEq

/-- The kind of a word, by its spelling. -/
def WordKind.of (word : List Char) : WordKind :=
  if (Numeral.read? word).isSome then .number
  else
    match word with
    | ':' :: _ :: _ => .atom
    | _ => .name

/-- A piece of a source text that counts. -/
inductive Token where
  /-- An opening parenthesis. -/
  | opening
  /-- A closing parenthesis. -/
  | closing
  /-- A word, with its text unchanged. -/
  | word (text : String)
deriving DecidableEq

/-- The text of a token. -/
def Token.text : Token → String
  | .opening => "("
  | .closing => ")"
  | .word text => text

end PrototypeLisp
