/-
PrototypeLisp.Token.Lexer — cutting a source text into tokens.

The scanner walks the text once. Blanks separate words, a semicolon starts a
comment that runs to the end of its line, a parenthesis is a token of its own,
and every other character belongs to a word. The state between two characters
is the tokens found so far, the word being read, and whether a comment is
open; nothing else about the text read so far matters.

Design notes. Tokens can also be described by a pattern that is matched again
and again: leading blanks, then one of a comment, a parenthesis or a word, until
nothing matches. A fold over the characters replaces it because it is one
structural pass, takes no substrings and composes: what a text lexes to follows
from the states at its cuts. That it finds the same tokens is
`lexChars_eq_matched` of `Proofs.Token.Matching`.
-/
import PrototypeLisp.Text.Blank
import PrototypeLisp.Token.Basic

namespace PrototypeLisp

open Text

/-- The state of the scanner between two characters. -/
structure Scanner where
  /-- The tokens found so far, latest first. -/
  found : List Token
  /-- The characters of the word being read, latest first. -/
  word : List Char
  /-- Is a comment open? -/
  comment : Bool
deriving DecidableEq

namespace Scanner

/-- Before the first character. -/
def start : Scanner :=
  ⟨[], [], false⟩

/-- The tokens found so far, the word being read among them, latest first. -/
def flush (s : Scanner) : List Token :=
  if s.word = [] then s.found else .word (String.ofList s.word.reverse) :: s.found

/-- Read one character. -/
def step (s : Scanner) (c : Char) : Scanner :=
  if s.comment then { s with comment := c != '\n' }
  else if isBlank c then ⟨s.flush, [], false⟩
  else if c = ';' then ⟨s.flush, [], true⟩
  else if c = '(' then ⟨.opening :: s.flush, [], false⟩
  else if c = ')' then ⟨.closing :: s.flush, [], false⟩
  else { s with word := c :: s.word }

end Scanner

/-- The tokens of a text, in order. -/
def lexChars (cs : List Char) : List Token :=
  (cs.foldl Scanner.step .start).flush.reverse

/-- The tokens of a source text, in order. -/
def lex (source : String) : List Token :=
  lexChars source.toList

/-- How much one token opens: one for an opening parenthesis, minus one for a
closing one. -/
def Token.opens : Token → Int
  | .opening => 1
  | .closing => -1
  | .word _ => 0

/-- The number of opening parentheses less the number of closing ones,
comments left out. -/
def depth (source : String) : Int :=
  ((lex source).map Token.opens).foldl (· + ·) 0

end PrototypeLisp
