/-
PrototypeLisp.Expr.Reader — building expressions from tokens.

Reading takes one expression off the front of a token list. At most `limit`
forms may be open at a time. A fault consumes the tokens up to and including
the one that showed it, and reading can go on with the rest. Only nesting that
is too deep ends the supply itself: the tokens behind it are lost.

Design notes. A reader by recursive descent is two functions that call each
other, one for an expression and one for the items of a form, and its stack is
the stack of their calls. Here the open forms are on a stack of their own, so
that the recursion is structural in the tokens and the stack that can run out
is a number of the model. The descent itself is `TokenStream.TakesExpr` of
`Proofs.Expr.Descent`, where the two are shown to agree. Such a descent asks for
its tokens one by one, and the call for the next token is the deepest of all.
So a stack that runs out does so in the supply of tokens, which does not survive
it. This is why nothing is left after `ReadError.tooDeep`.
-/
import PrototypeLisp.Token.Lexer
import PrototypeLisp.Expr.Basic

namespace PrototypeLisp

/-- Why a text could not be read. -/
inductive ReadError where
  /-- A closing parenthesis stands where an expression should. -/
  | unexpectedClosing
  /-- The tokens end inside a form. -/
  | unmatchedOpening
  /-- A form has no head. -/
  | emptyForm
  /-- The head of a form is neither a name nor a form. -/
  | invalidHead (head : Expr)
  /-- One expression was asked for and there is none. -/
  | missingExpression
  /-- One expression was asked for and more follows. -/
  | trailingInput
  /-- A number word spells a number outside the exponent range. -/
  | numberOutOfRange
  /-- The forms are nested too deep. -/
  | tooDeep

/-- The text of a reading error. -/
def ReadError.message : ReadError → String
  | .unexpectedClosing => "Unexpected ')'"
  | .unmatchedOpening => "Unmatched '('"
  | .emptyForm => "Empty form '()' has no name"
  | .invalidHead head => "Invalid form head " ++ head.text ++ ", expected a name or a form"
  | .missingExpression => "Expected an expression, found end of input"
  | .trailingInput => "Unexpected input after expression"
  | .numberOutOfRange => "Number outside the exponent range"
  | .tooDeep => "maximum recursion depth exceeded"

namespace Expr

/-- The expression that a word spells. -/
def ofWord (word : List Char) : Except ReadError Expr :=
  match Numeral.read? word, word with
  | some numeral, _ =>
    if numeral.toDecimal.InRange then .ok (.number numeral.toDecimal)
    else .error .numberOutOfRange
  | none, ':' :: c :: cs => .ok (.atom (String.ofList (c :: cs)))
  | none, word => .ok (.variable (String.ofList word))

/-- The form with the given items between its parentheses. -/
def ofItems : List Expr → Except ReadError Expr
  | [] => .error .emptyForm
  | .variable name :: arguments => .ok (.form name arguments)
  | .form name inner :: arguments => .ok (.form "" (.form name inner :: arguments))
  | head :: _ => .error (.invalidHead head)

/-- Read on inside a form. `items` are the expressions read so far in it and
`outer` those of the forms around it, latest first; `room` more forms may be
opened. The answer is the outermost form, or a fault, and the tokens after
it, of which none is left when there is no room. -/
def readForm (room : Nat) (outer : List (List Expr)) (items : List Expr) :
    List Token → Except ReadError Expr × List Token
  | [] => (.error .unmatchedOpening, [])
  | .opening :: tokens =>
    match room with
    | 0 => (.error .tooDeep, [])
    | room + 1 => readForm room (items :: outer) [] tokens
  | .closing :: tokens =>
    match ofItems items.reverse, outer with
    | .error fault, _ => (.error fault, tokens)
    | .ok built, [] => (.ok built, tokens)
    | .ok built, above :: outer => readForm (room + 1) outer (built :: above) tokens
  | .word text :: tokens =>
    match ofWord text.toList with
    | .error fault => (.error fault, tokens)
    | .ok item => readForm room outer (item :: items) tokens

/-- Read one expression whose forms are nested at most `limit` deep: the
expression or a fault, and the tokens after it, of which none is left when the
forms are nested deeper. `none` when there is no token to read. -/
def read? (limit : Nat) : List Token → Option (Except ReadError Expr × List Token)
  | [] => none
  | .opening :: tokens =>
    match limit with
    | 0 => some (.error .tooDeep, [])
    | room + 1 => some (readForm room [] [] tokens)
  | .closing :: tokens => some (.error .unexpectedClosing, tokens)
  | .word text :: tokens => some (ofWord text.toList, tokens)

/-- Inside a form no token is put back. -/
theorem length_readForm_le (room : Nat) (outer : List (List Expr)) (items : List Expr)
    (tokens : List Token) :
    (readForm room outer items tokens).2.length ≤ tokens.length := by
  fun_induction readForm room outer items tokens <;> simp_all <;> omega

/-- Reading consumes at least one token. -/
theorem length_lt_of_read? {limit : Nat} {tokens rest : List Token}
    {result : Except ReadError Expr} (h : read? limit tokens = some (result, rest)) :
    rest.length < tokens.length := by
  match tokens, h with
  | .opening :: tokens, h =>
    cases limit with
    | zero =>
      simp only [read?, Option.some.injEq, Prod.mk.injEq] at h
      simp [← h.2]
    | succ room =>
      simp only [read?, Option.some.injEq] at h
      have hle := length_readForm_le room [] [] tokens
      simp only [h] at hle
      simp only [List.length_cons]
      omega
  | .closing :: tokens, h =>
    simp only [read?, Option.some.injEq, Prod.mk.injEq] at h
    simp [h.2]
  | .word text :: tokens, h =>
    simp only [read?, Option.some.injEq, Prod.mk.injEq] at h
    simp [h.2]

/-- Read expressions until the tokens end, after those in `done`, which are
listed latest first. A fault ends the reading, with the tokens that it
leaves. -/
def readAllFrom (limit : Nat) (done : List Expr) (tokens : List Token) :
    Except ReadError (List Expr) × List Token :=
  match _h : read? limit tokens with
  | none => (.ok done.reverse, tokens)
  | some (.error fault, rest) => (.error fault, rest)
  | some (.ok e, rest) => readAllFrom limit (e :: done) rest
termination_by tokens.length
decreasing_by exact length_lt_of_read? _h

/-- Read expressions until the tokens end. -/
def readAll (limit : Nat) (tokens : List Token) : Except ReadError (List Expr) × List Token :=
  readAllFrom limit [] tokens

/-- The one expression that a source text holds. -/
def parse (limit : Nat) (source : String) : Except ReadError Expr :=
  match read? limit (lex source) with
  | none => .error .missingExpression
  | some (.error fault, _) => .error fault
  | some (.ok e, []) => .ok e
  | some (.ok _, _ :: _) => .error .trailingInput

/-- All expressions that a source text holds, in order. -/
def parseAll (limit : Nat) (source : String) : Except ReadError (List Expr) :=
  (readAll limit (lex source)).1

end Expr

end PrototypeLisp
