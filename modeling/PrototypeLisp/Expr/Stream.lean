/-
PrototypeLisp.Expr.Stream — tokens taken one operation at a time.

A stream is a look-ahead of at most one token and the tokens still to come.
Peeking fills the look-ahead and consumes nothing; every other operation
consumes from the front. After a fault the stream goes on with the first token
that was not consumed, unless the forms were nested too deep, after which it is
at its end.
-/
import PrototypeLisp.Expr.Reader

namespace PrototypeLisp

/-- A token stream. -/
structure TokenStream where
  /-- The token that was peeked at and not yet consumed. -/
  ahead : Option Token
  /-- The tokens after it. -/
  upcoming : List Token
deriving DecidableEq

namespace TokenStream

/-- A stream over a source text. -/
def ofSource (source : String) : TokenStream :=
  ⟨none, lex source⟩

/-- The tokens that are still to be consumed. -/
def remaining (s : TokenStream) : List Token :=
  s.ahead.toList ++ s.upcoming

/-- The next token, left in place. -/
def peek (s : TokenStream) : Option Token × TokenStream :=
  match s.ahead, s.upcoming with
  | some token, _ => (some token, s)
  | none, [] => (none, s)
  | none, token :: upcoming => (some token, ⟨some token, upcoming⟩)

/-- The next token, consumed. -/
def advance (s : TokenStream) : Option Token × TokenStream :=
  match s.ahead, s.upcoming with
  | some token, upcoming => (some token, ⟨none, upcoming⟩)
  | none, [] => (none, s)
  | none, token :: upcoming => (some token, ⟨none, upcoming⟩)

/-- The next expression, `none` at the end, or a fault. -/
def readExpr (limit : Nat) (s : TokenStream) : Except ReadError (Option Expr) × TokenStream :=
  match Expr.read? limit s.remaining with
  | none => (.ok none, ⟨none, []⟩)
  | some (result, rest) => (result.map some, ⟨none, rest⟩)

/-- All expressions up to the end, or the first fault. -/
def readAll (limit : Nat) (s : TokenStream) : Except ReadError (List Expr) × TokenStream :=
  let (result, rest) := Expr.readAll limit s.remaining
  (result, ⟨none, rest⟩)

/-! ## The view of a stream as its remaining tokens -/

@[simp] theorem remaining_ofSource (source : String) :
    (ofSource source).remaining = lex source := rfl

/-- Peeking shows the first remaining token. -/
theorem fst_peek (s : TokenStream) : s.peek.1 = s.remaining.head? := by
  obtain ⟨ahead, upcoming⟩ := s
  cases ahead <;> cases upcoming <;> rfl

/-- Peeking consumes nothing. -/
@[simp] theorem remaining_peek (s : TokenStream) : s.peek.2.remaining = s.remaining := by
  obtain ⟨ahead, upcoming⟩ := s
  cases ahead <;> cases upcoming <;> rfl

/-- Advancing gives the first remaining token. -/
theorem fst_advance (s : TokenStream) : s.advance.1 = s.remaining.head? := by
  obtain ⟨ahead, upcoming⟩ := s
  cases ahead <;> cases upcoming <;> rfl

/-- Advancing consumes one token, if there is one. -/
@[simp] theorem remaining_advance (s : TokenStream) :
    s.advance.2.remaining = s.remaining.tail := by
  obtain ⟨ahead, upcoming⟩ := s
  cases ahead <;> cases upcoming <;> rfl

theorem readExpr_of_none {limit : Nat} {s : TokenStream}
    (h : Expr.read? limit s.remaining = none) : s.readExpr limit = (.ok none, ⟨none, []⟩) := by
  unfold readExpr
  rw [h]

theorem readExpr_of_some {limit : Nat} {s : TokenStream} {result : Except ReadError Expr}
    {rest : List Token} (h : Expr.read? limit s.remaining = some (result, rest)) :
    s.readExpr limit = (result.map some, ⟨none, rest⟩) := by
  unfold readExpr
  rw [h]

/-- A stream gives an expression where its remaining tokens do. -/
theorem readExpr_eq_ok_iff {limit : Nat} {s t : TokenStream} {e : Expr} :
    s.readExpr limit = (.ok (some e), t) ↔
      t.ahead = none ∧ Expr.read? limit s.remaining = some (.ok e, t.remaining) := by
  obtain ⟨ahead, upcoming⟩ := t
  unfold readExpr
  split
  · simp_all
  · rename_i result rest hread
    rw [hread]
    cases result with
    | error fault => simp [Except.map]
    | ok other => cases ahead <;> simp [Except.map, remaining]

end TokenStream

end PrototypeLisp
