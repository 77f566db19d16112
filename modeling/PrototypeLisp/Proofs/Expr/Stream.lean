/-
PrototypeLisp.Proofs.Expr.Stream — the tokens that operations take off a stream.

A stream is shared by whoever looks at it, steps over tokens and reads from it,
in any order, also after a fault. Each operation is made of single looks and
steps (`Performs`), and the tokens that it steps over are the first of those
that remained. So after any operations the tokens taken, followed by those that
remain, are the tokens of the source (`operations_account`), and the look-ahead
holds a token only right after a look at it.

One fault is different. Forms nested deeper than the stack allows end the
stream, and the tokens behind them are neither taken nor left
(`nesting_loses_tokens`). So no token is lost as long as every operation has
room (`fits`); none is repeated or moved in any case.
-/
import PrototypeLisp.Proofs.Expr.Descent

namespace PrototypeLisp

namespace TokenStream

/-! ## Operations -/

/-- What can be done with a stream. -/
inductive Operation where
  /-- Look at the next token. -/
  | peek
  /-- Take the next token. -/
  | advance
  /-- Read an expression. -/
  | readExpr
  /-- Read all expressions. -/
  | readAll
  /-- One turn of reading all expressions: look whether one follows, and read
  it. -/
  | readNext
deriving DecidableEq

/-- What an operation gives. -/
inductive Answer where
  | token (token? : Option Token)
  | expression (result : Except ReadError (Option Expr))
  | expressions (result : Except ReadError (List Expr))

/-- Did the operation run out of room for open forms? -/
def Answer.exhausted : Answer → Bool
  | .token _ => false
  | .expression result => TokenStream.exhausted result
  | .expressions result => TokenStream.exhausted result

/-- One turn of reading all expressions. -/
def readNext (limit : Nat) (s : TokenStream) : Except ReadError (Option Expr) × TokenStream :=
  match s.peek with
  | (none, t) => (.ok none, t)
  | (some _, t) => t.readExpr limit

theorem fst_readNext (limit : Nat) (s : TokenStream) : (s.readNext limit).1 =
    match s.peek.1 with
    | none => .ok none
    | some _ => (s.peek.2.readExpr limit).1 := by
  unfold readNext
  cases s.peek with
  | mk token? t => cases token? <;> rfl

/-- Perform an operation. -/
def perform (limit : Nat) (s : TokenStream) : Operation → Answer × TokenStream
  | .peek => (.token s.peek.1, s.peek.2)
  | .advance => (.token s.advance.1, s.advance.2)
  | .readExpr => (.expression (s.readExpr limit).1, (s.readExpr limit).2)
  | .readAll => (.expressions (s.readAll limit).1, (s.readAll limit).2)
  | .readNext => (.expression (s.readNext limit).1, (s.readNext limit).2)

/-- The stream after operations. -/
def after (limit : Nat) (s : TokenStream) (operations : List Operation) : TokenStream :=
  operations.foldl (fun t operation => (t.perform limit operation).2) s

/-- None of the operations, one after the other, runs out of room. -/
def fits (limit : Nat) (s : TokenStream) : List Operation → Bool
  | [] => true
  | operation :: operations =>
    !(s.perform limit operation).1.exhausted && fits limit (s.perform limit operation).2 operations

/-- An operation, by single looks and steps: the tokens that it takes, what it
gives and the stream that it leaves. -/
inductive Performs (limit : Nat) (s : TokenStream) :
    Operation → List Token → Answer → TokenStream → Prop where
  | peek {token? : Option Token} {t : TokenStream} (h : s.peek = (token?, t)) :
      Performs limit s .peek [] (.token token?) t
  | advance {token? : Option Token} {t : TokenStream} (h : s.advance = (token?, t)) :
      Performs limit s .advance token?.toList (.token token?) t
  | readExpr {taken : List Token} {result : Except ReadError (Option Expr)} {t : TokenStream}
      (h : TakesExpr limit s taken result t) :
      Performs limit s .readExpr taken (.expression result) t
  | readAll {taken : List Token} {result : Except ReadError (List Expr)} {t : TokenStream}
      (h : TakesAll limit s [] taken result t) :
      Performs limit s .readAll taken (.expressions result) t
  | noNext {t : TokenStream} (h : s.peek = (none, t)) :
      Performs limit s .readNext [] (.expression (.ok none)) t
  | readNext {token : Token} {taken : List Token} {result : Except ReadError (Option Expr)}
      {u t : TokenStream} (h : s.peek = (some token, u))
      (hexpr : TakesExpr limit u taken result t) :
      Performs limit s .readNext taken (.expression result) t

/-- Operations one after the other, with all tokens that they take. -/
inductive Performed (limit : Nat) :
    TokenStream → List Operation → List Token → TokenStream → Prop where
  | nil (s : TokenStream) : Performed limit s [] [] s
  | cons {s t u : TokenStream} {operation : Operation} {operations : List Operation}
      {taken more : List Token} {answer : Answer} (h : Performs limit s operation taken answer t)
      (hrest : Performed limit t operations more u) :
      Performed limit s (operation :: operations) (taken ++ more) u

/-! ## One operation -/

theorem performs_perform (limit : Nat) (s : TokenStream) (operation : Operation) :
    ∃ taken, Performs limit s operation taken (s.perform limit operation).1
      (s.perform limit operation).2 := by
  cases operation with
  | peek => exact ⟨_, .peek rfl⟩
  | advance => exact ⟨_, .advance rfl⟩
  | readExpr =>
    obtain ⟨taken, h⟩ := takesExpr_readExpr limit s
    exact ⟨taken, .readExpr h⟩
  | readAll =>
    obtain ⟨taken, h⟩ := takesAll_readAll limit s
    exact ⟨taken, .readAll h⟩
  | readNext =>
    cases hpeek : s.peek with
    | mk token? u =>
      simp only [perform, readNext, hpeek]
      cases token? with
      | none => exact ⟨_, .noNext hpeek⟩
      | some token =>
        obtain ⟨taken, h⟩ := takesExpr_readExpr limit u
        exact ⟨taken, .readNext hpeek h⟩

/-- What an operation gives depends on the remaining tokens only, not on where
they are kept. -/
theorem fst_perform_congr {s t : TokenStream} (h : s.remaining = t.remaining) (limit : Nat)
    (operation : Operation) : (s.perform limit operation).1 = (t.perform limit operation).1 := by
  have hexpr {u v : TokenStream} (h : u.remaining = v.remaining) :
      u.readExpr limit = v.readExpr limit := by simp only [readExpr, h]
  cases operation with
  | peek => simp only [perform, fst_peek, h]
  | advance => simp only [perform, fst_advance, h]
  | readExpr => simp only [perform, hexpr h]
  | readAll => simp only [perform, readAll, h]
  | readNext =>
    have hfst : s.peek.1 = t.peek.1 := by rw [fst_peek, fst_peek, h]
    have hsnd : s.peek.2.readExpr limit = t.peek.2.readExpr limit :=
      hexpr (by rw [remaining_peek, remaining_peek, h])
    simp only [perform, fst_readNext, hfst, hsnd]

namespace Performs

variable {limit : Nat} {s t : TokenStream} {operation : Operation} {taken : List Token}
  {answer : Answer}

/-- Single looks and steps come to what the operation gives. -/
theorem perform_eq (h : Performs limit s operation taken answer t) :
    s.perform limit operation = (answer, t) := by
  cases h with
  | peek h => simp only [perform, h]
  | advance h => simp only [perform, h]
  | readExpr h => simp only [perform, h.readExpr_eq]
  | readAll h => simp only [perform, h.readAll_eq]
  | noNext h => simp only [perform, TokenStream.readNext, h]
  | readNext h hexpr => simp only [perform, TokenStream.readNext, h, hexpr.readExpr_eq]

/-- The tokens taken are the first remaining ones, and the others are left
unless there was no room. -/
theorem leaves (h : Performs limit s operation taken answer t) :
    Leaves s taken (answer.exhausted = false) t := by
  cases h with
  | peek h => exact .of_peek h (.of_eq rfl)
  | @advance token? _ h =>
    cases token? with
    | none =>
      obtain ⟨hnil, rfl⟩ := advance_eq_none_iff.1 h
      exact .of_eq hnil.symm
    | some token => exact .of_advance h
  | readExpr h => exact h.leaves
  | readAll h => exact h.leaves
  | noNext h => exact .of_peek h (.of_eq rfl)
  | readNext h hexpr => exact .of_peek h hexpr.leaves

/-- A look fills the look-ahead, and every other operation leaves none. -/
theorem ahead_eq (h : Performs limit s operation taken answer t) :
    t.ahead = if operation = .peek then t.remaining.head? else none := by
  cases h with
  | @peek token? _ h =>
    cases token? with
    | none =>
      obtain ⟨-, rfl⟩ := peek_eq_none_iff.1 h
      rfl
    | some token =>
      obtain ⟨hahead, -⟩ := peek_eq_some_iff.1 h
      simp [remaining, hahead]
  | @advance token? _ h =>
    cases token? with
    | none =>
      obtain ⟨-, rfl⟩ := advance_eq_none_iff.1 h
      rfl
    | some token => exact (advance_eq_some_iff.1 h).2
  | readExpr h => exact h.ahead_eq
  | readAll h => exact h.ahead_eq
  | noNext h =>
    obtain ⟨-, rfl⟩ := peek_eq_none_iff.1 h
    rfl
  | readNext _ hexpr => exact hexpr.ahead_eq

/-- As long as tokens remain every operation but a look takes one. -/
theorem taken_ne_nil (h : Performs limit s operation taken answer t) (hne : operation ≠ .peek)
    (hs : s.remaining ≠ []) : taken ≠ [] := by
  cases h with
  | peek _ => exact absurd rfl hne
  | @advance token? _ h =>
    cases token? with
    | none => exact absurd (advance_eq_none_iff.1 h).1 hs
    | some token => exact List.cons_ne_nil _ _
  | readExpr h => exact h.taken_ne_nil hs
  | readAll h => exact h.taken_ne_nil hs
  | noNext h => exact absurd (peek_eq_none_iff.1 h).1 hs
  | readNext h hexpr =>
    rw [← (peek_eq_some_iff.1 h).2] at hs
    exact hexpr.taken_ne_nil hs

end Performs

/-! ## Operations one after the other -/

theorem performed_after (limit : Nat) (s : TokenStream) (operations : List Operation) :
    ∃ taken, Performed limit s operations taken (s.after limit operations) := by
  induction operations generalizing s with
  | nil => exact ⟨[], .nil s⟩
  | cons operation operations ih =>
    obtain ⟨taken, h⟩ := performs_perform limit s operation
    obtain ⟨more, hrest⟩ := ih (s.perform limit operation).2
    exact ⟨taken ++ more, .cons h hrest⟩

namespace Performed

variable {limit : Nat} {s t : TokenStream} {operations : List Operation} {taken : List Token}

/-- What one operation leaves the next one goes on with. -/
theorem leaves (h : Performed limit s operations taken t) :
    Leaves s taken (s.fits limit operations = true) t := by
  induction h with
  | nil s => exact .of_eq rfl
  | cons h _ ih =>
    refine (h.leaves.append ih).mono fun hfits => ?_
    simpa only [fits, h.perform_eq, Bool.and_eq_true, Bool.not_eq_true'] using hfits

/-- The look-ahead depends on the last operation only. -/
theorem ahead_eq (h : Performed limit s operations taken t)
    (hs : operations = [] → s.ahead = none) :
    t.ahead = if operations.getLast? = some .peek then t.remaining.head? else none := by
  induction h with
  | nil s => exact hs rfl
  | @cons s t u operation operations taken more answer h hrest ih =>
    cases operations with
    | nil =>
      cases hrest with
      | nil => simpa using h.ahead_eq
    | cons next operations =>
      rw [List.getLast?_cons_cons]
      exact ih (fun hnil => absurd hnil (List.cons_ne_nil _ _))

end Performed

/-! ## The account -/

/-- What the next operation does to a stream, and which tokens it takes. -/
structure Accounts (limit : Nat) (s : TokenStream) (operation : Operation) (taken : List Token) :
    Prop where
  /-- The operation takes these tokens by single looks and steps. -/
  performed : Performs limit s operation taken (s.perform limit operation).1
    (s.perform limit operation).2
  /-- They and then those that remain stand at the front of the tokens that
  remained before, in the same order and each once. -/
  ordered : taken ++ (s.perform limit operation).2.remaining <+: s.remaining
  /-- Unless there was no room for a form, all others remain. -/
  kept : (s.perform limit operation).1.exhausted = false →
    taken ++ (s.perform limit operation).2.remaining = s.remaining
  /-- And then, whatever the operation gives, another fault as well, the next
  one goes on with the first token that was not taken: it gives what it gives
  on a new stream of the others. -/
  continues : (s.perform limit operation).1.exhausted = false → ∀ next,
    ((s.perform limit operation).2.perform limit next).1 =
      (perform limit ⟨none, s.remaining.drop taken.length⟩ next).1
  /-- A look takes nothing, and what it shows is taken next. -/
  looked : operation = .peek → taken = [] ∧
    ((s.perform limit operation).2.perform limit .advance).1 = (s.perform limit operation).1
  /-- Every other operation takes a token when one remains, whatever it
  gives. -/
  progress : operation ≠ .peek → s.remaining ≠ [] → taken ≠ []

theorem exists_accounts (limit : Nat) (s : TokenStream) (operation : Operation) :
    ∃ taken, Accounts limit s operation taken := by
  obtain ⟨taken, h⟩ := performs_perform limit s operation
  refine ⟨taken, h, h.leaves.ordered, h.leaves.kept, ?_, ?_, h.taken_ne_nil⟩
  · intro hroom next
    refine fst_perform_congr ?_ limit next
    rw [← h.leaves.kept hroom, List.drop_left]
    rfl
  · rintro rfl
    cases h with
    | peek _ => exact ⟨rfl, by simp only [perform, fst_advance, remaining_peek, fst_peek]⟩

/-- After any operations on a stream the tokens taken, followed by those that
remain, stand at the front of the tokens of the source, and they are all of
them as long as no operation ran out of room. The look-ahead holds the next
token after a look and nothing otherwise. And so it goes on with every further
operation. -/
theorem operations_account (limit : Nat) (source : String) (operations : List Operation) :
    let s := (ofSource source).after limit operations
    ∃ taken, Performed limit (ofSource source) operations taken s ∧
      taken ++ s.remaining <+: lex source ∧
      ((ofSource source).fits limit operations = true → taken ++ s.remaining = lex source) ∧
      s.ahead = (if operations.getLast? = some .peek then s.remaining.head? else none) ∧
      ∀ operation, ∃ more, Accounts limit s operation more := by
  obtain ⟨taken, h⟩ := performed_after limit (ofSource source) operations
  exact ⟨taken, h, h.leaves.ordered, h.leaves.kept, h.ahead_eq fun _ => rfl,
    exists_accounts limit _⟩

/-- A form without a name, inside another one, is a fault, and after it the
closing parenthesis is the next token: nothing is lost. -/
theorem operations_account_empty_form :
    let operations : List Operation := [.readExpr, .peek, .advance]
    let s := (ofSource "(()) a").after 2 operations
    (ofSource "(()) a").fits 2 operations = true ∧
      ∃ taken, Performed 2 (ofSource "(()) a") operations taken s ∧
        taken ++ s.remaining = lex "(()) a" := by
  intro operations s
  have hfits : (ofSource "(()) a").fits 2 operations = true := by decide +kernel
  obtain ⟨taken, hperformed, -, hkept, -⟩ := operations_account 2 "(()) a" operations
  exact ⟨hfits, taken, hperformed, hkept hfits⟩

/-- More forms inside one another than there is room for: all that is taken is
the parentheses that open them, up to the first without room. -/
theorem TakesExpr.of_openings {room : Nat} {s t : TokenStream} {taken rest : List Token}
    {result : Except ReadError (Option Expr)} (h : TakesExpr room s taken result t)
    (hs : s.remaining = List.replicate (room + 1) .opening ++ rest) :
    taken = List.replicate (room + 1) .opening ∧ result = .error .tooDeep := by
  induction room generalizing s taken result t with
  | zero =>
    cases h with
    | ended h => simp [(advance_eq_none_iff.1 h).1] at hs
    | word h | stray h => simp [(advance_eq_some_iff.1 h).1] at hs
    | tooDeep _ => exact ⟨rfl, rfl⟩
  | succ room ih =>
    rw [List.replicate_succ, List.cons_append] at hs
    cases h with
    | ended h => simp [(advance_eq_none_iff.1 h).1] at hs
    | word h | stray h => simp [(advance_eq_some_iff.1 h).1] at hs
    | form h hitems =>
      rw [(advance_eq_some_iff.1 h).1] at hs
      obtain ⟨-, hu⟩ := List.cons.inj hs
      -- the first item is the next form, and it has no room either
      cases hitems with
      | unmatched h => simp [(peek_eq_none_iff.1 h).1, List.replicate_succ] at hu
      | close h hclose =>
        rw [← (peek_eq_some_iff.1 h).2, (advance_eq_some_iff.1 hclose).1] at hu
        simp [List.replicate_succ] at hu
      | fault h _ hexpr =>
        rw [← (peek_eq_some_iff.1 h).2] at hu
        obtain ⟨rfl, hfault⟩ := ih hexpr hu
        obtain rfl := Except.error.inj hfault
        exact ⟨rfl, rfl⟩
      | item h _ hexpr _ =>
        rw [← (peek_eq_some_iff.1 h).2] at hu
        cases (ih hexpr hu).2

/-- When forms are nested too deep, the tokens behind are neither taken nor left:
the stream is at its end. -/
theorem nesting_loses_tokens :
    let s := (ofSource "((a) b)").after 1 [.readExpr]
    s.peek.1 = none ∧
      ¬ ∃ taken, Performed 1 (ofSource "((a) b)") [.readExpr] taken s ∧
        taken ++ s.remaining = lex "((a) b)" := by
  intro s
  have hlex : lex "((a) b)" =
      List.replicate 2 .opening ++ [.word "a", .closing, .word "b", .closing] := by
    decide +kernel
  have hs : s.remaining = [] := by decide +kernel
  refine ⟨by rw [fst_peek, hs]; rfl, ?_⟩
  rintro ⟨taken, hperformed, haccount⟩
  rw [hs, hlex] at haccount
  cases hperformed with
  | cons h hrest =>
    cases hrest
    cases h with
    | readExpr h =>
      rw [(h.of_openings hlex).1] at haccount
      simp at haccount

end TokenStream

end PrototypeLisp
