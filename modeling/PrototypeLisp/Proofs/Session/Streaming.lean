/-
PrototypeLisp.Proofs.Session.Streaming — a text is read, then evaluated.

A session reads a text from a stream and evaluates each expression before it
reads the next one. Reading does not depend on the store, so the outcome is
that of reading first: `Yields` lists what a stream gives up to its end or its
first fault, and `Evaluated` evaluates a list of expressions in the root
frame. Two laws follow. A text after another one, on lines of its own, is
evaluated as if it were given to the session on its own; and a text evaluated
for its definitions has the effect of the text.
-/
import PrototypeLisp.Proofs.Expr.Grammar
import PrototypeLisp.Proofs.Session.Text

namespace PrototypeLisp

/-! ## What a stream yields -/

namespace TokenStream

/-- The expressions that a stream gives one after the other, up to the end or
the first fault. -/
inductive Yields (limit : Nat) : TokenStream → List Expr → Option ReadError → Prop where
  | done {s t : TokenStream} (h : s.readExpr limit = (.ok none, t)) : Yields limit s [] none
  | fault {s t : TokenStream} {fault : ReadError} (h : s.readExpr limit = (.error fault, t)) :
      Yields limit s [] (some fault)
  | next {s t : TokenStream} {e : Expr} {es : List Expr} {fault? : Option ReadError}
      (h : s.readExpr limit = (.ok (some e), t)) (hs : Yields limit t es fault?) :
      Yields limit s (e :: es) fault?

/-- A stream yields the leading expressions of its remaining tokens. -/
theorem yields_leading (limit : Nat) (s : TokenStream) : Yields limit s
    (Expr.leading limit s.remaining).1 (Expr.leading limit s.remaining).2 := by
  generalize htokens : s.remaining = tokens
  induction tokens using Expr.leading_induction limit generalizing s with
  | none tokens hread =>
    rw [Expr.leading_of_none hread]
    exact .done (readExpr_of_none (htokens ▸ hread))
  | error tokens fault rest hread =>
    rw [Expr.leading_of_error hread]
    exact .fault (readExpr_of_some (htokens ▸ hread))
  | ok tokens e rest hread ih =>
    rw [Expr.leading_of_ok hread]
    exact .next (readExpr_of_some (htokens ▸ hread)) (ih ⟨none, rest⟩ rfl)

/-- A stream yields nothing else. -/
theorem Yields.eq_leading {limit : Nat} {s : TokenStream} {es : List Expr}
    {fault? : Option ReadError} (h : Yields limit s es fault?) :
    Expr.leading limit s.remaining = (es, fault?) := by
  induction h with
  | @done s t h =>
    cases hread : Expr.read? limit s.remaining with
    | none => exact Expr.leading_of_none hread
    | some result =>
      obtain ⟨outcome, rest⟩ := result
      rw [readExpr_of_some hread] at h
      cases outcome <;> simp [Except.map] at h
  | @fault s t fault h =>
    cases hread : Expr.read? limit s.remaining with
    | none => simp [readExpr_of_none hread] at h
    | some result =>
      obtain ⟨outcome, rest⟩ := result
      rw [readExpr_of_some hread] at h
      cases outcome with
      | error fault' =>
        obtain ⟨rfl, -⟩ : fault' = fault ∧ _ := by simpa [Except.map] using h
        exact Expr.leading_of_error hread
      | ok e => simp [Except.map] at h
  | @next s t e es fault? h hs ih =>
    rw [Expr.leading_of_ok (readExpr_eq_ok_iff.1 h).2, ih]

end TokenStream

/-! ## Reading on after a text -/

namespace Expr

/-- What follows an expression makes no difference to reading it. -/
theorem read?_append {limit : Nat} {tokens rest : List Token} {e : Expr}
    (h : read? limit tokens = some (.ok e, rest)) (more : List Token) :
    read? limit (tokens ++ more) = some (.ok e, rest ++ more) := by
  obtain ⟨consumed, rfl, he, hlimit⟩ := Grammar.read?_eq_ok_iff.1 h
  rw [List.append_assoc]
  exact he.read? hlimit _

/-- After tokens that can be read to their end, reading goes on with what
follows. -/
theorem leading_append_of_ok {limit : Nat} {tokens : List Token} {es : List Expr}
    (h : leading limit tokens = (es, none)) (more : List Token) :
    leading limit (tokens ++ more) =
      (es ++ (leading limit more).1, (leading limit more).2) := by
  induction tokens using leading_induction limit generalizing es with
  | none tokens hread =>
    obtain rfl : [] = es := by simpa [leading_of_none hread] using h
    obtain rfl := eq_nil_of_read? hread
    rfl
  | error tokens fault rest hread => simp [leading_of_error hread] at h
  | ok tokens e rest hread ih =>
    rw [leading_of_ok hread] at h
    obtain ⟨rfl, hfault⟩ := Prod.mk.inj h
    rw [leading_of_ok (read?_append hread more), ih (Prod.ext rfl hfault)]
    rfl

end Expr

/-! ## Evaluating expressions one after the other -/

namespace Session

open Heap

/-- The expressions can be evaluated in the root frame one after the other,
from the first store to the last. -/
inductive Evaluated (limit : Nat) : Store → List Expr → List Value → Store → Prop where
  | nil (s : Store) : Evaluated limit s [] [] s
  | cons {s u t : Store} {e : Expr} {es : List Expr} {value : Value} {values : List Value}
      (h : evaluate limit e s = .ok value u) (hs : Evaluated limit u es values t) :
      Evaluated limit s (e :: es) (value :: values) t

/-- One of the expressions fails, and those before it can be evaluated. -/
def FailedAt (limit : Nat) (s : Store) (es : List Expr) (failure : Failure) (t : Store) : Prop :=
  ∃ before e after values u, es = before ++ e :: after ∧ Evaluated limit s before values u ∧
    evaluate limit e u = .error failure t

theorem evaluated_of_evalAll {limit : Nat} {es : List Expr} {values : List Value} {s t : Store}
    (h : Eval.evalAll (eval limit) root es s = .ok values t) : Evaluated limit s es values t := by
  induction es generalizing s values with
  | nil =>
    obtain ⟨rfl, rfl⟩ : [] = values ∧ s = t := by simpa [Eval.evalAll] using h
    exact .nil s
  | cons e es ih =>
    simp only [Eval.evalAll, Eval.bind_apply] at h
    cases hfirst : eval limit e root s with
    | error failure u => simp [hfirst] at h
    | ok value u =>
      rw [hfirst] at h
      cases hrest : Eval.evalAll (eval limit) root es u with
      | error failure w => simp [hrest] at h
      | ok rest w =>
        obtain ⟨rfl, rfl⟩ : value :: rest = values ∧ w = t := by simpa [hrest] using h
        exact .cons hfirst (ih hrest)

theorem failedAt_of_evalAll {limit : Nat} {es : List Expr} {failure : Failure} {s t : Store}
    (h : Eval.evalAll (eval limit) root es s = .error failure t) :
    FailedAt limit s es failure t := by
  induction es generalizing s with
  | nil => simp [Eval.evalAll] at h
  | cons e es ih =>
    simp only [Eval.evalAll, Eval.bind_apply] at h
    cases hfirst : eval limit e root s with
    | error failure' u =>
      obtain ⟨rfl, rfl⟩ : failure' = failure ∧ u = t := by simpa [hfirst] using h
      exact ⟨[], e, es, [], s, rfl, .nil s, hfirst⟩
    | ok value u =>
      rw [hfirst] at h
      cases hrest : Eval.evalAll (eval limit) root es u with
      | ok rest w => simp [hrest] at h
      | error failure' w =>
        obtain ⟨rfl, rfl⟩ : failure' = failure ∧ w = t := by simpa [hrest] using h
        obtain ⟨before, other, after, values, v, rfl, hbefore, hother⟩ := ih hrest
        exact ⟨e :: before, other, after, value :: values, v, rfl, .cons hfirst hbefore, hother⟩

theorem Evaluated.length_eq {limit : Nat} {s t : Store} {es : List Expr} {values : List Value}
    (h : Evaluated limit s es values t) : values.length = es.length := by
  induction h with
  | nil => rfl
  | cons _ _ ih => rw [List.length_cons, List.length_cons, ih]

/-! ## Texts -/

/-- The outcome of a text whose expressions have all been evaluated. -/
def outcome (fault? : Option ReadError) (values : List Value) (t : Store) :
    EStateM.Result Failure Store Value :=
  match fault? with
  | some fault => .error (.read fault) t
  | none => .ok (values.getLastD .null) t

/-- Evaluating a text is evaluating its leading expressions. -/
theorem evalText_eq (limit : Nat) (source : String) (s : Store) : evalText limit source s =
    match Eval.evalAll (eval limit) root (Expr.leading limit (lex source)).1 s with
    | .ok values t => outcome (Expr.leading limit (lex source)).2 values t
    | .error failure t => .error failure t := by
  rw [evalText, evalTokens_eq, Eval.evalBlock_eq, bind_assoc, Eval.bind_apply]
  cases Eval.evalAll (eval limit) root (Expr.leading limit (lex source)).1 s with
  | error failure t => rfl
  | ok values t => cases (Expr.leading limit (lex source)).2 <;> rfl

theorem lex_append_newline (source more : String) :
    lex (source ++ "\n" ++ more) = lex source ++ lex more := by
  simp only [lex, String.toList_append]
  simpa using lexChars_newline source.toList more.toList

/-- After a text that succeeds, a text on the lines below it is evaluated as if
it were given on its own; without expressions it leaves the value as it is. -/
theorem evalText_append {limit : Nat} {source : String} {s u : Store} {value : Value}
    (h : evalText limit source s = .ok value u) (more : String) :
    evalText limit (source ++ "\n" ++ more) s =
      match evalText limit more u with
      | .ok last t => .ok (if (Expr.leading limit (lex more)).1.isEmpty then value else last) t
      | .error failure t => .error failure t := by
  obtain ⟨es, values, hread, hvalues, rfl⟩ := evalText_eq_ok_iff.1 h
  rw [evalText_eq limit (source ++ "\n" ++ more), evalText_eq limit more,
    lex_append_newline, Expr.leading_append_of_ok hread, Eval.evalAll_append]
  simp only [Eval.bind_apply, hvalues]
  cases hrest : Eval.evalAll (eval limit) root (Expr.leading limit (lex more)).1 u with
  | error failure t => rfl
  | ok rest t =>
    cases (Expr.leading limit (lex more)).2 with
    | some fault => rfl
    | none =>
      have hlength := (evaluated_of_evalAll hrest).length_eq
      cases rest with
      | nil =>
        have hnil : (Expr.leading limit (lex more)).1 = [] :=
          List.eq_nil_of_length_eq_zero hlength.symm
        simp [outcome, hnil]
      | cons first rest =>
        have hcons : (Expr.leading limit (lex more)).1 ≠ [] := by
          intro hnil
          simp [hnil] at hlength
        simp [outcome, hcons, List.getLastD_eq_getLast?, List.getLast?_append, List.getLast?_cons]

/-- Evaluating a text is reading it and then evaluating what was read. The
first expression that fails decides the outcome, and the store is what it
leaves; otherwise the fault that ended the reading does; otherwise the value is
that of the last expression. Hence texts one below the other are evaluated one
after the other, and a text evaluated for its definitions has the effect of the
text. -/
theorem evalText_streams (limit : Nat) (s : Store) (source : String) :
    (∃ es fault?, TokenStream.Yields limit (.ofSource source) es fault? ∧
      (∀ es' fault?', TokenStream.Yields limit (.ofSource source) es' fault?' →
        es' = es ∧ fault?' = fault?) ∧
      ((∃ failure t, FailedAt limit s es failure t ∧
          evalText limit source s = .error failure t) ∨
        ∃ values t, Evaluated limit s es values t ∧
          evalText limit source s = outcome fault? values t)) ∧
    (∀ value u, evalText limit source s = .ok value u →
      ∀ more es fault?, TokenStream.Yields limit (.ofSource more) es fault? →
        evalText limit (source ++ "\n" ++ more) s =
          match evalText limit more u with
          | .ok last t => .ok (if es.isEmpty then value else last) t
          | .error failure t => .error failure t) ∧
    evalPrelude limit source s =
      match evalText limit source s with
      | .ok _ t => .ok () t
      | .error failure t => .error failure t := by
  refine ⟨⟨_, _, TokenStream.yields_leading limit (.ofSource source), ?_, ?_⟩, ?_, ?_⟩
  · intro es fault? hyields
    rw [hyields.eq_leading]
    exact ⟨rfl, rfl⟩
  · rw [TokenStream.remaining_ofSource, evalText_eq]
    cases hrun : Eval.evalAll (eval limit) root (Expr.leading limit (lex source)).1 s with
    | error failure t => exact .inl ⟨failure, t, failedAt_of_evalAll hrun, rfl⟩
    | ok values t => exact .inr ⟨values, t, evaluated_of_evalAll hrun, rfl⟩
  · intro value u htext more es fault? hyields
    have hleading : Expr.leading limit (lex more) = (es, fault?) := hyields.eq_leading
    rw [evalText_append htext more, hleading]
  · rw [evalPrelude_eq, Eval.bind_apply]
    cases evalText limit source s <;> rfl

/-- A definition with a comment that a line feed has to end. -/
def commented : String :=
  "(def x 41) ; ("

/-- Below the definition, a line without expressions leaves its value, and a
line with an expression and a stray parenthesis fails as it does on its own. -/
theorem evalText_streams_commented :
    ∃ value u, evalText 9 commented initial = .ok value u ∧
      evalText 9 (commented ++ "\n" ++ "; nothing") initial = .ok value u ∧
      ∃ t, evalText 9 "(+ x 1) )" u = .error (.read .unexpectedClosing) t ∧
        evalText 9 (commented ++ "\n" ++ "(+ x 1) )") initial =
          .error (.read .unexpectedClosing) t := by
  have hrun : ∃ value u t, evalText 9 commented initial = .ok value u ∧
      evalText 9 "(+ x 1) )" u = .error (.read .unexpectedClosing) t := by
    have hcheck : (match evalText 9 commented initial with
        | .ok _ u =>
          match evalText 9 "(+ x 1) )" u with
          | .error (.read .unexpectedClosing) _ => true
          | _ => false
        | .error _ _ => false) = true := by decide +kernel
    split at hcheck
    · split at hcheck
      · exact ⟨_, _, _, by assumption, by assumption⟩
      · simp at hcheck
    · simp at hcheck
  obtain ⟨value, u, t, hdefined, hstray⟩ := hrun
  have hbelow := (evalText_streams 9 initial commented).2.1 value u hdefined
  have hnothing : evalText 9 "; nothing" u = .ok .null u := by
    rw [evalText, evalTokens_of_none (by rfl)]
    rfl
  refine ⟨value, u, hdefined, ?_, t, hstray, ?_⟩
  · have hyields : TokenStream.Yields 9 (.ofSource "; nothing") [] none := .done rfl
    rw [hbelow "; nothing" [] none hyields, hnothing]
    rfl
  · rw [hbelow "(+ x 1) )" _ _ (TokenStream.yields_leading 9 _), hstray]

end Session

end PrototypeLisp
