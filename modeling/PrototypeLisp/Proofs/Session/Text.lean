/-
PrototypeLisp.Proofs.Session.Text — a text is evaluated as a block.

Reading and evaluating take turns when a text is evaluated, but reading does
not depend on the store. Evaluating a text is therefore evaluating its leading
expressions as a block in the root frame and then failing with the fault that
ends them, if there is one (`evalTokens_eq`). It succeeds exactly when there
is no fault and all expressions can be evaluated (`evalText_eq_ok_iff`).
-/
import PrototypeLisp.Proofs.Expr.Leading
import PrototypeLisp.Session

namespace PrototypeLisp

/-! ## Blocks and lists of values -/

namespace Eval

/-- Does the computation succeed from the store? -/
def succeeds {α : Type} (x : Eval α) (s : Store) : Bool :=
  match x s with
  | .ok _ _ => true
  | .error _ _ => false

theorem exists_of_succeeds {α : Type} {x : Eval α} {s : Store} (h : x.succeeds s = true) :
    ∃ a t, x s = .ok a t := by
  cases hx : x s with
  | ok a t => exact ⟨a, t, rfl⟩
  | error failure t => simp [succeeds, hx] at h

variable (recur : Evaluator) (f : FrameId)

/-- The value of a block is the last of the values of its expressions. -/
theorem evalBlock_eq (last : Value) (es : List Expr) : evalBlock recur f last es =
    evalAll recur f es >>= fun values => pure (values.getLastD last) := by
  induction es generalizing last with
  | nil => simp [evalBlock, evalAll]
  | cons e es ih =>
    simp only [evalBlock, evalAll, ih, bind_assoc, pure_bind, List.getLastD_cons]

theorem evalAll_append (as bs : List Expr) : evalAll recur f (as ++ bs) = (do
    let values ← evalAll recur f as
    let rest ← evalAll recur f bs
    return values ++ rest) := by
  induction as with
  | nil => simp [evalAll]
  | cons a as ih => simp [evalAll, ih]

variable {recur f}

/-- Evaluating a list that succeeds evaluates both its parts. -/
theorem evalAll_append_eq_ok {as bs : List Expr} {values : List Value} {s t : Store}
    (h : evalAll recur f (as ++ bs) s = .ok values t) :
    ∃ first rest u, evalAll recur f as s = .ok first u ∧ evalAll recur f bs u = .ok rest t := by
  rw [evalAll_append] at h
  simp only [bind_apply] at h
  cases hfirst : evalAll recur f as s with
  | error failure u => simp [hfirst] at h
  | ok first u =>
    rw [hfirst] at h
    cases hrest : evalAll recur f bs u with
    | error failure w => simp [hrest] at h
    | ok rest w =>
      obtain ⟨-, rfl⟩ : first ++ rest = values ∧ w = t := by
        simpa [hrest] using h
      exact ⟨first, rest, u, rfl, hrest⟩

end Eval

namespace Session

open Heap

theorem evalTokens_of_none {limit : Nat} {last : Value} {tokens : List Token}
    (h : Expr.read? limit tokens = none) : evalTokens limit last tokens = pure last := by
  rw [evalTokens]
  split <;> simp_all

theorem evalTokens_of_error {limit : Nat} {last : Value} {tokens rest : List Token}
    {fault : ReadError} (h : Expr.read? limit tokens = some (.error fault, rest)) :
    evalTokens limit last tokens = throw (.read fault) := by
  rw [evalTokens]
  split <;> simp_all

theorem evalTokens_of_ok {limit : Nat} {last : Value} {tokens rest : List Token} {e : Expr}
    (h : Expr.read? limit tokens = some (.ok e, rest)) :
    evalTokens limit last tokens =
      eval limit e root >>= fun value => evalTokens limit value rest := by
  rw [evalTokens]
  split <;> simp_all [evaluate]

/-- What is left to do when the expressions of a text have been evaluated. -/
def finish (fault? : Option ReadError) (value : Value) : Eval Value :=
  match fault? with
  | none => pure value
  | some fault => throw (.read fault)

/-- Evaluating a text is evaluating its expressions as a block, and then
failing with the first fault of the text. -/
theorem evalTokens_eq (limit : Nat) (last : Value) (tokens : List Token) :
    evalTokens limit last tokens =
      Eval.evalBlock (eval limit) root last (Expr.leading limit tokens).1 >>=
        finish (Expr.leading limit tokens).2 := by
  induction tokens using Expr.leading_induction limit generalizing last with
  | none tokens h => rw [evalTokens_of_none h, Expr.leading_of_none h]; rfl
  | error tokens fault rest h => rw [evalTokens_of_error h, Expr.leading_of_error h]; rfl
  | ok tokens e rest h ih =>
    rw [evalTokens_of_ok h, Expr.leading_of_ok h]
    simp only [Eval.evalBlock, bind_assoc]
    congr 1
    funext value
    exact ih value

/-- Evaluating tokens for their effects is evaluating them and forgetting the
value. -/
theorem performTokens_eq (limit : Nat) (last : Value) (tokens : List Token) :
    performTokens limit tokens = evalTokens limit last tokens >>= fun _ => pure () := by
  induction tokens using Expr.leading_induction limit generalizing last with
  | none tokens h =>
    rw [evalTokens_of_none h, performTokens]
    split <;> simp_all
  | error tokens fault rest h =>
    have hstop : performTokens limit tokens = throw (.read fault) := by
      rw [performTokens]
      split <;> simp_all
    rw [hstop, evalTokens_of_error h]
    rfl
  | ok tokens e rest h ih =>
    have hnext : performTokens limit tokens =
        eval limit e root >>= fun _ => performTokens limit rest := by
      rw [performTokens]
      split <;> simp_all [evaluate]
    rw [hnext, evalTokens_of_ok h, bind_assoc]
    congr 1
    funext value
    exact ih value

theorem evalPrelude_eq (limit : Nat) (source : String) :
    evalPrelude limit source = evalText limit source >>= fun _ => pure () :=
  performTokens_eq limit .null (lex source)

/-- A text is evaluated with success exactly when it can be read to its end
and its expressions can be evaluated. -/
theorem evalText_eq_ok_iff {limit : Nat} {source : String} {s t : Store}
    {value : Value} : evalText limit source s = .ok value t ↔
      ∃ es values, Expr.leading limit (lex source) = (es, none) ∧
        Eval.evalAll (eval limit) root es s = .ok values t ∧ value = values.getLastD .null := by
  rw [evalText, evalTokens_eq, Eval.evalBlock_eq]
  cases hleading : Expr.leading limit (lex source) with
  | mk es fault? =>
    simp only [Eval.bind_apply]
    cases hrun : Eval.evalAll (eval limit) root es s with
    | error failure u => simp [hrun]
    | ok values u =>
      cases fault? with
      | none =>
        simp only [finish, Eval.pure_apply, EStateM.Result.ok.injEq, Prod.mk.injEq, and_true]
        constructor
        · rintro ⟨rfl, rfl⟩
          exact ⟨es, values, rfl, hrun, rfl⟩
        · rintro ⟨es', values', rfl, hrun', rfl⟩
          obtain ⟨rfl, rfl⟩ : values = values' ∧ u = t := by simpa [hrun] using hrun'
          exact ⟨rfl, rfl⟩
      | some fault => simp [finish]

end Session

end PrototypeLisp
