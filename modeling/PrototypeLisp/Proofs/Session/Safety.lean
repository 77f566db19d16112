/-
PrototypeLisp.Proofs.Session.Safety — what sessions on texts can fail with.

A session evaluates any texts one after the other. Its heap only grows, so a
name that has a meaning in a frame keeps having one (`Calls.grows`). The code
on its heap comes from the reader and is proper, and the field of every
accessor stays bound, so no evaluation meets a foreign piece or a missing
field. `Cause` lists what is left: an error in the text, an error of the
language, nesting too deep, and numbers outside the exponent range, written in
the text or formed by an operator.

The list is complete up to memory. As `Decimal.Basic` explains, the precision of
the exact context and the memory of the host are not modelled, so that running
out of either is not among the causes.
-/
import PrototypeLisp.Proofs.Operator.Overflow
import PrototypeLisp.Proofs.Session.Run
import PrototypeLisp.Proofs.Session.Text

namespace PrototypeLisp

open Heap

/-- Every evaluation error has a kind of its own below the general one. -/
theorem EvalError.ancestors_kind (error : EvalError) :
    error.kind.ancestors = [error.kind, .evaluate, .language] := by
  cases error with
  | form fault => cases fault <;> rfl
  | _ => rfl

namespace Session

/-! ## Causes of failures -/

/-- The moments that evaluating a text passes. -/
def moments (limit : Nat) (source : String) (s : Store) : List Moment :=
  (Watched.evalBlock (watch limit) root .null (Expr.leading limit (lex source)).1 s).1

/-- Why evaluating a text failed after the moments `ms`. -/
inductive Cause (source : String) (ms : List Moment) : Failure → Prop where
  /-- The text cannot be read. -/
  | parse {error : ReadError} (h : (Failure.read error).kind? = some .parse) :
      Cause source ms (.read error)
  /-- An error of the language. -/
  | evaluate {error : EvalError}
      (h : error.kind.ancestors = [error.kind, .evaluate, .language]) :
      Cause source ms (.eval error)
  /-- The forms of the text are nested too deep. -/
  | nested : Cause source ms (.read .tooDeep)
  /-- Evaluation is nested too deep. -/
  | stack : Cause source ms .stackExhausted
  /-- A word of the text spells a number outside the exponent range. -/
  | literal {text : String} (hword : .word text ∈ lex source)
      (h : Expr.OutOfRange text.toList) : Cause source ms (.read .numberOutOfRange)
  /-- An operator has formed a number above the exponent range. -/
  | overflow {operator : Operator} {values : List Decimal} {u : Store} {d : Decimal}
      (hm : .applied operator (values.map .number) u ∈ ms) (hforms : operator.Forms values d)
      (h : d.Above) (hrange : ¬ d.InRange) : Cause source ms .overflow

/-- A failure of proper code has a cause. -/
theorem Cause.of_explained {source : String} {ms : List Moment} {failure : Failure}
    (h : Explained Expr.Proper ms failure) : Cause source ms failure := by
  cases h with
  | eval error => exact .evaluate error.ancestors_kind
  | stack => exact .stack
  | overflow hm ho =>
    obtain ⟨values, d, rfl, hforms, habove⟩ := Operator.forms_of_apply ho
    exact .overflow hm hforms habove habove.not_inRange
  | foreign hc => exact absurd hc (Expr.not_proper_foreign _)

/-- A fault that ends the reading has a cause. -/
theorem Cause.of_fault {limit : Nat} {source : String} {ms : List Moment} {fault : ReadError}
    (h : (Expr.leading limit (lex source)).2 = some fault) : Cause source ms (.read fault) := by
  cases fault with
  | numberOutOfRange =>
    obtain ⟨text, htext, hrange⟩ := Expr.outOfRange_of_leading h
    exact .literal htext hrange
  | tooDeep => exact .nested
  | _ => exact .parse rfl

/-! ## Evaluating a text -/

/-- The block of a text meets its course. -/
theorem meets_text {s : Store} (hs : Ready Expr.Proper root 0 s.heap) (limit : Nat)
    (source : String) :
    Meets Expr.Proper root 0 s
      (Watched.evalBlock (watch limit) root .null (Expr.leading limit (lex source)).1)
      fun v h => h.Allocated v := by
  have hnull : s.heap.Allocated .null := trivial
  exact meets_evalBlock (sound_watch Expr.partsClosed_proper limit) hs hnull
    (Expr.proper_leading limit (lex source))

theorem erase_text (limit : Nat) (es : List Expr) :
    (Watched.evalBlock (watch limit) root .null es).erase =
      Eval.evalBlock (eval limit) root .null es := by
  have herase : Watched.eraser (watch limit) = eval limit := by
    funext e f
    exact erase_watch limit e f
  rw [Watched.erase_evalBlock, herase]

/-- Nothing happens to the store after the block of a text. -/
theorem after_evalText (limit : Nat) (source : String) (s : Store) :
    (evalText limit source).after s =
      (Watched.evalBlock (watch limit) root .null
        (Expr.leading limit (lex source)).1).erase.after s := by
  rw [evalText, evalTokens_eq, erase_text]
  simp only [Eval.after, Eval.bind_apply]
  cases Eval.evalBlock (eval limit) root .null (Expr.leading limit (lex source)).1 s with
  | error failure t => rfl
  | ok value t => cases (Expr.leading limit (lex source)).2 <;> rfl

theorem after_evalPrelude (limit : Nat) (source : String) (s : Store) :
    (evalPrelude limit source).after s = (evalText limit source).after s := by
  simp only [evalPrelude_eq, Eval.after, Eval.bind_apply]
  cases evalText limit source s <;> rfl

theorem evalPrelude_eq_error {limit : Nat} {source : String} {s t : Store} {failure : Failure}
    (h : evalPrelude limit source s = .error failure t) :
    evalText limit source s = .error failure t := by
  simp only [evalPrelude_eq, Eval.bind_apply] at h
  cases hrun : evalText limit source s with
  | ok value u => simp [hrun] at h
  | error failure' u => simpa [hrun] using h

/-- Every failure of a text has a cause. -/
theorem cause_of_evalText {s t : Store} (hs : Ready Expr.Proper root 0 s.heap) {limit : Nat}
    {source : String} {failure : Failure} (h : evalText limit source s = .error failure t) :
    Cause source (moments limit source s) failure := by
  have hmeets := meets_text hs limit source
  have hrun := erase_text limit (Expr.leading limit (lex source)).1
  rw [evalText, evalTokens_eq, ← hrun] at h
  simp only [Eval.bind_apply, Watched.erase] at h
  cases hblock : (Watched.evalBlock (watch limit) root .null
      (Expr.leading limit (lex source)).1 s).2 with
  | error failure' u =>
    obtain ⟨rfl, -⟩ : failure' = failure ∧ u = t := by simpa [hblock] using h
    exact .of_explained (hmeets.failure _ _ hblock)
  | ok value u =>
    rw [hblock] at h
    cases hfault : (Expr.leading limit (lex source)).2 with
    | none => simp [hfault, finish] at h
    | some fault =>
      obtain ⟨rfl, -⟩ : Failure.read fault = failure ∧ u = t := by
        simpa [hfault, finish] using h
      exact .of_fault hfault

/-! ## Sessions on texts -/

/-- One call of a session: a text is evaluated, for its value or for its
definitions only. -/
inductive Call : Store → Store → Prop where
  | text (limit : Nat) (source : String) (s : Store) : Call s ((evalText limit source).after s)
  | prelude (limit : Nat) (source : String) (s : Store) :
      Call s ((evalPrelude limit source).after s)

/-- Any number of calls, whatever each of them ends in. -/
def Calls : Store → Store → Prop :=
  Relation.ReflTransGen Call

theorem Call.evolves {s t : Store} (hs : Ready Expr.Proper root 0 s.heap) (h : Call s t) :
    Evolves Expr.Proper (Realm.of root s.heap.scopes.size 0) s.heap t.heap := by
  cases h with
  | text limit source =>
    rw [after_evalText]
    exact (meets_text hs limit source).course.reaches.evolves
  | prelude limit source =>
    rw [after_evalPrelude, after_evalText]
    exact (meets_text hs limit source).course.reaches.evolves

namespace Calls

variable {s t : Store}

/-- Calls keep a heap ready. -/
theorem ready (hs : Ready Expr.Proper root 0 s.heap) (h : Calls s t) :
    Ready Expr.Proper root 0 t.heap := by
  induction h with
  | refl => exact hs
  | tail _ hcall ih => exact ih.evolves (hcall.evolves ih)

/-- Calls only grow a heap. -/
theorem grows (hs : Ready Expr.Proper root 0 s.heap) (h : Calls s t) : s.heap.Grows t.heap := by
  induction h with
  | refl => exact Grows.refl _
  | tail hcalls hcall ih => exact ih.trans (hcall.evolves (ready hs hcalls)).grows

end Calls

/-- In every session on texts names never vanish, and every failure has a
cause; in particular no field is ever missing and no foreign piece is ever
met. Memory and the number of digits are not limited here. -/
theorem calls_safe {s : Store} (h : Calls initial s) :
    (∀ t, Calls s t → ∀ f, f < s.heap.scopes.size →
      (s.heap.scopes.bindings f).names <+: (t.heap.scopes.bindings f).names ∧
      ∀ name, (s.heap.scopes.resolve? f name).isSome = true →
        (t.heap.scopes.resolve? f name).isSome = true) ∧
    ∀ limit source failure t, evalText limit source s = .error failure t ∨
        evalPrelude limit source s = .error failure t →
      Cause source (moments limit source s) failure ∧
        (∀ field object, failure ≠ .fieldVanished field object) ∧
        ∀ text, failure ≠ .notAnExpression text := by
  have hs := h.ready (ready_initial Expr.Proper)
  refine ⟨fun t ht f hf => ?_, fun limit source failure t hfail => ?_⟩
  · have hgrow := ht.grows hs
    exact ⟨hgrow.names f, fun name hname => hgrow.resolve?_isSome hf hname⟩
  · have htext : evalText limit source s = .error failure t :=
      hfail.elim id evalPrelude_eq_error
    have hcause := cause_of_evalText hs htext
    refine ⟨hcause, ?_, ?_⟩
    · rintro field object rfl
      cases hcause
    · rintro text rfl
      cases hcause

/-- A text that multiplies the largest power of ten by ten overflows after its
definition has taken effect, and the name defined keeps its meaning. -/
theorem calls_safe_overflow :
    let source := "(def big 1e999999999999999999) (* big 10)"
    let t := (evalText 9 source).after initial
    (∃ t, evalText 9 source initial = .error .overflow t) ∧
      Cause source (moments 9 source initial) .overflow ∧
      Calls initial t ∧ (t.heap.scopes.resolve? root "big").isSome = true ∧
      ∀ u, Calls t u → (u.heap.scopes.resolve? root "big").isSome = true := by
  intro source t
  have hrun : ∃ t, evalText 9 source initial = .error .overflow t := by
    have hcheck : (match evalText 9 source initial with
        | .error .overflow _ => true
        | _ => false) = true := by decide +kernel
    split at hcheck
    · exact ⟨_, by assumption⟩
    · simp at hcheck
  have hcalls : Calls initial t := Relation.ReflTransGen.single (.text 9 source initial)
  have hbig : (t.heap.scopes.resolve? root "big").isSome = true := by decide +kernel
  have hroot : root < t.heap.scopes.size := by decide +kernel
  obtain ⟨u, hu⟩ := hrun
  have hcause := (calls_safe Relation.ReflTransGen.refl).2 9 source .overflow u (.inl hu)
  exact ⟨⟨u, hu⟩, hcause.1, hcalls, hbig,
    fun u hu => ((calls_safe hcalls).1 u hu root hroot).2 "big" hbig⟩

end Session

end PrototypeLisp
