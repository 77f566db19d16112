/-
PrototypeLisp.Proofs.Eval.Compositional — properties that evaluation inherits.

Evaluation is put together from a few operations on the store and from
failures of its own. A property of computations that these have, and that
doing one thing after the other keeps, is a property of evaluation: one lemma
for each function of the evaluator hands it on, and the induction on the
allowance closes the recursion (`Compositional.eval`).

What evaluation can fail with is such a property. In particular it never fails
as reading a text does, so a reading fault of a session comes from its text.
-/
import PrototypeLisp.Eval

namespace PrototypeLisp

/-- The failures that evaluation raises: no text and no file is read. -/
def Failure.OfEvaluation : Failure → Prop
  | .eval _ | .stackExhausted | .overflow | .fieldVanished .. | .notAnExpression _ => True
  | .read _ | .file .. | .undecodable => False

theorem Operator.ofEvaluation_of_apply {h : Heap} {operator : Operator} {arguments : List Value}
    {failure : Failure} (ha : operator.apply h arguments = .error failure) :
    failure.OfEvaluation := by
  rcases apply_error ha with rfl | ⟨error, rfl⟩
  · trivial
  · trivial

namespace Eval

/-- A property of computations that the operations on the store and the
failures of evaluation have, and that sequencing keeps. -/
structure Compositional (Q : ∀ {α : Type}, Eval α → Prop) : Prop where
  pure : ∀ {α : Type} (a : α), Q (Pure.pure a : Eval α)
  throw : ∀ {α : Type} {failure : Failure}, failure.OfEvaluation →
    Q (MonadExcept.throw failure : Eval α)
  heap : Q Eval.heap
  withHeap : ∀ {α : Type} (change : Heap → α × Heap), Q (Eval.withHeap change)
  modifyHeap : ∀ change : Heap → Heap, Q (Eval.modifyHeap change)
  note : ∀ event : Event, Q (Eval.note event)
  bind : ∀ {α β : Type} {x : Eval α} {y : α → Eval β}, Q x → (∀ a, Q (y a)) → Q (x >>= y)

namespace Compositional

variable {Q : ∀ {α : Type}, Eval α → Prop} (hq : Compositional Q) {recur : Evaluator}

include hq

theorem ofExcept {α : Type} {x : Except Failure α}
    (h : ∀ failure, x = .error failure → failure.OfEvaluation) : Q (Eval.ofExcept x) := by
  cases x with
  | ok a => exact hq.pure a
  | error failure => exact hq.throw (h failure rfl)

theorem evalAll (hr : ∀ e f, Q (recur e f)) (f : FrameId) (es : List Expr) :
    Q (Eval.evalAll recur f es) := by
  induction es with
  | nil => exact hq.pure _
  | cons e es ih => exact hq.bind (hr e f) fun value => hq.bind ih fun values => hq.pure _

theorem invoke (hr : ∀ e f, Q (recur e f)) (function : Function)
    (receiver? : Option Value) (arguments : List Value) :
    Q (Eval.invoke recur function receiver? arguments) := by
  unfold Eval.invoke
  cases function.code with
  | operator operator =>
    exact hq.bind hq.heap fun h => hq.ofExcept fun _ => Operator.ofEvaluation_of_apply
  | closure parameters body frame =>
    simp only
    split
    · exact hq.bind (hq.withHeap _) fun f => hr body f
    · exact hq.throw trivial
  | getPrototype owner =>
    match arguments with
    | [] => exact hq.bind hq.heap fun h => hq.pure _
    | _ :: _ => exact hq.throw trivial
  | setPrototype owner | setField owner field =>
    match arguments with
    | [] => exact hq.throw trivial
    | [value] => exact hq.bind (hq.modifyHeap _) fun _ => hq.pure _
    | _ :: _ :: _ => exact hq.throw trivial
  | getField owner field =>
    match arguments with
    | [] =>
      refine hq.bind hq.heap fun h => ?_
      cases h.member? owner field with
      | some value => exact hq.pure _
      | none => exact hq.throw trivial
    | _ :: _ => exact hq.throw trivial
  | isInstance owner =>
    match arguments with
    | [] => exact hq.throw trivial
    | [prototype] => exact hq.bind hq.heap fun h => hq.pure _
    | _ :: _ :: _ => exact hq.throw trivial
  | method parameters body owner =>
    simp only
    split
    · exact hq.bind hq.heap fun h => hq.bind (hq.withHeap _) fun f => hr body f
    · exact hq.throw trivial

theorem call (hr : ∀ e f, Q (recur e f)) (f : FrameId) (name : String)
    (arguments : List Expr) : Q (Eval.call recur f name arguments) := by
  refine hq.bind hq.heap fun h => ?_
  cases h.scopes.resolve? f name with
  | none => exact hq.throw trivial
  | some value =>
    cases hvalue : h.asFunction? value with
    | none => simp only [hvalue]; exact hq.throw trivial
    | some function =>
      simp only [hvalue]
      exact hq.bind (hq.evalAll hr f arguments) fun values => hq.invoke hr _ _ _

theorem lookup (receiver : ObjectId) (name : String) : Q (Eval.lookup receiver name) := by
  refine hq.bind hq.heap fun h => ?_
  cases h.holder? receiver name with
  | none => exact hq.pure _
  | some holder =>
    simp only
    split
    · exact hq.pure _
    · exact hq.bind (hq.note _) fun _ => hq.pure _

theorem send (hr : ∀ e f, Q (recur e f)) (f : FrameId) (name : String) (receiver : Expr)
    (arguments : List Expr) : Q (Eval.send recur f name receiver arguments) := by
  refine hq.bind (hr receiver f) fun target => ?_
  cases target with
  | object o =>
    refine hq.bind (hq.lookup o name) fun member? => hq.bind hq.heap fun h => ?_
    cases member? with
    | none => exact hq.throw trivial
    | some member =>
      cases hmember : h.asFunction? member with
      | none => simp only [hmember]; exact hq.throw trivial
      | some function =>
        simp only [hmember]
        exact hq.bind (hq.evalAll hr f arguments) fun values => hq.invoke hr _ _ _
  | number _ | atom _ | null | function _ => exact hq.bind hq.heap fun h => hq.throw trivial

theorem evalBlock (hr : ∀ e f, Q (recur e f)) (f : FrameId) (last : Value)
    (es : List Expr) : Q (Eval.evalBlock recur f last es) := by
  induction es generalizing last with
  | nil => exact hq.pure _
  | cons e es ih => exact hq.bind (hr e f) fun value => ih value

theorem defineMembers (hr : ∀ e f, Q (recur e f)) (f : FrameId) (o : ObjectId)
    (members : List Member) : Q (Eval.defineMembers recur f o members) := by
  induction members with
  | nil => exact hq.pure _
  | cons member members ih =>
    cases member with
    | field name value =>
      exact hq.bind (hr value f) fun v => hq.bind (hq.modifyHeap _) fun _ => ih
    | method name parameters body => exact hq.bind (hq.modifyHeap _) fun _ => ih

theorem evalForm (hr : ∀ e f, Q (recur e f)) (f : FrameId) (form : Form) :
    Q (Eval.evalForm recur f form) := by
  cases form with
  | block body => exact hq.bind (hq.withHeap _) fun inner => hq.evalBlock hr inner _ _
  | defineVariable name value | assign name value =>
    refine hq.bind hq.heap fun h => ?_
    split
    · exact hq.throw trivial
    · exact hq.bind (hr value f) fun v => hq.bind (hq.modifyHeap _) fun _ => hq.pure _
  | defineFunction name parameters body =>
    refine hq.bind hq.heap fun h => ?_
    split
    · exact hq.throw trivial
    · exact hq.bind (hq.withHeap _) fun id => hq.bind (hq.note _) fun _ => hq.pure _
  | object name members =>
    exact hq.bind (hq.withHeap _) fun o =>
      hq.bind (hq.defineMembers hr f o members) fun _ => hq.pure _
  | send name receiver arguments => exact hq.send hr f name receiver arguments
  | call name arguments => exact hq.call hr f name arguments

theorem step (hr : ∀ e f, Q (recur e f)) (e : Expr) (f : FrameId) :
    Q (Eval.step recur e f) := by
  cases e with
  | number _ | atom _ => exact hq.pure _
  | form name arguments =>
    simp only [Eval.step]
    cases Form.classify name arguments with
    | ok form => exact hq.evalForm hr f form
    | error fault => exact hq.throw trivial
  | foreign text => exact hq.throw trivial
  | _ name =>
    refine hq.bind hq.heap fun h => ?_
    cases h.scopes.resolve? f name with
    | some value => exact hq.pure _
    | none => exact hq.throw trivial

/-- Evaluation inherits the property. -/
theorem eval (limit : Nat) (e : Expr) (f : FrameId) : Q (PrototypeLisp.eval limit e f) := by
  induction limit generalizing e f with
  | zero => exact hq.throw trivial
  | succ limit ih => exact hq.step ih e f

end Compositional

/-! ## What evaluation can fail with -/

/-- Every failure of the computation is one of evaluation. -/
def FailsInEvaluation {α : Type} (x : Eval α) : Prop :=
  ∀ s failure t, x s = .error failure t → failure.OfEvaluation

theorem compositional_failsInEvaluation : Compositional FailsInEvaluation where
  pure a s failure t h := by simp at h
  throw hfailure s failure t h := by
    obtain ⟨rfl, -⟩ : _ = failure ∧ s = t := by simpa using h
    exact hfailure
  heap s failure t h := by simp [heap] at h
  withHeap change s failure t h := by simp [withHeap] at h
  modifyHeap change s failure t h := by simp [modifyHeap] at h
  note event s failure t h := by simp [note] at h
  bind {α β x y} hx hy s failure t h := by
    rw [bind_apply] at h
    cases hfirst : x s with
    | ok a u => exact hy a u failure t (by simpa [hfirst] using h)
    | error failure' u =>
      obtain ⟨rfl, -⟩ : failure' = failure ∧ u = t := by simpa [hfirst] using h
      exact hx s failure' u hfirst

end Eval

end PrototypeLisp
