/-
PrototypeLisp.Proofs.Eval.Exhaustion — what the limit on nesting can do.

The limit shows in one way only: an evaluation that needs more levels ends
with an exhausted stack. Under any larger limit an evaluation that was not cut
short ends as before, in the same value or failure and in the same store.

Nor does an exhausted stack ever go unnoticed. `Evaluation.Asks` lists the
evaluations that one level of evaluation begins: subexpressions, arguments,
values of fields, and bodies of functions and methods. If any of them, at any
depth, exhausts the stack, then so does the whole, and the store is left as it
was at that moment.
-/
import Mathlib.Logic.Relation
import PrototypeLisp.Proofs.Eval.Coupling

namespace PrototypeLisp

/-- An outcome that was cut short by the limit. -/
def Exhausted {α : Type} (r : EStateM.Result Failure Store α) : Prop :=
  ∃ t, r = .error .stackExhausted t

/-! ## Larger limits -/

namespace Coupling

/-- Two runs on one heap, of which the first may exhaust its stack. -/
def cut : Coupling where
  resembles := Eq
  names _ := True
  region := .whole
  bodies _ := True
  shared _ := True
  excused failure := failure = .stackExhausted

theorem lawful_cut : cut.Lawful where
  indistinct := indistinct_eq _
  shared _ _ _ := trivial

theorem stores_cut (s : Store) : cut.Stores s s where
  heaps := ⟨rfl, Region.closed_whole fun _ _ _ _ _ => trivial⟩
  events := rfl

theorem Stores.eq_of_cut {s s' : Store} (hs : cut.Stores s s') : s' = s := by
  obtain ⟨heap, events⟩ := s
  obtain ⟨heap', events'⟩ := s'
  obtain rfl : heap = heap' := hs.heaps.resembles
  obtain rfl : events' = events := hs.events
  rfl

/-- The second run does as the first one, unless that one was cut short. -/
theorem coupled_cut_iff {x x' : Eval Value} : cut.Coupled x x' cut.region.Has ↔
    ∀ s, ¬ Exhausted (x s) → x' s = x s := by
  constructor
  · intro hx s hs
    have halike := hx s s (stores_cut s)
    generalize x s = first, x' s = second at hs halike
    cases halike with
    | value ht _ => rw [ht.eq_of_cut]
    | failure ht _ => rw [ht.eq_of_cut]
    | excused hf =>
      obtain rfl : _ = Failure.stackExhausted := hf
      exact absurd ⟨_, rfl⟩ hs
  · intro hx s s' hs
    rw [hs.eq_of_cut]
    by_cases hcut : Exhausted (x s)
    · obtain ⟨t, ht⟩ := hcut
      rw [ht]
      exact .excused rfl
    · rw [hx s hcut]
      cases x s with
      | ok a t => exact .value (stores_cut t) (Region.has_whole a)
      | error failure t => exact .failure (stores_cut t) trivial

end Coupling

/-- Evaluators that agree on every nested evaluation that the first one can
finish agree on every evaluation that the first one can finish. -/
theorem step_eq_of_nested {recur recur' : Evaluator}
    (hr : ∀ e f s, ¬ Exhausted (recur e f s) → recur' e f s = recur e f s) (e : Expr)
    (f : FrameId) (s : Store) (hs : ¬ Exhausted (Eval.step recur e f s)) :
    Eval.step recur' e f s = Eval.step recur e f s := by
  have hcoupled : Coupling.cut.Evaluators (fun _ => True) recur recur' :=
    fun e f _ _ => Coupling.coupled_cut_iff.2 (hr e f)
  refine Coupling.coupled_cut_iff.1 (Coupling.lawful_cut.step hcoupled (fun _ _ => trivial)
    (f := f) trivial ?_ ?_) s hs
  · exact fun _ _ => trivial
  · intro name arguments form _ hform
    have hwithin : form.Within fun _ => True :=
      Form.within_classify (fun _ _ _ _ _ => trivial) (fun _ _ => trivial) hform
    exact ⟨hwithin, (Form.asks_classify hform).imp fun _ _ => trivial,
      Form.keeps_of_within hwithin⟩

/-- What is not cut short under one limit goes the same way under a larger
one. -/
theorem eval_eq_of_le {limit limit' : Nat} (hle : limit ≤ limit') (e : Expr) (f : FrameId)
    (s : Store) (hs : ¬ Exhausted (eval limit e f s)) :
    eval limit' e f s = eval limit e f s := by
  induction limit generalizing limit' e f s with
  | zero => exact absurd ⟨s, rfl⟩ hs
  | succ limit ih =>
    obtain ⟨more, rfl⟩ := Nat.exists_eq_add_of_le' hle
    exact step_eq_of_nested (fun e f s => ih (Nat.le_add_left limit more) e f s) e f s hs

/-! ## Nested evaluations -/

/-- The evaluator that lists where the nested evaluations begin and end, and
nothing of what happens inside them. -/
def marking (recur : Evaluator) : Watcher :=
  fun e f => .between (.begun e f) (.ended e f) (.lift (recur e f))

/-- Whatever begins and exhausts the stack is the end of the computation. -/
def Propagates {α : Type} (recur : Evaluator) (x : Watched α) : Prop :=
  ∀ s e g u t, .begun e g u ∈ (x s).1 → recur e g u = .error .stackExhausted t →
    (x s).2 = .error .stackExhausted t

namespace Propagates

variable {α β : Type} {recur : Evaluator} {f : FrameId}

theorem lift (x : Eval α) : Propagates recur (.lift x) := by
  intro s e g u t hm
  simp [Watched.lift] at hm

theorem pure (a : α) : Propagates recur (Pure.pure a : Watched α) :=
  lift (Pure.pure a)

/-- Nothing begins at a moment of another kind. -/
theorem mark {moment : Store → Moment} (hmoment : ∀ s e g u, moment s ≠ .begun e g u) :
    Propagates recur (.mark moment) := by
  intro s e g u t hm
  exact absurd (List.mem_singleton.1 hm).symm (hmoment s e g u)

/-- A failure of the first computation is one of both, and what begins in the
second one is its end. -/
theorem bind {x : Watched α} {y : α → Watched β} (hx : Propagates recur x)
    (hy : ∀ a, Propagates recur (y a)) : Propagates recur (x >>= y) := by
  intro s e g u t hm hexhausted
  have hfirst := hx s e g u t
  simp only [Bind.bind] at hm ⊢
  cases hxs : x s with
  | mk ms result =>
    rw [hxs] at hm hfirst
    cases result with
    | error failure v =>
      obtain ⟨rfl, rfl⟩ : failure = .stackExhausted ∧ v = t := by
        simpa using hfirst hm hexhausted
      rfl
    | ok a v =>
      rcases List.mem_append.1 hm with hm | hm
      · exact absurd (hfirst hm hexhausted) (by simp)
      · exact hy a v e g u t hm hexhausted

theorem inside {outer : FrameId} {bindings : Bindings Value} {body : FrameId → Watched Value}
    (hbody : ∀ f, Propagates recur (body f)) :
    Propagates recur (.inside outer bindings body) := by
  refine bind (lift _) fun f s e g u t hm hexhausted => ?_
  refine hbody f s e g u t ?_ hexhausted
  simpa [Watched.between] using hm

/-- The nested evaluation itself. -/
theorem marking (e : Expr) (f : FrameId) : Propagates recur (marking recur e f) := by
  intro s e' g u t hm hexhausted
  obtain ⟨rfl, rfl, rfl⟩ : e' = e ∧ g = f ∧ u = s := by
    simpa [PrototypeLisp.marking, Watched.between, Watched.lift] using hm
  exact hexhausted

/-! ### The evaluator -/

theorem evalAll (es : List Expr) :
    Propagates recur (Watched.evalAll (PrototypeLisp.marking recur) f es) := by
  induction es with
  | nil => exact pure _
  | cons e es ih => exact bind (marking e f) fun value => bind ih fun values => pure _

theorem invoke (function : Function) (receiver? : Option Value) (arguments : List Value) :
    Propagates recur
      (Watched.invoke (PrototypeLisp.marking recur) function receiver? arguments) := by
  unfold Watched.invoke
  cases function.code with
  | operator operator => exact bind (mark (by simp)) fun _ => bind (lift _) fun h => lift _
  | closure parameters body frame =>
    simp only
    split
    · exact inside (marking body)
    · exact lift _
  | method parameters body owner =>
    simp only
    split
    · exact bind (lift _) fun h => inside (marking body)
    · exact lift _
  | getPrototype _ | setPrototype _ | getField _ _ | setField _ _ | isInstance _ => exact lift _

theorem call (name : String) (arguments : List Expr) :
    Propagates recur (Watched.call (PrototypeLisp.marking recur) f name arguments) := by
  refine bind (lift _) fun h => ?_
  cases h.scopes.resolve? f name with
  | none => exact lift _
  | some value =>
    cases hvalue : h.asFunction? value with
    | none => simp only [hvalue]; exact lift _
    | some function =>
      simp only [hvalue]
      exact bind (evalAll arguments) fun values => invoke function none values

theorem send (name : String) (receiver : Expr) (arguments : List Expr) :
    Propagates recur (Watched.send (PrototypeLisp.marking recur) f name receiver arguments) := by
  refine bind (marking receiver f) fun target => ?_
  cases target with
  | object o =>
    refine bind (lift _) fun member? => bind (lift _) fun h => ?_
    cases member? with
    | none => exact lift _
    | some member =>
      cases hmember : h.asFunction? member with
      | none => simp only [hmember]; exact lift _
      | some function =>
        simp only [hmember]
        exact bind (evalAll arguments) fun values => invoke function _ values
  | number _ | atom _ | null | function _ => exact bind (lift _) fun h => lift _

theorem evalBlock (last : Value) (es : List Expr) :
    Propagates recur (Watched.evalBlock (PrototypeLisp.marking recur) f last es) := by
  induction es generalizing last with
  | nil => exact pure _
  | cons e es ih => exact bind (marking e f) fun value => ih value

theorem defineMembers (o : ObjectId) (members : List Member) :
    Propagates recur (Watched.defineMembers (PrototypeLisp.marking recur) f o members) := by
  induction members with
  | nil => exact pure _
  | cons member members ih =>
    cases member with
    | field name value =>
      refine bind (marking value f) fun v => bind ?_ fun _ => ih
      exact bind (lift _) fun _ => mark (by simp)
    | method name parameters body => exact bind (lift _) fun _ => ih

theorem evalForm (form : Form) :
    Propagates recur (Watched.evalForm (PrototypeLisp.marking recur) f form) := by
  cases form with
  | block body => exact inside fun inner => evalBlock .null body
  | defineVariable name value =>
    refine bind (lift _) fun h => ?_
    split
    · exact lift _
    · exact bind (marking value f) fun v => bind (lift _) fun _ => pure _
  | defineFunction name parameters body => exact lift _
  | assign name value =>
    refine bind (lift _) fun h => ?_
    split
    · exact lift _
    · exact bind (marking value f) fun v => bind (lift _) fun _ => pure _
  | object name members =>
    exact bind (lift _) fun o => bind (defineMembers o members) fun _ => pure _
  | send name receiver arguments => exact send name receiver arguments
  | call name arguments => exact call name arguments

theorem step (e : Expr) : Propagates recur (Watched.step (PrototypeLisp.marking recur) e f) := by
  cases e with
  | form name arguments =>
    simp only [Watched.step]
    cases Form.classify name arguments with
    | ok form => exact evalForm form
    | error fault => exact lift _
  | number _ | atom _ | foreign _ => exact lift _
  | _ name => exact lift _

end Propagates

/-- One evaluation: of what, in which frame, from which store and under which
limit. -/
structure Evaluation where
  limit : Nat
  expr : Expr
  frame : FrameId
  store : Store

namespace Evaluation

/-- What an evaluation ends in. -/
def outcome (x : Evaluation) : EStateM.Result Failure Store Value :=
  eval x.limit x.expr x.frame x.store

/-- The second evaluation is begun by the first one, one level below it. -/
inductive Asks : Evaluation → Evaluation → Prop where
  | below {limit : Nat} {e e' : Expr} {f g : FrameId} {s u : Store}
      (h : .begun e' g u ∈ (Watched.step (marking (eval limit)) e f s).1) :
      Asks ⟨limit + 1, e, f, s⟩ ⟨limit, e', g, u⟩

/-- An exhausted stack one level below ends the evaluation. -/
theorem Asks.exhausts {x y : Evaluation} (h : Asks x y) {t : Store}
    (hy : y.outcome = .error .stackExhausted t) : x.outcome = .error .stackExhausted t := by
  cases h with
  | @below limit e e' f g s u hm =>
    have herase := Watched.erase_step (marking (eval limit)) e f
    have hsame : Watched.eraser (marking (eval limit)) = eval limit := rfl
    rw [hsame] at herase
    have hstep := Propagates.step e s e' g u t hm hy
    show Eval.step (eval limit) e f s = _
    rw [← herase]
    exact hstep

end Evaluation

/-- The limit can only replace an outcome by an exhausted stack: an evaluation
that ends in anything else ends in the same way, and in the same store, under
every larger limit. And no form hides an exhausted stack: when an evaluation
nested at any depth exhausts the stack, the whole ends there and then. -/
theorem limit_only_exhausts {limit limit' : Nat} (hle : limit ≤ limit') (e : Expr)
    (f : FrameId) (s : Store) :
    (¬ Exhausted (eval limit e f s) → eval limit' e f s = eval limit e f s) ∧
    ∀ y t, Relation.TransGen Evaluation.Asks ⟨limit, e, f, s⟩ y →
      y.outcome = .error .stackExhausted t →
      eval limit e f s = .error .stackExhausted t := by
  refine ⟨eval_eq_of_le hle e f s, fun y t hnested hy => ?_⟩
  have hall : ∀ x, Relation.TransGen Evaluation.Asks x y →
      x.outcome = .error .stackExhausted t := by
    intro x hx
    induction hx using Relation.TransGen.head_induction_on with
    | single hasks => exact hasks.exhausts hy
    | head hasks _ ih => exact hasks.exhausts ih
  exact hall _ hnested

/-- `(do (def x (do :deep)))` -/
def nestedBlocks : Expr :=
  .form "do" [.form "def" [.variable "x", .form "do" [.atom "deep"]]]

/-- Four levels are enough for a block in a definition in a block, and more
make no difference; under a limit of three the stack is exhausted inside the
inner block, and that ends the whole. -/
theorem limit_only_exhausts_nested :
    ¬ Exhausted (eval 4 nestedBlocks Heap.root Session.initial) ∧
    eval 9 nestedBlocks Heap.root Session.initial =
      eval 4 nestedBlocks Heap.root Session.initial ∧
    ∃ y t, Relation.TransGen Evaluation.Asks ⟨3, nestedBlocks, Heap.root, Session.initial⟩ y ∧
      y.expr = .atom "deep" ∧ y.outcome = .error .stackExhausted t ∧
      eval 3 nestedBlocks Heap.root Session.initial = .error .stackExhausted t := by
  have hdone : ¬ Exhausted (eval 4 nestedBlocks Heap.root Session.initial) := by
    rintro ⟨t, ht⟩
    cases ht
  obtain ⟨u, hnested⟩ : ∃ u, Relation.TransGen Evaluation.Asks
      ⟨3, nestedBlocks, Heap.root, Session.initial⟩ ⟨0, .atom "deep", 3, u⟩ :=
    ⟨_, .head (.below (.tail _ (.head _))) (.head (.below (.head _))
      (.single (.below (.tail _ (.head _)))))⟩
  exact ⟨hdone, (limit_only_exhausts (by decide) _ _ _).1 hdone, _, _, hnested, rfl, rfl,
    (limit_only_exhausts (Nat.le_refl 3) _ _ _).2 _ _ hnested rfl⟩

end PrototypeLisp
