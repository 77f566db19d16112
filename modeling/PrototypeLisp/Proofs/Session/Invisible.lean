/-
PrototypeLisp.Proofs.Session.Invisible — definitions that nothing mentions.

A name is looked up only where a program spells it. So a number that is
defined under a name which the expressions after it never spell makes no
difference to them: they end in the same values and the same failures, make
the same functions and objects, and leave the same session behind, apart from
the definition itself.

The two sessions are coupled by one extra name in the root frame. Functions
that are made on the way have bodies that do not spell the name either, so the
coupling goes through every call.
-/
import PrototypeLisp.Proofs.Heap.Extra
import PrototypeLisp.Proofs.Session.Run

namespace PrototypeLisp

open Heap

/-! ## Two evaluations, one with an extra name -/

namespace Coupling

/-- Two runs of which the second has one more name in its root frame. -/
def extra (n : String) (v : Value) : Coupling where
  resembles := Extra n v
  names := (· ≠ n)
  region := .whole
  bodies e := n ∉ e.names
  shared _ := True
  excused _ := False

theorem lawful_extra (n : String) (v : Value) : (extra n v).Lawful where
  indistinct := indistinct_extra n v
  shared _ _ _ := trivial

/-- Evaluating what does not spell the extra name. -/
theorem evaluators_extra (n : String) (v : Value) (limit : Nat) :
    (extra n v).Evaluators (fun e => n ∉ e.names) (eval limit) (eval limit) := by
  induction limit with
  | zero => exact fun _ _ _ _ => .throw trivial
  | succ limit ih =>
    intro e f he hf
    refine (lawful_extra n v).step ih (fun _ hbody => hbody) hf ?_ ?_
    · rintro name rfl rfl
      exact he (by simp [Expr.names])
    · rintro name arguments form rfl hform
      have hclosed := Expr.partsClosed_not_mem_names n
      have hwithin := Form.within_classify hclosed (hclosed name arguments he) hform
      refine ⟨hwithin, (Form.asks_classify hform).imp ?_, Form.keeps_of_within hwithin⟩
      rintro asked hasked rfl
      exact he hasked

end Coupling

/-! ## Whole sessions -/

/-- A store whose root frame does not have the name. -/
def Store.without (s : Store) (name : String) : Store :=
  { s with heap := s.heap.without name }

theorem Coupling.Stores.without_eq {n : String} {v : Value} {s s' : Store}
    (hs : (Coupling.extra n v).Stores s s') : s'.without n = s := by
  obtain ⟨heap, events⟩ := s
  obtain ⟨heap', events'⟩ := s'
  obtain rfl : events' = events := hs.events
  obtain rfl : heap'.without n = heap := hs.heaps.resembles.without
  rfl

/-- What a computation ends in. -/
def Eval.outcome {α : Type} (x : Eval α) (s : Store) : Except Failure α :=
  match x s with
  | .ok a _ => .ok a
  | .error failure _ => .error failure

namespace Session

/-- Evaluate expressions one after the other in the root frame, and list what
they end in. A failure ends its own expression only. -/
def evaluateEach (limit : Nat) : List Expr → Store → List (Except Failure Value) × Store
  | [], s => ([], s)
  | e :: es, s =>
    let (outcomes, last) := evaluateEach limit es ((evaluate limit e).after s)
    ((evaluate limit e).outcome s :: outcomes, last)

/-- One expression after the other, from stores that differ in the extra
name. -/
theorem evaluateEach_extra {n : String} {v : Value} {s s' : Store}
    (hs : (Coupling.extra n v).Stores s s') (limit : Nat) {es : List Expr}
    (hes : ∀ e ∈ es, n ∉ e.names) :
    (evaluateEach limit es s').1 = (evaluateEach limit es s).1 ∧
      (Coupling.extra n v).Stores (evaluateEach limit es s).2 (evaluateEach limit es s').2 := by
  induction es generalizing s s' with
  | nil => exact ⟨rfl, hs⟩
  | cons e es ih =>
    obtain ⟨he, hes⟩ := List.forall_mem_cons.1 hes
    have halike := Coupling.evaluators_extra n v limit e root he trivial s s' hs
    simp only [evaluateEach, evaluate, Eval.outcome, Eval.after]
    generalize eval limit e root s = first, eval limit e root s' = second at halike
    cases halike with
    | value ht _ => exact ⟨congrArg (List.cons _) (ih ht hes).1, (ih ht hes).2⟩
    | failure ht _ => exact ⟨congrArg (List.cons _) (ih ht hes).1, (ih ht hes).2⟩
    | excused hf => exact hf.elim

/-- A number can be defined under a name that the root frame does not have. -/
theorem evaluate_define {limit : Nat} (hlimit : 2 ≤ limit) {n : String} (v : Decimal) {s : Store}
    (hn : s.heap.scopes.contains root n = false) :
    evaluate limit (.form "def" [.variable n, .number v]) s =
      .ok (.number v) { s with heap := s.heap.define root n (.number v) } := by
  obtain ⟨more, rfl⟩ := Nat.exists_eq_add_of_le' hlimit
  show (Eval.heap >>= fun h => if h.scopes.contains root n then _ else _ : Eval Value) s = _
  rw [Eval.bind_apply]
  simp only [Eval.heap, hn]
  rfl

/-- A new session, next to one with an extra name. -/
theorem stores_extra_initial {n : String} (hn : initial.heap.scopes.contains root n = false)
    (v : Value) : (Coupling.extra n v).Stores initial
      { initial with heap := initial.heap.define root n v } where
  heaps := by
    refine ⟨extra_define wellFormed_initial.root hn v, Region.closed_whole ?_⟩
    intro id function body hid hbody
    simp [body?_initial id function hid] at hbody
  events := rfl

/-- A number defined under a name that is not bound in a new session and that
the expressions after the definition never spell cannot be noticed: one by one
they end in the same value or failure as without the definition, and the two
sessions end in the same store but for that one binding. -/
theorem definition_invisible {n : String}
    (hn : initial.heap.scopes.contains root n = false) (v : Decimal) {es : List Expr}
    (hes : ∀ e ∈ es, n ∉ e.names) {limit : Nat} (hlimit : 2 ≤ limit) :
    ∃ s, evaluate limit (.form "def" [.variable n, .number v]) initial = .ok (.number v) s ∧
      (evaluateEach limit es s).1 = (evaluateEach limit es initial).1 ∧
      (evaluateEach limit es s).2.without n = (evaluateEach limit es initial).2 ∧
      (evaluateEach limit es s).2.heap.scopes.own? root n = some (.number v) := by
  refine ⟨_, evaluate_define hlimit v hn, ?_⟩
  obtain ⟨houtcomes, hlast⟩ := evaluateEach_extra (stores_extra_initial hn (.number v)) limit hes
  exact ⟨houtcomes, hlast.without_eq, hlast.heaps.resembles.bound⟩

/-- An object with a field and a method, an object that gets the first one as
its prototype, a function with a dotted name that is found in the scope around
the receiver, and a name that is not bound. -/
def delegatingProgram : List Expr :=
  [.form "def" [.variable "o", .form "object" [.form "x" [.number (.ofNat 1)],
      .form "" [.form ".get" [], .form "+" [.variable "x", .form ".x" [.variable "this"]]]]],
    .form "def" [.variable "p", .form "object" [.variable "P"]],
    .form ".prototype=" [.variable "p", .variable "o"],
    .form ".get" [.variable "p"],
    .form ".x" [.variable "p"],
    .form "def" [.form ".double" [.variable "a"], .form "+" [.variable "a", .variable "a"]],
    .form ".double" [.variable "p", .number (.ofNat 4)],
    .variable "missing"]

/-- A definition of `prototype` makes no difference to objects and their
prototypes. -/
theorem definition_invisible_prototype :
    initial.heap.scopes.contains root "prototype" = false ∧
    (∀ e ∈ delegatingProgram, "prototype" ∉ e.names) ∧
    (evaluateEach 20 delegatingProgram initial).1.map Except.toOption =
      [some (.object 1), some (.object 2), some (.object 1), some (.number (.ofNat 2)),
        some (.number (.ofNat 1)), some (.function 16), some (.number (.ofNat 8)), none] ∧
    ∃ s, evaluate 20 (.form "def" [.variable "prototype", .number (.ofNat 7)]) initial =
        .ok (.number (.ofNat 7)) s ∧
      (evaluateEach 20 delegatingProgram s).1 = (evaluateEach 20 delegatingProgram initial).1 ∧
      (evaluateEach 20 delegatingProgram s).2.without "prototype" =
        (evaluateEach 20 delegatingProgram initial).2 ∧
      (evaluateEach 20 delegatingProgram s).2.heap.scopes.own? root "prototype" =
        some (.number (.ofNat 7)) := by
  have hfree : initial.heap.scopes.contains root "prototype" = false := by decide +kernel
  have hnames : ∀ e ∈ delegatingProgram, "prototype" ∉ e.names := by decide +kernel
  exact ⟨hfree, hnames, by decide +kernel,
    definition_invisible hfree (.ofNat 7) hnames (by decide)⟩

end Session

end PrototypeLisp
