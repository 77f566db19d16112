/-
PrototypeLisp.Proofs.Session.Termination — programs without functions of their
own.

Only a call of a function or a method with a body can make evaluation go
deeper than the expression it started from. So an expression that makes no
functions and methods, evaluated where none can be seen, needs no more levels
than its forms are nested: under any limit above that it ends in something
other than an exhausted stack, and always in the same way.

The argument is about what can be seen. Everything that can be seen from
frames without functions of that kind is a closed region (`closed_horizon`),
whatever fields, prototypes, outer links and cycles it has; evaluation stays
inside it and adds nothing with a body to it.
-/
import PrototypeLisp.Proofs.Eval.Exhaustion
import PrototypeLisp.Proofs.Expr.Grammar
import PrototypeLisp.Proofs.Session.Run

namespace PrototypeLisp

open Heap

/-! ## Expressions without functions and methods -/

namespace Expr

/-- An expression in which, at any depth, no form defines a function and no
object has a method. -/
inductive FunctionFree : Expr → Prop where
  | number (value : Decimal) : FunctionFree (.number value)
  | atom (name : String) : FunctionFree (.atom name)
  | variable (name : String) : FunctionFree (.variable name)
  | foreign (text : String) : FunctionFree (.foreign text)
  | form {name : String} {arguments : List Expr}
      (hkeeps : ∀ form, Form.classify name arguments = .ok form → form.Keeps fun _ => False)
      (hparts : ∀ form, Form.classify name arguments = .ok form →
        ∀ e ∈ form.parts, FunctionFree e) : FunctionFree (.form name arguments)

attribute [simp] FunctionFree.number FunctionFree.atom FunctionFree.variable FunctionFree.foreign

theorem functionFree_form_iff {name : String} {arguments : List Expr} :
    (form name arguments).FunctionFree ↔ ∀ shape, Form.classify name arguments = .ok shape →
      (shape.Keeps fun _ => False) ∧ ∀ e ∈ shape.parts, e.FunctionFree := by
  constructor
  · intro h shape hshape
    cases h with
    | form hkeeps hparts => exact ⟨hkeeps shape hshape, hparts shape hshape⟩
  · intro h
    exact .form (fun shape hshape => (h shape hshape).1) fun shape hshape => (h shape hshape).2

/-- An argument is nested less deep than the form. -/
theorem nesting_lt_of_mem {name : String} {arguments : List Expr} {e : Expr}
    (he : e ∈ arguments) : e.nesting < (form name arguments).nesting := by
  rw [nesting]
  exact Nat.lt_succ_of_le (nestingAll_le_iff.1 (Nat.le_refl _) e he)

theorem partsClosed_nesting (n : Nat) : PartsClosed fun e => e.nesting < n :=
  fun _ _ hform _ he => Nat.lt_trans (nesting_lt_of_mem he) hform

end Expr

/-! ## Coupling a run with itself -/

namespace Coupling

/-- A run next to itself, in a region without bodies. It may exhaust its stack
unless it is bounded. -/
def bodiless (region : Region) (bounded : Prop) : Coupling where
  resembles := Eq
  names _ := True
  region := region
  bodies _ := False
  shared failure := failure = .stackExhausted → ¬ bounded
  excused _ := False

theorem lawful_bodiless (region : Region) (bounded : Prop) :
    (bodiless region bounded).Lawful where
  indistinct := indistinct_eq _
  shared _ _ hne heq := absurd heq hne

/-- Under a limit above its nesting an expression without functions is
bounded. -/
theorem evaluators_bodiless (region : Region) (bounded : Prop) (limit : Nat) :
    (bodiless region bounded).Evaluators
      (fun e => e.FunctionFree ∧ (bounded → e.nesting < limit)) (eval limit) (eval limit) := by
  induction limit with
  | zero =>
    intro e f he hf
    exact .throw fun _ hbounded => absurd (he.2 hbounded) (Nat.not_lt_zero _)
  | succ limit ih =>
    intro e f he hf
    refine (lawful_bodiless region bounded).step ih (fun _ hbody => hbody.elim) hf
      (fun _ _ => trivial) ?_
    rintro name arguments form rfl hform
    obtain ⟨hfree, hlimit⟩ := he
    have hnested : form.Within fun e => e.nesting < (Expr.form name arguments).nesting :=
      Form.within_classify (Expr.partsClosed_nesting _)
        (fun e he => Expr.nesting_lt_of_mem he) hform
    cases hfree with
    | form hkeeps hparts =>
      refine ⟨hnested.of_parts fun e he hlt => ⟨hparts form hform e he, fun hbounded => ?_⟩,
        (Form.asks_classify hform).imp fun _ _ => trivial, hkeeps form hform⟩
      have hroom := hlimit hbounded
      omega

end Coupling

/-! ## States without functions -/

/-- No function or method with a body can be seen from the frame. -/
def Heap.Bodiless (h : Heap) (E : FrameId) : Prop :=
  ∀ id function, h.Sees E (.function id) → h.functions[id]? = some function →
    function.code.body? = none

/-- From every frame the root frame can be seen. -/
theorem Heap.visible_root {h : Heap} (hw : h.WellFormed) {E : FrameId}
    (hE : E < h.scopes.size) : h.Visible E root := by
  have hchain : ∀ f, f < h.scopes.size → h.Visible E f → h.Visible E root := by
    intro f
    induction f using Nat.strongRecOn with
    | _ f ih =>
      intro hf hvisible
      by_cases hroot : f = root
      · rwa [← hroot]
      · obtain ⟨g, hg⟩ := hw.inside f hf hroot
        have hlt := Scopes.lt_of_outer? hg
        exact ih g hlt (Nat.lt_trans hlt hf) (.outer hvisible hg)
  exact hchain E hE .here

/-- What can be seen from the frames without functions is a closed region
without bodies. -/
theorem Heap.closed_bodiless {h : Heap} (hw : h.WellFormed) {E : FrameId}
    (hlt : E < h.scopes.size) (hE : h.Bodiless E) :
    (h.horizon h.Bodiless).Closed (fun _ => False) h := by
  refine closed_horizon (.inr ⟨E, hE, visible_root hw hlt⟩) ?_
  intro g id function body hg hseen hid hbody
  simp [hg id function hseen hid] at hbody

/-- A function of a closed region without bodies has none. -/
theorem Region.Closed.body?_eq_none {r : Region} {h : Heap}
    (hc : r.Closed (fun _ => False) h) {id : FunctionId} (hid : r.functions id)
    {function : Function} (hfunction : h.functions[id]? = some function) :
    function.code.body? = none := by
  have hheld := hc.code id function hid hfunction
  cases hbody : function.code.body? with
  | none => rfl
  | some body => exact (hheld.body body hbody).elim

theorem Region.Closed.bodiless {r : Region} {h : Heap} (hc : r.Closed (fun _ => False) h)
    {E : FrameId} (hE : r.frames E) : h.Bodiless E :=
  fun _ _ hseen hfunction => hc.body?_eq_none (hseen.has hc hE) hfunction

/-- Evaluating an expression without functions where none can be seen, next to
itself. -/
theorem alike_bodiless {s : Store} (hw : s.heap.WellFormed) {E : FrameId}
    (hscope : s.heap.IsScope E) (hE : s.heap.Bodiless E) {e : Expr} (he : e.FunctionFree)
    (limit : Nat) (bounded : Prop) (hbounded : bounded → e.nesting < limit) :
    (Coupling.bodiless (s.heap.horizon s.heap.Bodiless) bounded).Alike
      (s.heap.horizon s.heap.Bodiless).Has (eval limit e E s) (eval limit e E s) := by
  refine Coupling.evaluators_bodiless _ bounded limit e E ⟨he, hbounded⟩ (frames_horizon hE) s s ?_
  exact ⟨⟨rfl, closed_bodiless hw hscope.lt_size hE⟩, rfl⟩

/-- A program without functions and methods of its own terminates where no
function or method with a body can be seen: under every limit above the
nesting of its forms it ends in the same way, and not with an exhausted stack.
Under whatever limit, it makes no function or method with a body, and frames
from which none could be seen stay so. -/
theorem function_free_terminates {ms : List Moment} {s : Store} (hs : Reached ms s)
    {E : FrameId} (hscope : s.heap.IsScope E) (hE : s.heap.Bodiless E) {e : Expr}
    (he : e.FunctionFree) :
    (∀ limit, e.nesting < limit → ¬ Exhausted (eval limit e E s) ∧
      eval limit e E s = eval (e.nesting + 1) e E s) ∧
    ∀ limit,
      (∀ g, s.heap.Bodiless g → ((eval limit e E).after s).heap.Bodiless g) ∧
      ∀ (id : FunctionId) (function : Function),
        ((eval limit e E).after s).heap.functions[id]? = some function →
          s.heap.functions[id]? = some function ∨ function.code.body? = none := by
  have hw := hs.wellFormed
  have hdone : ∀ limit, e.nesting < limit → ¬ Exhausted (eval limit e E s) := by
    rintro limit hlimit ⟨t, ht⟩
    have halike := alike_bodiless hw hscope hE he limit True fun _ => hlimit
    rw [ht] at halike
    cases halike with
    | failure _ hf => exact hf rfl trivial
    | excused hf => exact hf
  refine ⟨fun limit hlimit => ⟨hdone limit hlimit, ?_⟩, fun limit => ?_⟩
  · exact eval_eq_of_le hlimit e E s (hdone _ (Nat.lt_succ_self _))
  · have hclosed := (alike_bodiless hw hscope hE he limit False False.elim).closed fun _ => id
    refine ⟨fun g hg => hclosed.bodiless (frames_horizon hg), fun id function hid => ?_⟩
    by_cases hold : id < s.heap.functions.size
    · -- a function that was there before is as it was
      have hready := ready_of_wellFormed hw hscope (Nat.zero_le _)
      have hgrows := (evolves_eval partsClosed_true hready limit (e := e) trivial).grows
      have hkept := hgrows.functions id _ (Array.getElem?_eq_getElem hold)
      rw [hid] at hkept
      rw [Array.getElem?_eq_getElem hold, hkept]
      exact .inl rfl
    · exact .inr (hclosed.body?_eq_none (.inl (Nat.le_of_not_lt hold)) hid)

/-- `(do (def p (object (x 1))) (def q (object)) (.prototype= p q) (.prototype= q p)
(.x= p (+ (.x q) 1)))`: two objects that are each other's prototypes. -/
def cyclicProgram : Expr :=
  .form "do" [
    .form "def" [.variable "p", .form "object" [.form "x" [.number (.ofNat 1)]]],
    .form "def" [.variable "q", .form "object" []],
    .form ".prototype=" [.variable "p", .variable "q"],
    .form ".prototype=" [.variable "q", .variable "p"],
    .form ".x=" [.variable "p",
      .form "+" [.form ".x" [.variable "q"], .number (.ofNat 1)]]]

theorem functionFree_cyclicProgram : cyclicProgram.FunctionFree := by
  simp [cyclicProgram, Expr.functionFree_form_iff, Form.classify, Form.ofDefine, Form.ofObject,
    Form.ofMembers, Form.ofMember, Form.ofSend, isMethodName, Form.Keeps, Form.parts,
    Member.Keeps, Member.part, Bind.bind, Except.bind, Pure.pure, Except.pure]

/-- A new session evaluates it in five levels, to the number two. -/
theorem function_free_terminates_cyclic :
    cyclicProgram.FunctionFree ∧ Session.initial.heap.Bodiless root ∧
    (match eval 5 cyclicProgram root Session.initial with
      | .ok value _ => some value
      | .error _ _ => none) = some (.number (.ofNat 2)) ∧
    (∀ limit, 4 < limit → ¬ Exhausted (eval limit cyclicProgram root Session.initial) ∧
      eval limit cyclicProgram root Session.initial =
        eval 5 cyclicProgram root Session.initial) ∧
    ((eval 5 cyclicProgram root).after Session.initial).heap.Bodiless root := by
  have hreached : Reached [] Session.initial := .between .fresh
  have hbodiless : Session.initial.heap.Bodiless root :=
    fun id function _ hid => body?_initial id function hid
  obtain ⟨hends, hstays⟩ := function_free_terminates hreached hreached.wellFormed.root hbodiless
    functionFree_cyclicProgram
  have hnesting : cyclicProgram.nesting = 4 := by decide +kernel
  rw [hnesting] at hends
  exact ⟨functionFree_cyclicProgram, hbodiless, by decide +kernel, hends,
    (hstays 5).1 root hbodiless⟩

end PrototypeLisp
