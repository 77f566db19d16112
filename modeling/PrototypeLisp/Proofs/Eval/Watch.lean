/-
PrototypeLisp.Proofs.Eval.Watch — evaluation with the moments it passes.

A value and a final store say nothing about what happens between the start and
the end of an evaluation. `watch` is the evaluator that also lists the moments
it passes, each with the store at that moment: every nested evaluation begins
and ends, every block and every body gets its frame and is done with it, every
declared field, every application of an operator. Leaving the moments out
gives back `eval` (`erase_watch`), so what is proved of the watched evaluator
is proved of evaluation itself, and of all that happens inside it.
-/
import PrototypeLisp.Session

namespace PrototypeLisp

/-! ## Moments -/

/-- What is seen of a run at one moment, with the store at that moment. -/
inductive Moment where
  /-- The evaluation of an expression in a frame begins. -/
  | begun (e : Expr) (f : FrameId) (store : Store)
  /-- The evaluation of an expression in a frame has ended, in a value or a
  failure. -/
  | ended (e : Expr) (f : FrameId) (store : Store)
  /-- A block, or a call for the body of its function, has got a frame. -/
  | opened (f : FrameId) (store : Store)
  /-- The block or the body that a frame was made for has ended, in a value or
  a failure. -/
  | closed (f : FrameId) (store : Store)
  /-- A field of an object has been declared. -/
  | declared (o : ObjectId) (field : String) (store : Store)
  /-- An operator is about to be applied. -/
  | applied (operator : Operator) (arguments : List Value) (store : Store)

/-- The store at a moment. -/
def Moment.store : Moment → Store
  | .begun _ _ store | .ended _ _ store | .opened _ store | .closed _ store => store
  | .declared _ _ store | .applied _ _ store => store

/-- The store that a computation leads to, in a value or a failure. -/
def Eval.after {α : Type} (x : Eval α) (s : Store) : Store :=
  match x s with
  | .ok _ t => t
  | .error _ t => t

/-! ## Watched computations -/

/-- A computation on the store that lists the moments it passes. -/
def Watched (α : Type) := Store → List Moment × EStateM.Result Failure Store α

/-- An evaluator that lists the moments it passes. -/
abbrev Watcher := Expr → FrameId → Watched Value

namespace Watched

variable {α β : Type}

/-- The computation without its moments. -/
def erase (x : Watched α) : Eval α :=
  fun s => (x s).2

instance : Monad Watched where
  pure a := fun s => ([], .ok a s)
  bind x k := fun s =>
    match x s with
    | (ms, .ok a t) => (ms ++ (k a t).1, (k a t).2)
    | (ms, .error failure t) => (ms, .error failure t)

/-- A computation that passes no moments. -/
def lift (x : Eval α) : Watched α :=
  fun s => ([], x s)

/-- Pass a moment. -/
def mark (moment : Store → Moment) : Watched Unit :=
  fun s => ([moment s], .ok () s)

/-- Pass a moment before a computation and one after it, whatever it ends
in. -/
def between (first last : Store → Moment) (x : Watched α) : Watched α :=
  fun s => (first s :: (x s).1 ++ [last (x.erase.after s)], (x s).2)

@[simp] theorem erase_pure (a : α) : (pure a : Watched α).erase = pure a := rfl

@[simp] theorem erase_bind (x : Watched α) (k : α → Watched β) :
    (x >>= k).erase = x.erase >>= fun a => (k a).erase := by
  funext s
  show (bind x k s).2 = EStateM.bind x.erase (fun a => (k a).erase) s
  simp only [bind, EStateM.bind, erase]
  split <;> simp_all

@[simp] theorem erase_lift (x : Eval α) : (lift x).erase = x := rfl

@[simp] theorem erase_between (first last : Store → Moment) (x : Watched α) :
    (between first last x).erase = x.erase := rfl

/-! ## The watched evaluator -/

/-- Evaluate in a new frame inside `outer`. -/
def inside (outer : FrameId) (bindings : Bindings Value) (body : FrameId → Watched Value) :
    Watched Value := do
  let f ← lift (Eval.enter outer bindings)
  between (.opened f) (.closed f) (body f)

/-- Apply an operator, and note first what it is applied to. -/
def applied (operator : Operator) (arguments : List Value) : Watched Value := do
  mark (.applied operator arguments)
  let h ← lift Eval.heap
  lift (Eval.ofExcept (operator.apply h arguments))

/-- Give an object a field, and note that it is declared. -/
def declare (o : ObjectId) (field : String) (value : Value) : Watched Unit := do
  lift (Eval.modifyHeap (·.defineField o field value))
  mark (.declared o field)

/-- Evaluate expressions from left to right. -/
def evalAll (recur : Watcher) (f : FrameId) : List Expr → Watched (List Value)
  | [] => pure []
  | e :: es => do
    let value ← recur e f
    let values ← evalAll recur f es
    return value :: values

/-- Call a function. Code without a body evaluates nothing. -/
def invoke (recur : Watcher) (function : Function) (receiver? : Option Value)
    (arguments : List Value) : Watched Value :=
  match function.code with
  | .operator operator => applied operator arguments
  | .closure parameters body frame =>
    if arguments.length = parameters.length then
      inside frame (parameters.zip arguments) (recur body)
    else
      lift (Eval.fail (.functionArity function.name parameters.length arguments.length))
  | .method parameters body owner =>
    if arguments.length = parameters.length then do
      let h ← lift Eval.heap
      inside ((h.frameOf? owner).getD Heap.root)
        ((Eval.receiverName, receiver?.getD (.object owner)) :: parameters.zip arguments)
        (recur body)
    else
      lift (Eval.fail (.methodArity function.name parameters.length arguments.length))
  | _ => lift (Eval.invoke (fun _ _ => throw .stackExhausted) function receiver? arguments)

/-- Evaluate a function call. -/
def call (recur : Watcher) (f : FrameId) (name : String) (arguments : List Expr) :
    Watched Value := do
  let h ← lift Eval.heap
  match h.scopes.resolve? f name with
  | none => lift (Eval.fail (.undefinedFunction name))
  | some value =>
    match h.asFunction? value with
    | none => lift (Eval.fail (.notInvokable (h.text value) (h.kindName value)))
    | some function => do
      let values ← evalAll recur f arguments
      invoke recur function none values

/-- Evaluate a method call. -/
def send (recur : Watcher) (f : FrameId) (name : String) (receiver : Expr)
    (arguments : List Expr) : Watched Value := do
  let target ← recur receiver f
  match target with
  | .object o => do
    let member? ← lift (Eval.lookup o name)
    let h ← lift Eval.heap
    match member? with
    | none => lift (Eval.fail (.methodNotFound name (h.text target)))
    | some member =>
      match h.asFunction? member with
      | none => lift (Eval.fail (.memberNotInvokable name (h.text target)))
      | some function => do
        let values ← evalAll recur f arguments
        invoke recur function (some target) values
  | _ => do
    let h ← lift Eval.heap
    lift (Eval.fail (.notAnObject name (h.text target)))

/-- Evaluate the expressions of a block. -/
def evalBlock (recur : Watcher) (f : FrameId) (last : Value) : List Expr → Watched Value
  | [] => pure last
  | e :: es => do
    let value ← recur e f
    evalBlock recur f value es

/-- Give a new object its members. -/
def defineMembers (recur : Watcher) (f : FrameId) (o : ObjectId) : List Member → Watched Unit
  | [] => pure ()
  | .field name value :: members => do
    let value ← recur value f
    declare o name value
    defineMembers recur f o members
  | .method name parameters body :: members => do
    lift (Eval.modifyHeap (·.defineMember o name (.method parameters body o)))
    defineMembers recur f o members

/-- Evaluate a form. -/
def evalForm (recur : Watcher) (f : FrameId) : Form → Watched Value
  | .block body => inside f [] fun inner => evalBlock recur inner .null body
  | .defineVariable name value => do
    let h ← lift Eval.heap
    if h.scopes.contains f name then lift (Eval.fail (.redefinition name))
    else do
      let value ← recur value f
      lift (Eval.modifyHeap (·.define f name value))
      return value
  | .defineFunction name parameters body =>
    lift (Eval.evalForm (fun _ _ => throw .stackExhausted) f
      (.defineFunction name parameters body))
  | .assign name value => do
    let h ← lift Eval.heap
    if (h.scopes.resolve? f name).isNone then lift (Eval.fail (.undefinedVariable name))
    else do
      let value ← recur value f
      lift (Eval.modifyHeap (·.define f name value))
      return value
  | .object name members => do
    let o ← lift (Eval.withHeap (·.newObject name f))
    defineMembers recur f o members
    return .object o
  | .send name receiver arguments => send recur f name receiver arguments
  | .call name arguments => call recur f name arguments

/-- One level of evaluation. -/
def step (recur : Watcher) : Watcher
  | .form name arguments, f =>
    match Form.classify name arguments with
    | .ok form => evalForm recur f form
    | .error fault => lift (Eval.fail (.form fault))
  | e, f => lift (Eval.step (fun _ _ => throw .stackExhausted) e f)

end Watched

/-- Evaluate an expression in a frame and list the moments passed. -/
def watch : (limit : Nat) → Watcher
  | 0 => fun _ _ => .lift (throw .stackExhausted)
  | limit + 1 => fun e f => .between (.begun e f) (.ended e f) (Watched.step (watch limit) e f)

/-! ## Leaving the moments out -/

namespace Watched

variable (recur : Watcher)

/-- The evaluator without its moments. -/
def eraser (recur : Watcher) : Evaluator :=
  fun e f => (recur e f).erase

theorem erase_applied (operator : Operator) (arguments : List Value) :
    (applied operator arguments).erase =
      Eval.heap >>= fun h => Eval.ofExcept (operator.apply h arguments) := by
  simp only [applied, erase_bind, erase_lift]
  rfl

theorem erase_declare (o : ObjectId) (field : String) (value : Value) :
    (declare o field value).erase = Eval.modifyHeap (·.defineField o field value) := rfl

theorem erase_inside (outer : FrameId) (bindings : Bindings Value)
    (body : FrameId → Watched Value) :
    (inside outer bindings body).erase =
      Eval.enter outer bindings >>= fun f => (body f).erase := by
  simp [inside]

theorem erase_evalAll (f : FrameId) (es : List Expr) :
    (evalAll recur f es).erase = Eval.evalAll (eraser recur) f es := by
  induction es with
  | nil => rfl
  | cons e es ih => simp [evalAll, Eval.evalAll, ih, eraser]

theorem erase_invoke (function : Function) (receiver? : Option Value)
    (arguments : List Value) :
    (invoke recur function receiver? arguments).erase =
      Eval.invoke (eraser recur) function receiver? arguments := by
  unfold invoke Eval.invoke
  cases function.code with
  | operator operator => exact erase_applied operator arguments
  | closure parameters body frame =>
    simp only
    split
    · exact erase_inside _ _ _
    · rfl
  | method parameters body owner =>
    simp only
    split
    · simp only [erase_bind, erase_inside, erase_lift]
      rfl
    · rfl
  | getPrototype _ | setPrototype _ | getField _ _ | setField _ _ | isInstance _ => rfl

theorem erase_call (f : FrameId) (name : String) (arguments : List Expr) :
    (call recur f name arguments).erase = Eval.call (eraser recur) f name arguments := by
  unfold call Eval.call
  rw [erase_bind, erase_lift]
  congr 1
  funext h
  cases h.scopes.resolve? f name with
  | none => rfl
  | some value =>
    cases hvalue : h.asFunction? value with
    | none => simp only [hvalue, erase_lift]
    | some function => simp only [hvalue, erase_bind, erase_evalAll, erase_invoke]

theorem erase_send (f : FrameId) (name : String) (receiver : Expr) (arguments : List Expr) :
    (send recur f name receiver arguments).erase =
      Eval.send (eraser recur) f name receiver arguments := by
  unfold send Eval.send
  rw [erase_bind]
  congr 1
  funext target
  cases target with
  | object o =>
    simp only [erase_bind, erase_lift]
    congr 1
    funext member?
    congr 1
    funext h
    cases member? with
    | none => rfl
    | some member =>
      cases hmember : h.asFunction? member with
      | none => simp only [hmember, erase_lift]
      | some function => simp only [hmember, erase_bind, erase_evalAll, erase_invoke]
  | number _ | atom _ | null | function _ => simp only [erase_bind, erase_lift]

theorem erase_evalBlock (f : FrameId) (last : Value) (es : List Expr) :
    (evalBlock recur f last es).erase = Eval.evalBlock (eraser recur) f last es := by
  induction es generalizing last with
  | nil => rfl
  | cons e es ih => simp [evalBlock, Eval.evalBlock, ih, eraser]

theorem erase_defineMembers (f : FrameId) (o : ObjectId) (members : List Member) :
    (defineMembers recur f o members).erase =
      Eval.defineMembers (eraser recur) f o members := by
  induction members with
  | nil => rfl
  | cons member members ih =>
    cases member with
    | field name value =>
      simp only [defineMembers, Eval.defineMembers, erase_bind, erase_declare, ih]
      rfl
    | method name parameters body =>
      simp only [defineMembers, Eval.defineMembers, erase_bind, erase_lift, ih]

theorem erase_evalForm (f : FrameId) (form : Form) :
    (evalForm recur f form).erase = Eval.evalForm (eraser recur) f form := by
  cases form with
  | block body =>
    simp only [evalForm, Eval.evalForm, erase_inside, erase_evalBlock]
  | defineVariable name value =>
    simp only [evalForm, Eval.evalForm, erase_bind, erase_lift]
    congr 1
    funext h
    split <;> simp [eraser]
  | defineFunction name parameters body => rfl
  | assign name value =>
    simp only [evalForm, Eval.evalForm, erase_bind, erase_lift]
    congr 1
    funext h
    split <;> simp [eraser]
  | object name members =>
    simp only [evalForm, Eval.evalForm, erase_bind, erase_lift, erase_defineMembers, erase_pure]
  | send name receiver arguments => exact erase_send recur f name receiver arguments
  | call name arguments => exact erase_call recur f name arguments

theorem erase_step (e : Expr) (f : FrameId) :
    (step recur e f).erase = Eval.step (eraser recur) e f := by
  cases e with
  | form name arguments =>
    cases hform : Form.classify name arguments with
    | ok form => simp only [step, Eval.step, hform, erase_evalForm]
    | error fault => simp only [step, Eval.step, hform, erase_lift]
  | _ => rfl

end Watched

/-- Watching does not change what evaluation does. -/
theorem erase_watch (limit : Nat) (e : Expr) (f : FrameId) :
    (watch limit e f).erase = eval limit e f := by
  induction limit generalizing e f with
  | zero => rfl
  | succ limit ih =>
    have hrecur : Watched.eraser (watch limit) = eval limit := by
      funext e f
      exact ih e f
    rw [watch, Watched.erase_between, Watched.erase_step, hrecur, eval]

end PrototypeLisp
