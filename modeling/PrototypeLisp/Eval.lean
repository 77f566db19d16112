/-
PrototypeLisp.Eval — evaluation.

Evaluation changes a store, which is the heap and the events noted so far, and
ends in a value or a failure; a failure keeps the changes made before it. One
level of evaluation is `step`, which is given the evaluator for everything
nested inside; `eval n` allows `n` levels and fails with an exhausted stack
below them. So a larger allowance can only replace an exhausted stack by some
other outcome.

A callee is resolved before its arguments are evaluated, arguments are
evaluated from left to right, and every block, call and object gets a frame of
its own.
-/
import PrototypeLisp.Event
import PrototypeLisp.Heap.Initial
import PrototypeLisp.Heap.Prototype
import PrototypeLisp.Operator.Apply

namespace PrototypeLisp

/-- The state of a session. -/
structure Store where
  /-- Frames, functions and objects. -/
  heap : Heap
  /-- The events noted so far, latest first. -/
  events : List Event

/-- A computation on the store that ends in a value or a failure. -/
abbrev Eval (α : Type) := EStateM Failure Store α

/-- Something that evaluates an expression in a frame. -/
abbrev Evaluator := Expr → FrameId → Eval Value

namespace Eval

/-! ## Outcomes -/

@[simp] theorem pure_apply {α : Type} (a : α) (s : Store) : (pure a : Eval α) s = .ok a s := rfl

@[simp] theorem throw_apply {α : Type} (failure : Failure) (s : Store) :
    (throw failure : Eval α) s = .error failure s := rfl

/-- A failure ends the computation; a value is handed on. -/
theorem bind_apply {α β : Type} (x : Eval α) (k : α → Eval β) (s : Store) :
    (x >>= k) s =
      match x s with
      | .ok a t => k a t
      | .error failure t => .error failure t := by
  show EStateM.bind x k s = _
  unfold EStateM.bind
  cases x s <;> rfl

/-! ## Access to the store -/

/-- The heap as it is now. -/
def heap : Eval Heap :=
  fun s => .ok s.heap s

/-- Change the heap and give a result. -/
def withHeap {α : Type} (change : Heap → α × Heap) : Eval α :=
  fun s =>
    let (a, h) := change s.heap
    .ok a { s with heap := h }

/-- Change the heap. -/
def modifyHeap (change : Heap → Heap) : Eval Unit :=
  fun s => .ok () { s with heap := change s.heap }

/-- Note an event. -/
def note (event : Event) : Eval Unit :=
  fun s => .ok () { s with events := event :: s.events }

/-- End with an evaluation error. -/
def fail {α : Type} (error : EvalError) : Eval α :=
  throw (.eval error)

/-- Take over the outcome of a computation that does not use the store. -/
def ofExcept {α : Type} : Except Failure α → Eval α
  | .ok a => pure a
  | .error failure => throw failure

/-- A new frame inside `outer` with the given bindings, in order. -/
def enter (outer : FrameId) (bindings : Bindings Value) : Eval FrameId :=
  withHeap fun h =>
    let (f, h) := h.newFrame (some outer)
    (f, { h with scopes := h.scopes.defineAll f bindings })

/-! ## Calls -/

/-- The name that a method's receiver is bound to. -/
def receiverName : String :=
  "this"

/-- Evaluate expressions from left to right. -/
def evalAll (recur : Evaluator) (f : FrameId) : List Expr → Eval (List Value)
  | [] => pure []
  | e :: es => do
    let value ← recur e f
    let values ← evalAll recur f es
    return value :: values

/-- Call a function. Code that takes a receiver gets the given one, or the
declaring object when none is given. -/
def invoke (recur : Evaluator) (function : Function) (receiver? : Option Value)
    (arguments : List Value) : Eval Value :=
  match function.code with
  | .operator operator => do
    let h ← heap
    ofExcept (operator.apply h arguments)
  | .closure parameters body frame =>
    if arguments.length = parameters.length then do
      let f ← enter frame (parameters.zip arguments)
      recur body f
    else
      fail (.functionArity function.name parameters.length arguments.length)
  | .getPrototype owner =>
    match arguments with
    | [] => do
      let h ← heap
      return (h.member? owner Heap.prototypeName).getD .null
    | _ => fail (.functionArity function.name 0 arguments.length)
  | .setPrototype owner =>
    match arguments with
    | [value] => do
      modifyHeap (·.setMember owner Heap.prototypeName value)
      return value
    | _ => fail (.functionArity function.name 1 arguments.length)
  | .getField owner field =>
    match arguments with
    | [] => do
      let h ← heap
      match h.member? owner field with
      | some value => return value
      | none => throw (.fieldVanished field (h.text (.object owner)))
    | _ => fail (.functionArity function.name 0 arguments.length)
  | .setField owner field =>
    match arguments with
    | [value] => do
      modifyHeap (·.setMember owner field value)
      return value
    | _ => fail (.functionArity function.name 1 arguments.length)
  | .isInstance owner =>
    match arguments with
    | [prototype] => do
      let h ← heap
      return .ofBool (h.isInstance (receiver?.getD (.object owner)) prototype)
    | _ => fail (.functionArity function.name 1 arguments.length)
  | .method parameters body owner =>
    if arguments.length = parameters.length then do
      let h ← heap
      let f ← enter ((h.frameOf? owner).getD Heap.root)
        ((receiverName, receiver?.getD (.object owner)) :: parameters.zip arguments)
      recur body f
    else
      fail (.methodArity function.name parameters.length arguments.length)

/-- Evaluate a function call. -/
def call (recur : Evaluator) (f : FrameId) (name : String) (arguments : List Expr) :
    Eval Value := do
  let h ← heap
  match h.scopes.resolve? f name with
  | none => fail (.undefinedFunction name)
  | some value =>
    match h.asFunction? value with
    | none => fail (.notInvokable (h.text value) (h.kindName value))
    | some function => do
      let values ← evalAll recur f arguments
      invoke recur function none values

/-- Look a member up and note a delegation. -/
def lookup (receiver : ObjectId) (name : String) : Eval (Option Value) := do
  let h ← heap
  match h.holder? receiver name with
  | some holder =>
    if holder = receiver then
      return h.lookup? receiver name
    else do
      note (.delegated name (h.text (.object receiver)) (h.text (.object holder)))
      return h.lookup? receiver name
  | none => return h.lookup? receiver name

/-- Evaluate a method call. -/
def send (recur : Evaluator) (f : FrameId) (name : String) (receiver : Expr)
    (arguments : List Expr) : Eval Value := do
  let target ← recur receiver f
  match target with
  | .object o => do
    let member? ← lookup o name
    let h ← heap
    match member? with
    | none => fail (.methodNotFound name (h.text target))
    | some member =>
      match h.asFunction? member with
      | none => fail (.memberNotInvokable name (h.text target))
      | some function => do
        let values ← evalAll recur f arguments
        invoke recur function (some target) values
  | _ => do
    let h ← heap
    fail (.notAnObject name (h.text target))

/-! ## Forms -/

/-- Evaluate the expressions of a block; the value is that of the last one. -/
def evalBlock (recur : Evaluator) (f : FrameId) (last : Value) : List Expr → Eval Value
  | [] => pure last
  | e :: es => do
    let value ← recur e f
    evalBlock recur f value es

/-- Give a new object its members, in order. Field values are evaluated in
the frame around the object. -/
def defineMembers (recur : Evaluator) (f : FrameId) (o : ObjectId) : List Member → Eval Unit
  | [] => pure ()
  | .field name value :: members => do
    let value ← recur value f
    modifyHeap (·.defineField o name value)
    defineMembers recur f o members
  | .method name parameters body :: members => do
    modifyHeap (·.defineMember o name (.method parameters body o))
    defineMembers recur f o members

/-- Evaluate a form. -/
def evalForm (recur : Evaluator) (f : FrameId) : Form → Eval Value
  | .block body => do
    let inner ← enter f []
    evalBlock recur inner .null body
  | .defineVariable name value => do
    let h ← heap
    if h.scopes.contains f name then fail (.redefinition name)
    else do
      let value ← recur value f
      modifyHeap (·.define f name value)
      return value
  | .defineFunction name parameters body => do
    let h ← heap
    if h.scopes.contains f name then fail (.redefinition name)
    else do
      let id ← withHeap (·.defineFunction f name (.closure parameters body f))
      note (.functionDefined name parameters.length)
      return .function id
  | .assign name value => do
    let h ← heap
    if (h.scopes.resolve? f name).isNone then fail (.undefinedVariable name)
    else do
      let value ← recur value f
      modifyHeap (·.define f name value)
      return value
  | .object name members => do
    let o ← withHeap (·.newObject name f)
    defineMembers recur f o members
    return .object o
  | .send name receiver arguments => send recur f name receiver arguments
  | .call name arguments => call recur f name arguments

/-- One level of evaluation; `recur` evaluates what is nested inside. -/
def step (recur : Evaluator) : Evaluator
  | .number value, _ => pure (.number value)
  | .atom name, _ => pure (.atom name)
  | .variable name, f => do
    let h ← heap
    match h.scopes.resolve? f name with
    | some value => return value
    | none => fail (.undefinedVariable name)
  | .form name arguments, f =>
    match Form.classify name arguments with
    | .ok form => evalForm recur f form
    | .error fault => fail (.form fault)
  | .foreign text, _ => throw (.notAnExpression text)

end Eval

/-- Evaluate an expression in a frame, nested at most `limit` levels deep. -/
def eval : (limit : Nat) → Evaluator
  | 0 => fun _ _ => throw .stackExhausted
  | limit + 1 => Eval.step (eval limit)

end PrototypeLisp
