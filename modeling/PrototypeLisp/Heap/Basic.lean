/-
PrototypeLisp.Heap.Basic — what references point to.

The heap holds the frames, the functions and the objects. A function is a name
and its code: an operator, a function definition with the frame it was made
in, a method with the object that declares it, or one of the accessors that
objects come with. Nothing is ever taken off the heap, and a function or an
object, once made, does not change; what changes is the bindings of frames.
-/
import PrototypeLisp.Expr.Basic
import PrototypeLisp.Operator.Basic
import PrototypeLisp.Scope.Basic
import PrototypeLisp.Value

namespace PrototypeLisp

/-- What happens when a function is called. -/
inductive Code where
  /-- Apply an operator to numbers. -/
  | operator (operator : Operator)
  /-- Evaluate a body in a new frame inside the frame of the definition. -/
  | closure (parameters : List String) (body : Expr) (frame : FrameId)
  /-- Give the prototype of an object. -/
  | getPrototype (owner : ObjectId)
  /-- Set the prototype of an object. -/
  | setPrototype (owner : ObjectId)
  /-- Give a field of an object. -/
  | getField (owner : ObjectId) (field : String)
  /-- Set a field of an object. -/
  | setField (owner : ObjectId) (field : String)
  /-- Is the argument among the prototypes of the receiver? -/
  | isInstance (owner : ObjectId)
  /-- Evaluate a body in a new frame inside the declaring object's frame. -/
  | method (parameters : List String) (body : Expr) (owner : ObjectId)

/-- The declaring object, for code that takes a receiver. -/
def Code.declaredBy? : Code → Option ObjectId
  | .isInstance owner => some owner
  | .method _ _ owner => some owner
  | _ => none

/-- A function: its name and its code. -/
structure Function where
  name : String
  code : Code

/-- An object: an optional name and the frame of its members. -/
structure Object where
  name : Option String
  frame : FrameId
deriving DecidableEq

/-- Everything that references can point to. -/
structure Heap where
  scopes : Scopes Value
  functions : Array Function
  objects : Array Object

namespace Heap

/-- A heap without frames, functions and objects. -/
def empty : Heap :=
  ⟨.empty, #[], #[]⟩

/-- The function that a value refers to. -/
def asFunction? (h : Heap) : Value → Option Function
  | .function id => h.functions[id]?
  | _ => none

/-- The frame of an object's members. -/
def frameOf? (h : Heap) (o : ObjectId) : Option FrameId :=
  h.objects[o]?.map Object.frame

/-- The object's own binding of a name. -/
def member? (h : Heap) (o : ObjectId) (name : String) : Option Value :=
  (h.frameOf? o).bind fun f => h.scopes.own? f name

/-- Bind a name in a frame. -/
def define (h : Heap) (f : FrameId) (name : String) (value : Value) : Heap :=
  { h with scopes := h.scopes.define f name value }

/-- Bind a name in the frame of an object. -/
def setMember (h : Heap) (o : ObjectId) (name : String) (value : Value) : Heap :=
  match h.frameOf? o with
  | some f => h.define f name value
  | none => h

/-- A new frame inside `outer`. -/
def newFrame (h : Heap) (outer : Option FrameId) : FrameId × Heap :=
  let (f, scopes) := h.scopes.push outer
  (f, { h with scopes })

/-- A new function. -/
def newFunction (h : Heap) (name : String) (code : Code) : FunctionId × Heap :=
  (h.functions.size, { h with functions := h.functions.push ⟨name, code⟩ })

/-- A new function, bound to its name in a frame. -/
def defineFunction (h : Heap) (f : FrameId) (name : String) (code : Code) : FunctionId × Heap :=
  let (id, h) := h.newFunction name code
  (id, h.define f name (.function id))

/-- A new function, bound to its name in the frame of an object. -/
def defineMember (h : Heap) (o : ObjectId) (name : String) (code : Code) : Heap :=
  let (id, h) := h.newFunction name code
  h.setMember o name (.function id)

end Heap

end PrototypeLisp
