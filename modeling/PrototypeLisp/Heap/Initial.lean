/-
PrototypeLisp.Heap.Initial — new objects, fields, and the heap of a new session.

A new object carries accessors for its prototype link and a test of its
prototype chain. A field comes with a getter and a setter. The root frame of a
new session binds null, the operators and an object to start from.
-/
import PrototypeLisp.Heap.Basic

namespace PrototypeLisp.Heap

/-- A new object with its frame inside `outer`. -/
def newObject (h : Heap) (name : Option String) (outer : FrameId) : ObjectId × Heap :=
  let (f, h) := h.newFrame (some outer)
  let o := h.objects.size
  let h := { h with objects := h.objects.push ⟨name, f⟩ }
  let h := h.defineMember o ".prototype" (.getPrototype o)
  let h := h.defineMember o ".prototype=" (.setPrototype o)
  let h := h.defineMember o ".instance?" (.isInstance o)
  (o, h)

/-- The name of the getter of a field. -/
def getterName (field : String) : String :=
  "." ++ field

/-- The name of the setter of a field. -/
def setterName (field : String) : String :=
  "." ++ field ++ "="

/-- Give an object a field with its getter and its setter. -/
def defineField (h : Heap) (o : ObjectId) (field : String) (value : Value) : Heap :=
  let h := h.setMember o field value
  let h := h.defineMember o (getterName field) (.getField o field)
  h.defineMember o (setterName field) (.setField o field)

/-- The number of the root frame. -/
def root : FrameId :=
  0

/-- The heap of a new session: the root frame binds null, the operators and
the object `Object`. -/
def initial : Heap :=
  let (_, h) := empty.newFrame none
  let h := h.define root "null" .null
  let h := [Operator.plus, .minus, .times, .over].foldl
    (fun h operator => (h.defineFunction root operator.symbol (.operator operator)).2) h
  let (o, h) := h.newObject (some "Object") root
  h.define root "Object" (.object o)

end PrototypeLisp.Heap
