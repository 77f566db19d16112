/-
PrototypeLisp.Heap.Text — values as users see them.

Numbers are in plain notation, functions, methods and objects in angle
brackets with their names.
-/
import PrototypeLisp.Heap.Basic

namespace PrototypeLisp

/-- A function as text. -/
def Function.text (f : Function) : String :=
  if f.code.declaredBy?.isSome then "<method " ++ f.name ++ ">"
  else "<function " ++ f.name ++ ">"

/-- An object as text; an empty name is not shown. -/
def Object.text (o : Object) : String :=
  match o.name with
  | none => "<object>"
  | some name => if name = "" then "<object>" else "<object " ++ name ++ ">"

namespace Heap

/-- A value as text. -/
def text (h : Heap) : Value → String
  | .number value => value.plain
  | .atom name => ":" ++ name
  | .null => "null"
  | .function id => (h.functions[id]?.map Function.text).getD "<function>"
  | .object id => (h.objects[id]?.map Object.text).getD "<object>"

/-- What a value is called in messages about calls. -/
def kindName (h : Heap) : Value → String
  | .number _ | .atom _ | .null => "Primitive"
  | .function id =>
    if (h.functions[id]?.bind fun f => f.code.declaredBy?).isSome then "Method" else "Function"
  | .object _ => "Object"

end Heap

end PrototypeLisp
