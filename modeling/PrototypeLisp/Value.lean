/-
PrototypeLisp.Value — runtime values.

A value is a number, an atom, null, or a reference to a function or an object.
Numbers compare by value, atoms by name, references by identity.
-/
import PrototypeLisp.Text.Quoted
import PrototypeLisp.Decimal.Notation

namespace PrototypeLisp

/-- The number of a function on the heap. -/
abbrev FunctionId := Nat

/-- The number of an object on the heap. -/
abbrev ObjectId := Nat

/-- A runtime value. -/
inductive Value where
  | number (value : Decimal)
  | atom (name : String)
  | null
  | function (id : FunctionId)
  | object (id : ObjectId)
deriving DecidableEq, Inhabited

namespace Value

/-- The value of a truth: the atom `:true` or `:false`. -/
def ofBool (b : Bool) : Value :=
  .atom (if b then "true" else "false")

/-- The object that a value refers to. -/
def asObject? : Value → Option ObjectId
  | .object o => some o
  | _ => none

/-- Are two values equal? Numbers compare by value, references by identity. -/
def same : Value → Value → Bool
  | .number a, .number b => a.sameValue b
  | a, b => a == b

/-- A number, an atom or null with its structure spelled out. -/
def inspect? : Value → Option String
  | .number value => some ("Primitive(value=Decimal('" ++ value.scientific ++ "'))")
  | .atom name => some ("Primitive(value=Tag(" ++ Text.quote name ++ "))")
  | .null => some "Primitive(value=None)"
  | .function _ | .object _ => none

end Value

end PrototypeLisp
