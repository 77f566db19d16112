/-
PrototypeLisp.Heap.Prototype — prototype links and member lookup.

The binding `prototype` in an object's own frame links the object to its
prototype. The prototype chain follows these links and never visits an object
twice, so it ends on cyclic links too. A member is looked up along the chain and
then in the scopes around the receiver.

Design notes. A walk along links of unknown shape would remember the objects it
has seen and stop at one of them. Here the walk carries the complement: the
objects not yet seen, all objects of the heap at first. A step takes one of them
away, so they become fewer and the recursion ends by a count that needs no other
argument. An object is off the list when it has been seen or when the heap has
no such object, and in a well-formed heap no link leads to the latter.
-/
import PrototypeLisp.Heap.Basic

namespace PrototypeLisp.Heap

/-- The name of the link to the prototype. -/
def prototypeName : String :=
  "prototype"

/-- The object that the prototype link of an object leads to. -/
def prototypeOf? (h : Heap) (o : ObjectId) : Option ObjectId :=
  (h.member? o prototypeName).bind Value.asObject?

/-- The objects reached from `o` through prototype links, as long as they are
among those not yet seen. -/
def chainFrom (h : Heap) (unseen : List ObjectId) (o : ObjectId) : List ObjectId :=
  if _h : o ∈ unseen then
    match h.prototypeOf? o with
    | none => [o]
    | some next => o :: chainFrom h (unseen.erase o) next
  else
    []
termination_by unseen.length
decreasing_by
  rw [List.length_erase_of_mem _h]
  have := List.length_pos_of_mem _h
  omega

/-- An object followed by its prototype, that one's prototype, and so on, up
to a link that leads to no object or to one already listed. -/
def prototypeChain (h : Heap) (o : ObjectId) : List ObjectId :=
  h.chainFrom (List.range h.objects.size) o

/-- The first object on the prototype chain with an own binding of the name. -/
def holder? (h : Heap) (receiver : ObjectId) (name : String) : Option ObjectId :=
  (h.prototypeChain receiver).find? fun o => (h.member? o name).isSome

/-- The member of an object: the own binding of the first object on its
prototype chain that has one, else what the name means in the scopes around
the receiver. -/
def lookup? (h : Heap) (receiver : ObjectId) (name : String) : Option Value :=
  match h.holder? receiver name with
  | some o => h.member? o name
  | none => (h.frameOf? receiver).bind fun f => h.scopes.resolve? f name

/-- Is `prototype` an object on the chain of the receiver, the receiver itself
left out? -/
def isInstance (h : Heap) (receiver prototype : Value) : Bool :=
  match receiver, prototype with
  | .object r, .object p => (h.prototypeChain r).tail.contains p
  | _, _ => false

end PrototypeLisp.Heap
