/-
PrototypeLisp.Proofs.Session.Delegation — members and prototypes in a session.

A program sets prototype links as it likes: to the object itself, in a circle,
to an object that others share, to a number. At every state of a session a
member is nevertheless looked up along one finite chain, the only list that
fits the links, and then in the scopes around the object (`Delegates`); and
`.instance?` tells which objects the links lead to.

A call looks its member up when the receiver has been evaluated, which need
not be a moment of the session. So both are stated for the larger set of
states that evaluations in scopes lead to (`Visited`).
-/
import PrototypeLisp.Proofs.Heap.Prototype
import PrototypeLisp.Proofs.Session.Run

namespace PrototypeLisp

open Heap

/-- A state of a session, or one that evaluations in scopes lead to from
there. -/
inductive Visited : Store → Prop where
  | reached {ms : List Moment} {s : Store} (h : Reached ms s) : Visited s
  | evaluated {s : Store} {f : FrameId} (limit : Nat) (e : Expr) (h : Visited s)
      (hf : s.heap.IsScope f) : Visited ((eval limit e f).after s)

theorem Visited.wellFormed {s : Store} (h : Visited s) : s.heap.WellFormed := by
  induction h with
  | reached h => exact h.wellFormed
  | evaluated limit e _ hf ih =>
    have hready := ready_of_wellFormed ih hf (Nat.zero_le _)
    exact (evolves_eval partsClosed_true hready limit trivial).wellFormed ih

/-! ## Members -/

/-- How an object with the frame `f` comes by its members. -/
structure Delegates (s : Store) (r : ObjectId) (f : FrameId) : Prop where
  /-- The frame belongs to the object. -/
  frame : s.heap.frameOf? r = some f
  /-- The chain that is walked follows the prototype links. -/
  chain : s.heap.IsPrototypeChain r (s.heap.prototypeChain r)
  /-- No other list does. -/
  only : ∀ chain, s.heap.IsPrototypeChain r chain → chain = s.heap.prototypeChain r
  /-- The walk ends after as many steps as there are objects. -/
  bounded : (s.heap.prototypeChain r).length ≤ s.heap.objects.size
  /-- The first object of the chain that has a member gives it, and without
  one the scopes around the object do. -/
  found : ∀ name, s.heap.Found (s.heap.prototypeChain r) f name (s.heap.lookup? r name)
  /-- In the scopes the nearest frame with the name gives its value. -/
  nearest : ∀ name, s.heap.scopes.resolve? f name =
    (s.heap.scopes.chain f).findSome? (s.heap.scopes.own? · name)
  /-- A member is absent when neither the chain nor the scopes have it. -/
  absent : ∀ name, s.heap.lookup? r name = none ↔
    (∀ o ∈ s.heap.prototypeChain r, s.heap.member? o name = none) ∧
      s.heap.scopes.resolve? f name = none
  /-- This is what evaluation gets; it notes delegations and changes nothing
  else. -/
  looked : ∀ name, ∃ events, Eval.lookup r name s =
    .ok (s.heap.lookup? r name) { s with events := events }
  /-- Without a prototype link a member is what its name means in the frame of
  the object. -/
  lexical : s.heap.member? r prototypeName = none →
    ∀ name, s.heap.lookup? r name = s.heap.scopes.resolve? f name

/-- Members are looked up along the prototype chain and then in the scopes
around the object, whatever links the objects of a session have. -/
theorem lookup_follows_chain {s : Store} (h : Visited s) {r : ObjectId}
    (hr : r < s.heap.objects.size) : ∃ f, Delegates s r f := by
  have hw := h.wellFormed
  obtain ⟨f, hf⟩ := (s.heap.frameOf?_isSome_iff r).2 hr
  have hchain := isPrototypeChain hw hr
  have hfound := found_lookup? hf
  exact ⟨f, {
    frame := hf
    chain := hchain
    only := fun _ hother => hother.unique hchain
    bounded := length_prototypeChain_le s.heap r
    found := hfound
    nearest := s.heap.scopes.resolve?_eq_findSome? f
    absent := fun name => (hfound name).eq_none_iff
    looked := fun name => Eval.lookup_apply r name s
    lexical := lookup?_of_no_prototype hw hf }⟩

/-- `(do (def a (object (x 1))) (def b (object (y 2))) (def c (object (x :c)))
(.prototype= a b) (.prototype= b a) (.prototype= c a))`: a chain that leads into
a circle. -/
def circularProgram : Expr :=
  .form "do" [
    .form "def" [.variable "a", .form "object" [.form "x" [.number (.ofNat 1)]]],
    .form "def" [.variable "b", .form "object" [.form "y" [.number (.ofNat 2)]]],
    .form "def" [.variable "c", .form "object" [.form "x" [.atom "c"]]],
    .form ".prototype=" [.variable "a", .variable "b"],
    .form ".prototype=" [.variable "b", .variable "a"],
    .form ".prototype=" [.variable "c", .variable "a"]]

/-- The store of a session that has evaluated it. -/
def circularStore : Store :=
  (eval 9 circularProgram root).after Session.initial

theorem visited_circularStore : Visited circularStore :=
  .reached (.between (.evaluated 9 circularProgram .fresh))

/-- The chain of the third object goes once around the circle. Its own member
hides one in the circle, and names from the scopes come last. -/
theorem lookup_follows_chain_circular :
    3 < circularStore.heap.objects.size ∧
    circularStore.heap.prototypeChain 3 = [3, 1, 2] ∧
    circularStore.heap.lookup? 3 "x" = some (.atom "c") ∧
    circularStore.heap.lookup? 3 "y" = some (.number (.ofNat 2)) ∧
    circularStore.heap.lookup? 3 "Object" = some (.object 0) ∧
    circularStore.heap.lookup? 3 "z" = none ∧
    ∃ f, Delegates circularStore 3 f := by
  have hlt : 3 < circularStore.heap.objects.size := by decide +kernel
  refine ⟨hlt, ?_, ?_, ?_, ?_, ?_, lookup_follows_chain visited_circularStore hlt⟩
  all_goals decide +kernel

/-! ## Instances -/

/-- `.instance?` decides which objects can be reached along prototype links,
the receiver left out. So an instance of an instance of an object is an
instance of it, unless it is that object. -/
theorem isInstance_iff_reachable {s : Store} (h : Visited s) :
    (∀ r p, s.heap.isInstance r p = true ↔ ∃ a b, r = .object a ∧ p = .object b ∧ a ≠ b ∧
      Relation.TransGen s.heap.Links a b) ∧
    (∀ a b c, a ≠ c → s.heap.isInstance a b = true → s.heap.isInstance b c = true →
      s.heap.isInstance a c = true) ∧
    ∀ recur name owner r p, Eval.invoke recur ⟨name, .isInstance owner⟩ (some r) [p] s =
      .ok (.ofBool (s.heap.isInstance r p)) s :=
  ⟨isInstance_iff h.wellFormed, fun _ _ _ => isInstance_trans h.wellFormed,
    fun _ _ _ _ _ => rfl⟩

/-- From the third object the links lead to both objects of the circle. The
objects of the circle are instances of each other and not of themselves,
though their links lead back to them. -/
theorem isInstance_iff_reachable_circular :
    circularStore.heap.isInstance (.object 3) (.object 2) = true ∧
    circularStore.heap.isInstance (.object 1) (.object 2) = true ∧
    circularStore.heap.isInstance (.object 2) (.object 1) = true ∧
    circularStore.heap.isInstance (.object 1) (.object 1) = false ∧
    circularStore.heap.isInstance (.object 1) (.object 3) = false ∧
    Relation.TransGen circularStore.heap.Links 3 2 ∧
    Relation.TransGen circularStore.heap.Links 1 1 ∧
    ¬ Relation.TransGen circularStore.heap.Links 1 3 := by
  obtain ⟨hiff, -, -⟩ := isInstance_iff_reachable visited_circularStore
  have h32 : circularStore.heap.isInstance (.object 3) (.object 2) = true := by decide +kernel
  have h12 : circularStore.heap.isInstance (.object 1) (.object 2) = true := by decide +kernel
  have h21 : circularStore.heap.isInstance (.object 2) (.object 1) = true := by decide +kernel
  have h13 : circularStore.heap.isInstance (.object 1) (.object 3) = false := by decide +kernel
  have hreach : ∀ a b, circularStore.heap.isInstance (.object a) (.object b) = true →
      Relation.TransGen circularStore.heap.Links a b := by
    intro a b hab
    obtain ⟨_, _, ⟨⟩, ⟨⟩, -, hlinks⟩ := (hiff _ _).1 hab
    exact hlinks
  refine ⟨h32, h12, h21, by decide +kernel, h13, hreach 3 2 h32,
    (hreach 1 2 h12).trans (hreach 2 1 h21), fun hlinks => ?_⟩
  exact Bool.false_ne_true (h13.symm.trans ((hiff _ _).2 ⟨1, 3, rfl, rfl, by decide, hlinks⟩))

end PrototypeLisp
