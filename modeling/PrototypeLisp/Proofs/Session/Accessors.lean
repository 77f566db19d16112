/-
PrototypeLisp.Proofs.Session.Accessors — reading and writing fields.

The accessors of a field belong to the object that declares it, and any object
may reach them: through its prototypes or through the scopes around it. A
message is stated for values (`Eval.message`), which is what a method call
does once its receiver and its arguments have been evaluated. Whoever sends it,
a setter obeys the laws of assignment: it writes the field of the declaring
object and nothing else, the getter of that field reads what was written, no
other getter notices, and only the last of several writes counts.
-/
import PrototypeLisp.Proofs.Heap.Accessors
import PrototypeLisp.Proofs.Session.Delegation

namespace PrototypeLisp

open Heap

/-! ## Messages -/

/-- Send a message with the given arguments to an object. -/
def Eval.message (recur : Evaluator) (r : ObjectId) (name : String) (arguments : List Value) :
    Eval Value := do
  let member? ← lookup r name
  let h ← heap
  match member? with
  | none => fail (.methodNotFound name (h.text (.object r)))
  | some member =>
    match h.asFunction? member with
    | none => fail (.memberNotInvokable name (h.text (.object r)))
    | some function => invoke recur function (some (.object r)) arguments

theorem Form.classify_send {name : String} (hname : isMethodName name = true) (receiver : Expr)
    (arguments : List Expr) :
    Form.classify name (receiver :: arguments) = .ok (.send name receiver arguments) := by
  have hne : ∀ keyword, isMethodName keyword = false → name ≠ keyword := by
    rintro keyword hkeyword rfl
    rw [hkeyword] at hname
    cases hname
  rw [Form.classify, if_neg (hne "do" rfl), if_neg (hne "def" rfl), if_neg (hne "set!" rfl),
    if_neg (hne "object" rfl), if_neg (hne "" rfl), if_pos hname]
  rfl

theorem eval_variable {limit : Nat} {E : FrameId} {x : String} {v : Value} {s : Store}
    (hx : s.heap.scopes.resolve? E x = some v) : eval (limit + 1) (.variable x) E s = .ok v s := by
  simp [eval, Eval.step, Eval.bind_apply, Eval.heap, hx]

theorem evalAll_variables {limit : Nat} {E : FrameId} {ys : List String} {vs : List Value}
    {s : Store} (hys : List.Forall₂ (fun y v => s.heap.scopes.resolve? E y = some v) ys vs) :
    Eval.evalAll (eval (limit + 1)) E (ys.map .variable) s = .ok vs s := by
  induction hys with
  | nil => rfl
  | cons hy _ ih =>
    simp only [List.map_cons, Eval.evalAll, Eval.bind_apply, eval_variable hy, ih]
    rfl

/-- A method call on variables sends the message with what they mean. -/
theorem eval_send {limit : Nat} {E : FrameId} {name x : String} {r : ObjectId}
    {ys : List String} {vs : List Value} {s : Store} (hname : isMethodName name = true)
    (hx : s.heap.scopes.resolve? E x = some (.object r))
    (hys : List.Forall₂ (fun y v => s.heap.scopes.resolve? E y = some v) ys vs) :
    eval (limit + 2) (.form name (.variable x :: ys.map .variable)) E s =
      Eval.message (eval (limit + 1)) r name vs s := by
  have hform : eval (limit + 2) (.form name (.variable x :: ys.map .variable)) E =
      Eval.send (eval (limit + 1)) E name (.variable x) (ys.map .variable) := by
    simp only [eval, Eval.step, Form.classify_send hname, Eval.evalForm]
  obtain ⟨events, hlookup⟩ := Eval.lookup_apply r name s
  rw [hform]
  simp only [Eval.send, Eval.message, Eval.bind_apply, eval_variable hx, hlookup, Eval.heap]
  cases s.heap.lookup? r name with
  | none => rfl
  | some member =>
    cases hfunction : s.heap.asFunction? member with
    | none => simp only [hfunction]
    | some function =>
      -- the events noted by the lookup do not matter to the arguments
      have hall : Eval.evalAll (eval (limit + 1)) E (ys.map .variable)
          { s with events := events } = .ok vs { s with events := events } :=
        evalAll_variables hys
      simp only [hfunction, Eval.bind_apply, hall]

/-- A message reaches the code of the member that is found; looking it up
changes the events at most. -/
theorem message_of_memberCode? {r : ObjectId} {name : String} {code : Code} {s : Store}
    (hcode : s.heap.memberCode? r name = some code) :
    ∃ function : Function, function.code = code ∧ ∃ events, ∀ recur arguments,
      Eval.message recur r name arguments s =
        Eval.invoke recur function (some (.object r)) arguments { s with events := events } := by
  obtain ⟨function, hfunction, hcode⟩ := Option.map_eq_some_iff.1 hcode
  obtain ⟨member, hmember, hfunction⟩ := Option.bind_eq_some_iff.1 hfunction
  obtain ⟨events, hlookup⟩ := Eval.lookup_apply r name s
  refine ⟨function, hcode, events, fun recur arguments => ?_⟩
  simp only [Eval.message, Eval.bind_apply, hlookup, Eval.heap, hmember, hfunction]

/-! ## Calls of accessors -/

theorem invoke_setter {function : Function} {o : ObjectId} {name : String}
    (hcode : function.code.writes? = some (o, name)) (recur : Evaluator)
    (receiver? : Option Value) (v : Value) (s : Store) :
    Eval.invoke recur function receiver? [v] s =
      .ok v { s with heap := s.heap.setMember o name v } := by
  unfold Eval.invoke
  cases hc : function.code with
  | setPrototype owner | setField owner field =>
    obtain ⟨rfl, rfl⟩ : owner = o ∧ _ = name := by simpa [hc, Code.writes?] using hcode
    rfl
  | operator _ | closure _ _ _ | getPrototype _ | getField _ _ | isInstance _ | method _ _ _ =>
    simp [hc, Code.writes?] at hcode

theorem invoke_getter {function : Function} {o : ObjectId} {name : String}
    (hcode : function.code.reads? = some (o, name)) {v : Value} {s : Store}
    (hv : s.heap.member? o name = some v) (recur : Evaluator) (receiver? : Option Value) :
    Eval.invoke recur function receiver? [] s = .ok v s := by
  unfold Eval.invoke
  cases hc : function.code with
  | getPrototype owner | getField owner field =>
    obtain ⟨rfl, rfl⟩ : owner = o ∧ _ = name := by simpa [hc, Code.reads?] using hcode
    simp [Eval.bind_apply, Eval.heap, hv]
  | operator _ | closure _ _ _ | setPrototype _ | setField _ _ | isInstance _ | method _ _ _ =>
    simp [hc, Code.reads?] at hcode

/-- What a getter returns depends on what it reads and on nothing else. -/
theorem invoke_getter_congr {function : Function} {o : ObjectId} {name : String}
    (hcode : function.code.reads? = some (o, name)) {s t : Store}
    (hsame : t.heap.member? o name = s.heap.member? o name) (recur : Evaluator)
    (receiver? : Option Value) (v : Value) :
    Eval.invoke recur function receiver? [] t = .ok v t ↔
      Eval.invoke recur function receiver? [] s = .ok v s := by
  cases hv : s.heap.member? o name with
  | some w => rw [invoke_getter hcode hv, invoke_getter hcode (hsame.trans hv)]; simp
  | none =>
    rw [hv] at hsame
    unfold Eval.invoke
    cases hc : function.code with
    | getPrototype owner | getField owner field =>
      obtain ⟨rfl, rfl⟩ : owner = o ∧ _ = name := by simpa [hc, Code.reads?] using hcode
      simp [Eval.bind_apply, Eval.heap, hv, hsame]
    | operator _ | closure _ _ _ | setPrototype _ | setField _ _ | isInstance _ | method _ _ _ =>
      simp [hc, Code.reads?] at hcode

/-! ## The laws of assignment -/

theorem Visited.equipped {s : Store} (h : Visited s) : s.heap.Equipped := by
  induction h with
  | reached h => exact h.reaches.evolves.equipped equipped_initial
  | evaluated limit e h hf ih =>
    have hready := ready_of_wellFormed h.wellFormed hf (Nat.zero_le _)
    exact (evolves_eval partsClosed_true hready limit trivial).equipped ih

/-- What is so when `r` has been sent the message that sets the field of `o` to
`v`, and `t` is the state after that. -/
structure SetterLaws (s : Store) (r o : ObjectId) (field : String) (v : Value) (t : Store) :
    Prop where
  /-- The value is returned, with any evaluator for nested calls. -/
  returned : ∀ recur, Eval.message recur r (setterName field) [v] s = .ok v t
  /-- This is what `(.field= x y)` does when `x` and `y` mean `r` and `v`. -/
  evaluated : ∀ limit E x y, s.heap.scopes.resolve? E x = some (.object r) →
    s.heap.scopes.resolve? E y = some v →
      eval (limit + 2) (.form (setterName field) [.variable x, .variable y]) E s = .ok v t
  /-- The field has the value now. -/
  written : t.heap.member? o field = some v
  /-- No other binding has changed. -/
  bindings : ∀ f name, t.heap.scopes.own? f name ≠ s.heap.scopes.own? f name →
    s.heap.frameOf? o = some f ∧ name = field
  /-- Nothing else has changed either. -/
  frames : t.heap.scopes.size = s.heap.scopes.size ∧
    ∀ f, t.heap.scopes.outer? f = s.heap.scopes.outer? f
  functions : t.heap.functions = s.heap.functions
  objects : t.heap.objects = s.heap.objects
  /-- Every object that finds a getter of the field gets the value. -/
  got : ∀ recur q, t.heap.getterAt? q (getterName field) = some (o, field) →
    ∃ u, Eval.message recur q (getterName field) [] t = .ok v u ∧ u.heap = t.heap
  /-- Every other getter returns what it returned before. -/
  others : ∀ recur (function : Function) receiver? p name w,
    function.code.reads? = some (p, name) → (p, name) ≠ (o, field) →
      (Eval.invoke recur function receiver? [] t = .ok w t ↔
        Eval.invoke recur function receiver? [] s = .ok w s)
  /-- After a second assignment the first one has left no trace. -/
  last : ∀ recur w, ∃ u u', Eval.message recur r (setterName field) [w] t = .ok w u ∧
    Eval.message recur r (setterName field) [w] s = .ok w u' ∧ u.heap = u'.heap
  /-- Assigning the value that the field has changes nothing. -/
  same : s.heap.member? o field = some v → t.heap = s.heap

/-- Whichever object finds the setter of a field, by whatever way, an
assignment through it obeys the laws. -/
theorem accessors_lawful {s : Store} (h : Visited s) {r o : ObjectId} {field : String}
    (hsetter : s.heap.setterAt? r (setterName field) = some (o, field)) (v : Value) :
    ∃ t, SetterLaws s r o field v t := by
  have hw := h.wellFormed
  obtain ⟨code, hcode, hwrites⟩ := Option.bind_eq_some_iff.1 hsetter
  obtain ⟨hr, ho⟩ := lt_size_of_memberCode? hw hcode (Code.owner?_of_writes? hwrites)
  obtain ⟨g, hg⟩ := (s.heap.frameOf?_isSome_iff o).2 ho
  -- the setter is found in the same way before and after the assignment
  have hset : ∀ {u : Store}, u.heap.memberCode? r (setterName field) = some code →
      ∃ events, ∀ recur w, Eval.message recur r (setterName field) [w] u =
        .ok w ⟨u.heap.setMember o field w, events⟩ := by
    intro u hu
    obtain ⟨function, rfl, events, hmessage⟩ := message_of_memberCode? hu
    exact ⟨events, fun recur w => (hmessage recur [w]).trans (invoke_setter hwrites recur _ w _)⟩
  obtain ⟨events, hmessage⟩ := hset hcode
  have hmember := hw.member?_setMember ho field v
  have hafter := (memberCode?_setMember_setterName hw h.equipped hr ho field v).trans hcode
  refine ⟨⟨s.heap.setMember o field v, events⟩, {
    returned := fun recur => hmessage recur v
    evaluated := fun limit E x y hx hy => ?_
    written := by rw [hmember, if_pos ⟨rfl, rfl⟩]
    bindings := fun f name hne => ?_
    frames := ⟨by simp, fun f => by simp⟩
    functions := by simp
    objects := by simp
    got := fun recur q hq => ?_
    others := fun recur function receiver? p name w hreads hne => ?_
    last := fun recur w => ?_
    same := fun hv => setMember_self hv }⟩
  · exact (eval_send (isMethodName_setterName field) hx (.cons hy .nil)).trans (hmessage _ v)
  · rw [setMember_eq_define hg, define, Scopes.own?_define] at hne
    split at hne
    · rename_i hhit
      obtain ⟨rfl, rfl, -⟩ := hhit
      exact ⟨hg, rfl⟩
    · exact absurd rfl hne
  · obtain ⟨getter, hgetter, hreads⟩ := Option.bind_eq_some_iff.1 hq
    obtain ⟨function, rfl, events', hget⟩ := message_of_memberCode? hgetter
    refine ⟨_, (hget recur []).trans (invoke_getter hreads ?_ recur _), rfl⟩
    rw [hmember, if_pos ⟨rfl, rfl⟩]
  · refine invoke_getter_congr hreads ?_ recur receiver? w
    rw [hmember, if_neg]
    rintro ⟨rfl, rfl⟩
    exact hne rfl
  · obtain ⟨events', hagain⟩ := hset (u := ⟨s.heap.setMember o field v, events⟩) hafter
    exact ⟨_, _, hagain recur w, hmessage recur w, setMember_setMember _ _ _ _ _⟩

/-- `(do (def p (object (x 1))) (def c (object (prototype p))))`: an object
that delegates to another one through a field. -/
def delegatingPair : Expr :=
  .form "do" [
    .form "def" [.variable "p", .form "object" [.form "x" [.number (.ofNat 1)]]],
    .form "def" [.variable "c", .form "object" [.form "prototype" [.variable "p"]]]]

/-- The store of a session that has evaluated it. -/
def delegatingStore : Store :=
  (eval 9 delegatingPair root).after Session.initial

theorem visited_delegatingStore : Visited delegatingStore :=
  .reached (.between (.evaluated 9 delegatingPair .fresh))

/-- The second object sets the field of the first one, and its own field
`prototype`, which is the link to the first one. -/
theorem accessors_lawful_delegating :
    delegatingStore.heap.prototypeChain 2 = [2, 1] ∧
    delegatingStore.heap.setterAt? 2 (setterName "x") = some (1, "x") ∧
    delegatingStore.heap.setterAt? 2 (setterName "prototype") = some (2, "prototype") ∧
    (∃ t, SetterLaws delegatingStore 2 1 "x" (.atom "new") t) ∧
    ∃ t, SetterLaws delegatingStore 2 2 "prototype" .null t := by
  have hfield : delegatingStore.heap.setterAt? 2 (setterName "x") = some (1, "x") := by
    decide +kernel
  have hlink : delegatingStore.heap.setterAt? 2 (setterName "prototype") =
      some (2, "prototype") := by decide +kernel
  exact ⟨by decide +kernel, hfield, hlink, accessors_lawful visited_delegatingStore hfield _,
    accessors_lawful visited_delegatingStore hlink _⟩

end PrototypeLisp
