/-
PrototypeLisp.Proofs.Session.Dispatch — which function a method call runs.

A method call evaluates its receiver, finds the member of that name, and only
then turns to its arguments (`Eval.send_eq`). The step in between is
`Eval.dispatch`. Every object comes with three members, whatever fields and
methods it is given, and everything under a dotted name in its frame is a
function; so a member that is found along the prototype chain can be called.
Outside the objects a program may bind a dotted name to anything: `(def .m 1)`
does. That is the only way for a dispatch to find something that cannot be
called (`dispatch_invokable`).
-/
import PrototypeLisp.Proofs.Session.Accessors

namespace PrototypeLisp

open Heap

/-! ## The dispatch step -/

namespace Eval

/-- The function that a method call on a value runs. -/
def dispatch (target : Value) (name : String) : Eval Function :=
  match target with
  | .object o => do
    let member? ← lookup o name
    let h ← heap
    match member? with
    | none => fail (.methodNotFound name (h.text target))
    | some member =>
      match h.asFunction? member with
      | none => fail (.memberNotInvokable name (h.text target))
      | some function => return function
  | _ => do
    let h ← heap
    fail (.notAnObject name (h.text target))

/-- The function of a method call is settled between its receiver and its
arguments. -/
theorem send_eq (recur : Evaluator) (f : FrameId) (name : String) (receiver : Expr)
    (arguments : List Expr) : send recur f name receiver arguments = (do
      let target ← recur receiver f
      let function ← dispatch target name
      let values ← evalAll recur f arguments
      invoke recur function (some target) values) := by
  funext s
  simp only [send, bind_apply]
  cases recur receiver f s with
  | error failure t => rfl
  | ok target t =>
    cases target with
    | object o =>
      obtain ⟨events, hlookup⟩ := lookup_apply o name t
      simp only [dispatch, bind_apply, hlookup, heap]
      cases t.heap.lookup? o name with
      | none => rfl
      | some member =>
        cases hfunction : t.heap.asFunction? member with
        | none => simp only [hfunction]; rfl
        | some function => simp only [hfunction, bind_apply, pure_apply]
    | number _ | atom _ | null | function _ => rfl

/-- A dispatch changes the events at most. -/
theorem dispatch_apply (r : ObjectId) (name : String) (s : Store) :
    ∃ events, dispatch (.object r) name s = (match s.heap.lookup? r name with
      | none => fail (.methodNotFound name (s.heap.text (.object r)))
      | some member =>
        match s.heap.asFunction? member with
        | none => fail (.memberNotInvokable name (s.heap.text (.object r)))
        | some function => pure function) { s with events := events } := by
  obtain ⟨events, hlookup⟩ := lookup_apply r name s
  refine ⟨events, ?_⟩
  simp only [dispatch, bind_apply, hlookup, heap]

/-- The computation fails because what it should call is not a function. -/
def RefusesToCall {α : Type} (x : Eval α) (s : Store) : Prop :=
  ∃ failure t, x s = .error failure t ∧ failure.kind? = some .notInvokable

/-- A dispatch refuses what is found and is not a function. -/
theorem refusesToCall_dispatch_iff {target : Value} {name : String} {s : Store} :
    (dispatch target name).RefusesToCall s ↔ ∃ r v, target = .object r ∧
      s.heap.lookup? r name = some v ∧ s.heap.asFunction? v = none := by
  cases target with
  | object r =>
    obtain ⟨events, hrun⟩ := dispatch_apply r name s
    unfold RefusesToCall
    rw [hrun]
    cases hmember : s.heap.lookup? r name with
    | none => simp [fail, Failure.kind?, EvalError.kind, hmember]
    | some member =>
      cases hfunction : s.heap.asFunction? member with
      | none => simp [fail, Failure.kind?, EvalError.kind, hmember, hfunction]
      | some function => simp [hmember, hfunction]
  | number _ | atom _ | null | function _ =>
    simp [RefusesToCall, dispatch, bind_apply, heap, fail, Failure.kind?, EvalError.kind]

end Eval

/-! ## Where a member comes from -/

/-- The frame that gives a name its value is on the chain. -/
theorem Scopes.mem_chain_of_find? {α : Type} {s : Scopes α} {f g : FrameId} {name : String}
    (hfind : s.find? f name = some g) : g ∈ s.chain f := by
  induction f using Nat.strongRecOn with
  | _ f ih =>
    rw [find?] at hfind
    split at hfind
    · obtain rfl := Option.some.inj hfind
      cases ho : s.outer? f with
      | none => simp [chain_of_none ho]
      | some o => simp [chain_of_some ho]
    · split at hfind
      · cases hfind
      · rename_i o ho
        rw [chain_of_some ho]
        exact List.mem_cons_of_mem _ (ih o (lt_of_outer? ho) hfind)

namespace Heap

/-- An object finds a name outside all objects: no object of its prototype
chain has it, and the nearest frame around the object that has it is a
scope. -/
structure FoundOutside (h : Heap) (r : ObjectId) (name : String) (v : Value) : Prop where
  /-- No object of the prototype chain has the member. -/
  chain : ∀ o ∈ h.prototypeChain r, h.member? o name = none
  /-- The value stands in the nearest frame that has the name, which is around
  the frame of the object and belongs to no object. -/
  scope : ∃ f g, h.frameOf? r = some f ∧ h.scopes.find? f name = some g ∧
    g ∈ (h.scopes.chain f).tail ∧ h.IsScope g ∧ h.scopes.own? g name = some v

theorem FoundOutside.lookup?_eq {h : Heap} {r : ObjectId} {name : String} {v : Value}
    (hv : h.FoundOutside r name v) : h.lookup? r name = some v := by
  obtain ⟨f, g, hf, hfind, -, -, hown⟩ := hv.scope
  have hnone : h.holder? r name = none :=
    List.find?_eq_none.2 fun o ho => by simp [hv.chain o ho]
  simp [lookup?, hnone, hf, Scopes.resolve?, hfind, hown]

/-- Under a dotted name an object has a function. -/
theorem WellFormed.asFunction?_member? {h : Heap} (hw : h.WellFormed) {o : ObjectId}
    {name : String} {v : Value} (hname : isMethodName name = true)
    (hv : h.member? o name = some v) : ∃ function, h.asFunction? v = some function ∧
      function.name = name ∧ function.code.owner? = some o := by
  obtain ⟨id, function, rfl, hid, hrest⟩ := hw.members o name v hname hv
  exact ⟨function, hid, hrest⟩

/-- What is found under a dotted name and is not a function is found outside
all objects. -/
theorem WellFormed.foundOutside {h : Heap} (hw : h.WellFormed) {r : ObjectId} {name : String}
    {v : Value} (hname : isMethodName name = true) (hv : h.lookup? r name = some v)
    (hno : h.asFunction? v = none) : h.FoundOutside r name v := by
  have hmember : ∀ o, h.member? o name ≠ some v := by
    intro o ho
    obtain ⟨function, hfunction, -⟩ := hw.asFunction?_member? hname ho
    rw [hno] at hfunction
    cases hfunction
  have hr := lt_size_of_lookup? hv
  obtain ⟨f, hf⟩ := (h.frameOf?_isSome_iff r).2 hr
  have hfound := found_lookup? hf name
  generalize hresult : h.lookup? r name = result at hfound
  cases hfound with
  | own _ _ ho => exact absurd (ho.trans (hresult.symm.trans hv)) (hmember _)
  | scope hnone =>
    rw [hv] at hresult
    obtain ⟨g, hfind, hown⟩ := Option.bind_eq_some_iff.1 hresult.symm
    have howned : ¬ h.Owned g := by
      rintro ⟨o, ho⟩
      exact hmember o (by rw [member?, ho]; exact hown)
    have hlt : g < h.scopes.size := by
      refine Nat.lt_of_not_le fun hle => ?_
      rw [Scopes.own?_of_size_le _ hle] at hown
      cases hown
    refine ⟨hnone, f, g, hf, hfind, ?_, ⟨hlt, howned⟩, hown⟩
    -- the frame of the object itself is owned
    have hne : g ≠ f := by
      rintro rfl
      exact howned ⟨r, hf⟩
    have hmem := Scopes.mem_chain_of_find? hfind
    cases ho : h.scopes.outer? f with
    | none =>
      rw [Scopes.chain_of_none ho, List.mem_singleton] at hmem
      exact absurd hmem hne
    | some o =>
      rw [Scopes.chain_of_some ho] at hmem ⊢
      exact (List.mem_cons.1 hmem).resolve_left hne

end Heap

/-! ## Sessions -/

/-- What holds of dotted names at a state of a session. -/
structure Invokable (s : Store) : Prop where
  /-- Every object has the members that it came with. -/
  equipped : ∀ o, o < s.heap.objects.size → ∀ name ∈ builtInNames,
    (s.heap.member? o name).isSome = true
  /-- Whatever an object has under a dotted name is a function of its own. -/
  members : ∀ o name v, isMethodName name = true → s.heap.member? o name = some v →
    ∃ function, s.heap.asFunction? v = some function ∧ function.name = name ∧
      function.code.owner? = some o
  /-- A dispatch refuses nothing but what is found outside all objects and is
  not a function. -/
  refused : ∀ target name, isMethodName name = true →
    ((Eval.dispatch target name).RefusesToCall s ↔ ∃ r v, target = .object r ∧
      s.heap.FoundOutside r name v ∧ s.heap.asFunction? v = none)

theorem Visited.invokable {s : Store} (h : Visited s) : Invokable s where
  equipped := h.equipped
  members _ _ _ hname hv := h.wellFormed.asFunction?_member? hname hv
  refused target name hname := by
    rw [Eval.refusesToCall_dispatch_iff]
    constructor
    · rintro ⟨r, v, htarget, hv, hno⟩
      exact ⟨r, v, htarget, h.wellFormed.foundOutside hname hv hno, hno⟩
    · rintro ⟨r, v, htarget, hv, hno⟩
      exact ⟨r, v, htarget, hv.lookup?_eq, hno⟩

/-- At every state of a session the dotted members of objects can be called,
and so they can when a method call has evaluated its receiver and turns to the
dispatch. -/
theorem dispatch_invokable {s : Store} (h : Visited s) :
    Invokable s ∧ ∀ limit E name receiver arguments, s.heap.IsScope E →
      isMethodName name = true →
      Invokable ((eval limit receiver E).after s) ∧
        eval (limit + 1) (.form name (receiver :: arguments)) E = (do
          let target ← eval limit receiver E
          let function ← Eval.dispatch target name
          let values ← Eval.evalAll (eval limit) E arguments
          Eval.invoke (eval limit) function (some target) values) := by
  refine ⟨h.invokable, fun limit E name receiver arguments hE hname => ⟨?_, ?_⟩⟩
  · exact (h.evaluated limit receiver hE).invokable
  · rw [← Eval.send_eq]
    simp only [eval, Eval.step, Form.classify_send hname, Eval.evalForm]

/-- `(do (def .odd 1) (object (prototype 5) (instance? 2)))`: a dotted name
outside all objects, and fields named like members that objects come with. -/
def dottedProgram : Expr :=
  .form "do" [
    .form "def" [.variable ".odd", .number (.ofNat 1)],
    .form "object" [.form "prototype" [.number (.ofNat 5)],
      .form "instance?" [.number (.ofNat 2)]]]

/-- The store of a session that has evaluated it. -/
def dottedStore : Store :=
  (eval 9 dottedProgram root).after Session.initial

theorem visited_dottedStore : Visited dottedStore :=
  .reached (.between (.evaluated 9 dottedProgram .fresh))

/-- The getter of a field has taken the place of a member that the object came
with. A call of the name outside the object is refused, because the number
there stands in a frame around the object that no object owns. -/
theorem dispatch_invokable_outside :
    Invokable dottedStore ∧ 1 < dottedStore.heap.objects.size ∧
    dottedStore.heap.getterAt? 1 ".instance?" = some (1, "instance?") ∧
    (Eval.dispatch (.object 1) ".odd").RefusesToCall dottedStore ∧
    dottedStore.heap.FoundOutside 1 ".odd" (.number (.ofNat 1)) ∧
    dottedStore.heap.IsScope root ∧
    Invokable ((eval 9 (.variable "Object") root).after dottedStore) := by
  have hodd : dottedStore.heap.lookup? 1 ".odd" = some (.number (.ofNat 1)) := by decide +kernel
  have hrefused : (Eval.dispatch (.object 1) ".odd").RefusesToCall dottedStore :=
    Eval.refusesToCall_dispatch_iff.2 ⟨1, _, rfl, hodd, rfl⟩
  have hroot : dottedStore.heap.IsScope root := visited_dottedStore.wellFormed.root
  obtain ⟨hinvokable, hcalls⟩ := dispatch_invokable visited_dottedStore
  obtain ⟨r, v, hr, houtside, -⟩ := (hinvokable.refused (.object 1) ".odd" rfl).1 hrefused
  obtain rfl := Value.object.inj hr
  obtain rfl : v = _ := Option.some.inj (houtside.lookup?_eq.symm.trans hodd)
  exact ⟨hinvokable, by decide +kernel, by decide +kernel, hrefused, houtside, hroot,
    (hcalls 9 root ".odd" (.variable "Object") [] hroot rfl).1⟩

end PrototypeLisp
