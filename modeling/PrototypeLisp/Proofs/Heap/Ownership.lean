/-
PrototypeLisp.Proofs.Heap.Ownership — who owns what on the heap.

A frame is owned by an object when it is the frame of that object's members;
every other frame is a scope: the root frame, the frame of a block or the
frame of a call. Code is owned by an object when a call of it reads or writes
that object or runs inside its frame. The lemmas say what each elementary
operation of the heap does to the five views that all later statements are
made of: the own bindings of frames, their outer links, the functions, the
frames of objects, and the members of objects.
-/
import PrototypeLisp.Scope.Lemmas
import PrototypeLisp.Form
import PrototypeLisp.Heap.Initial
import PrototypeLisp.Heap.Prototype

namespace PrototypeLisp

/-! ## Code -/

namespace Code

/-- The object that a piece of code belongs to; operators and function
definitions belong to none. -/
def owner? : Code → Option ObjectId
  | .operator _ | .closure .. => none
  | .getPrototype owner | .setPrototype owner | .isInstance owner => some owner
  | .getField owner _ | .setField owner _ | .method _ _ owner => some owner

/-- The field that an accessor reads or writes. -/
def field? : Code → Option String
  | .getField _ field | .setField _ field => some field
  | _ => none

/-- The expression that a call evaluates. -/
def body? : Code → Option Expr
  | .closure _ body _ | .method _ body _ => some body
  | _ => none

/-- The frame that a function definition was made in. -/
def captured? : Code → Option FrameId
  | .closure _ _ frame => some frame
  | _ => none

end Code

/-! ## Bindings -/

namespace Bindings

variable {α : Type}

/-- Binding a name keeps the earlier names, in their places. -/
theorem names_prefix_set (bindings : Bindings α) (name : String) (value : α) :
    names bindings <+: names (set bindings name value) := by
  rw [names_set]
  split
  · exact List.prefix_refl _
  · exact List.prefix_append _ _

end Bindings

/-! ## Frames -/

namespace Scopes

variable {α : Type}

/-- Binding a name in a frame changes the bindings of that frame only. -/
theorem bindings_define (s : Scopes α) (f g : FrameId) (name : String) (value : α) :
    (s.define f name value).bindings g =
      if f = g ∧ g < s.size then (s.bindings g).set name value else s.bindings g :=
  bindings_update s f g _

theorem bindings_define_of_ne (s : Scopes α) {f g : FrameId} (hg : g ≠ f) (name : String)
    (value : α) : (s.define f name value).bindings g = s.bindings g := by
  rw [bindings_define, if_neg (fun h => hg h.1.symm)]

/-- A frame that does not exist has no bindings. -/
theorem bindings_of_size_le (s : Scopes α) {f : FrameId} (hf : s.size ≤ f) :
    s.bindings f = [] := by
  unfold bindings
  rw [Array.getElem?_eq_none (by exact hf)]

theorem own?_of_size_le (s : Scopes α) {f : FrameId} (hf : s.size ≤ f) (name : String) :
    s.own? f name = none := by
  unfold own?
  rw [bindings_of_size_le s hf, Bindings.get?_nil]

theorem outer?_of_size_le (s : Scopes α) {f : FrameId} (hf : s.size ≤ f) :
    s.outer? f = none := by
  unfold outer?
  rw [Array.getElem?_eq_none (by exact hf), Option.bind_none]

@[simp] theorem own?_push (s : Scopes α) (outer : Option FrameId) (f : FrameId)
    (name : String) : (s.push outer).2.own? f name = s.own? f name := by
  unfold own?
  rw [bindings_push]

end Scopes

/-! ## The heap -/

namespace Heap

/-- A name that a dot is put before is the name of a method. -/
theorem isMethodName_append (name : String) : isMethodName ("." ++ name) = true := by
  simp [isMethodName, String.toList_append]

@[simp] theorem isMethodName_getterName (field : String) :
    isMethodName (getterName field) = true :=
  isMethodName_append field

@[simp] theorem isMethodName_setterName (field : String) :
    isMethodName (setterName field) = true := by
  rw [setterName, String.append_assoc]
  exact isMethodName_append _

/-- Is the frame that of an object's members? -/
def Owned (h : Heap) (f : FrameId) : Prop :=
  ∃ o, h.frameOf? o = some f

/-- The frames in which code may be evaluated: they exist and no object owns
them. -/
structure IsScope (h : Heap) (f : FrameId) : Prop where
  lt_size : f < h.scopes.size
  not_owned : ¬ h.Owned f

/-- Does the value refer to nothing, or to something on the heap? -/
def Allocated (h : Heap) : Value → Prop
  | .function id => id < h.functions.size
  | .object o => o < h.objects.size
  | _ => True

/-- Has the object a setter of a field with this name? Setters are made by
the declaration of a field and by nothing else. -/
def DeclaresField (h : Heap) (o : ObjectId) (field : String) : Prop :=
  ∃ (id : FunctionId) (function : Function),
    h.functions[id]? = some function ∧ function.code = .setField o field

/-! ### Binding a name -/

@[simp] theorem functions_define (h : Heap) (f : FrameId) (name : String) (value : Value) :
    (h.define f name value).functions = h.functions := rfl

@[simp] theorem frameOf?_define (h : Heap) (f : FrameId) (name : String) (value : Value)
    (o : ObjectId) : (h.define f name value).frameOf? o = h.frameOf? o := rfl

@[simp] theorem size_scopes_define (h : Heap) (f : FrameId) (name : String) (value : Value) :
    (h.define f name value).scopes.size = h.scopes.size :=
  Scopes.size_define _ _ _ _

@[simp] theorem outer?_scopes_define (h : Heap) (f g : FrameId) (name : String)
    (value : Value) : (h.define f name value).scopes.outer? g = h.scopes.outer? g :=
  Scopes.outer?_define _ _ _ _ _

/-- What is bound in a scope does not show among the members of objects. -/
theorem member?_define_of_scope {h : Heap} {f : FrameId} (hf : h.IsScope f) (name : String)
    (value : Value) (o : ObjectId) (other : String) :
    (h.define f name value).member? o other = h.member? o other := by
  unfold member?
  rw [frameOf?_define]
  cases ho : h.frameOf? o with
  | none => rfl
  | some g =>
    have hne : ¬ (f = g ∧ other = name ∧ g < h.scopes.size) := by
      rintro ⟨rfl, -, -⟩
      exact hf.not_owned ⟨o, ho⟩
    simp only [Option.bind_some, define, Scopes.own?_define, if_neg hne]

/-! ### Members of an object -/

theorem setMember_eq_define {h : Heap} {o : ObjectId} {f : FrameId}
    (hf : h.frameOf? o = some f) (name : String) (value : Value) :
    h.setMember o name value = h.define f name value := by
  simp only [setMember, hf]

@[simp] theorem functions_setMember (h : Heap) (o : ObjectId) (name : String)
    (value : Value) : (h.setMember o name value).functions = h.functions := by
  unfold setMember
  split <;> rfl

@[simp] theorem objects_setMember (h : Heap) (o : ObjectId) (name : String)
    (value : Value) : (h.setMember o name value).objects = h.objects := by
  unfold setMember
  split <;> rfl

@[simp] theorem frameOf?_setMember (h : Heap) (o : ObjectId) (name : String)
    (value : Value) (p : ObjectId) : (h.setMember o name value).frameOf? p = h.frameOf? p := by
  unfold frameOf?
  rw [objects_setMember]

@[simp] theorem size_scopes_setMember (h : Heap) (o : ObjectId) (name : String)
    (value : Value) : (h.setMember o name value).scopes.size = h.scopes.size := by
  unfold setMember
  split <;> simp

@[simp] theorem outer?_scopes_setMember (h : Heap) (o : ObjectId) (name : String)
    (value : Value) (f : FrameId) :
    (h.setMember o name value).scopes.outer? f = h.scopes.outer? f := by
  unfold setMember
  split <;> simp

/-! ### New functions -/

theorem functions_newFunction (h : Heap) (name : String) (code : Code) (id : FunctionId) :
    (h.newFunction name code).2.functions[id]? =
      if id = h.functions.size then some ⟨name, code⟩ else h.functions[id]? :=
  Array.getElem?_push

theorem defineMember_eq (h : Heap) (o : ObjectId) (name : String) (code : Code) :
    h.defineMember o name code =
      (h.newFunction name code).2.setMember o name (.function h.functions.size) := rfl

@[simp] theorem functions_defineMember (h : Heap) (o : ObjectId) (name : String)
    (code : Code) :
    (h.defineMember o name code).functions = (h.newFunction name code).2.functions := by
  rw [defineMember_eq, functions_setMember]

@[simp] theorem objects_defineMember (h : Heap) (o : ObjectId) (name : String)
    (code : Code) : (h.defineMember o name code).objects = h.objects := by
  rw [defineMember_eq, objects_setMember]
  rfl

@[simp] theorem frameOf?_defineMember (h : Heap) (o : ObjectId) (name : String)
    (code : Code) (p : ObjectId) : (h.defineMember o name code).frameOf? p = h.frameOf? p := by
  rw [defineMember_eq, frameOf?_setMember]
  rfl

theorem defineFunction_eq (h : Heap) (f : FrameId) (name : String) (code : Code) :
    (h.defineFunction f name code).2 =
      (h.newFunction name code).2.define f name (.function h.functions.size) := rfl

theorem allocated_defineFunction (h : Heap) (f : FrameId) (name : String) (code : Code) :
    (h.defineFunction f name code).2.Allocated (.function (h.defineFunction f name code).1) := by
  simp [Allocated, defineFunction, newFunction]

/-! ### New frames and objects -/

@[simp] theorem functions_newFrame (h : Heap) (outer : Option FrameId) :
    (h.newFrame outer).2.functions = h.functions := rfl

@[simp] theorem objects_newFrame (h : Heap) (outer : Option FrameId) :
    (h.newFrame outer).2.objects = h.objects := rfl

@[simp] theorem frameOf?_newFrame (h : Heap) (outer : Option FrameId) (o : ObjectId) :
    (h.newFrame outer).2.frameOf? o = h.frameOf? o := rfl

@[simp] theorem size_scopes_newFrame (h : Heap) (outer : Option FrameId) :
    (h.newFrame outer).2.scopes.size = h.scopes.size + 1 :=
  Scopes.size_push _ _

@[simp] theorem own?_scopes_newFrame (h : Heap) (outer : Option FrameId) (f : FrameId)
    (name : String) : (h.newFrame outer).2.scopes.own? f name = h.scopes.own? f name :=
  Scopes.own?_push _ _ _ _

theorem bindings_scopes_newFrame (h : Heap) (outer : Option FrameId) (f : FrameId) :
    (h.newFrame outer).2.scopes.bindings f = h.scopes.bindings f :=
  Scopes.bindings_push _ _ _

/-- A new frame inside an existing one has it as its outer frame. -/
theorem outer?_scopes_newFrame (h : Heap) {outer : FrameId} (ho : outer < h.scopes.size)
    (f : FrameId) : (h.newFrame (some outer)).2.scopes.outer? f =
      if f = h.scopes.size then some outer else h.scopes.outer? f := by
  have hkept : (some outer).filter (· < h.scopes.size) = some outer := by
    simp [Option.filter, ho]
  exact (Scopes.outer?_push h.scopes (some outer) f).trans (by rw [hkept])

/-- An object without members, and its frame inside `outer`. -/
def allocate (h : Heap) (name : Option String) (outer : FrameId) : Heap :=
  { (h.newFrame (some outer)).2 with objects := h.objects.push ⟨name, h.scopes.size⟩ }

/-- A new object is an object without members that is given the three
members every object has. -/
theorem newObject_eq (h : Heap) (name : Option String) (outer : FrameId) :
    (h.newObject name outer).2 =
      (((h.allocate name outer).defineMember h.objects.size ".prototype"
        (.getPrototype h.objects.size)).defineMember h.objects.size ".prototype="
          (.setPrototype h.objects.size)).defineMember h.objects.size ".instance?"
            (.isInstance h.objects.size) := rfl

@[simp] theorem fst_newObject (h : Heap) (name : Option String) (outer : FrameId) :
    (h.newObject name outer).1 = h.objects.size := rfl

@[simp] theorem size_objects_newObject (h : Heap) (name : Option String) (outer : FrameId) :
    (h.newObject name outer).2.objects.size = h.objects.size + 1 := by
  simp [newObject_eq, allocate]

theorem allocated_newObject (h : Heap) (name : Option String) (outer : FrameId) :
    (h.newObject name outer).2.Allocated (.object (h.newObject name outer).1) := by
  simp [Allocated]

theorem frameOf?_allocate (h : Heap) (name : Option String) (outer : FrameId)
    (o : ObjectId) : (h.allocate name outer).frameOf? o =
      if o = h.objects.size then some h.scopes.size else h.frameOf? o := by
  unfold frameOf? allocate
  rw [Array.getElem?_push]
  split <;> rfl

/-- An object exists exactly when it has a frame. -/
theorem frameOf?_isSome_iff (h : Heap) (o : ObjectId) :
    (∃ f, h.frameOf? o = some f) ↔ o < h.objects.size := by
  unfold frameOf?
  constructor
  · rintro ⟨f, hf⟩
    obtain ⟨object, hobject, -⟩ := Option.map_eq_some_iff.1 hf
    exact (Array.getElem?_eq_some_iff.1 hobject).1
  · intro ho
    exact ⟨_, by rw [Array.getElem?_eq_getElem ho]; rfl⟩

theorem defineField_eq (h : Heap) (o : ObjectId) (field : String) (value : Value) :
    h.defineField o field value =
      ((h.setMember o field value).defineMember o (getterName field)
        (.getField o field)).defineMember o (setterName field) (.setField o field) := rfl

/-! ### Declared fields -/

/-- Only a new setter declares a field. -/
theorem declaresField_newFunction {h : Heap} {name : String} {code : Code} {o : ObjectId}
    {field : String} (hd : (h.newFunction name code).2.DeclaresField o field) :
    h.DeclaresField o field ∨ code = .setField o field := by
  obtain ⟨id, function, hid, hcode⟩ := hd
  rw [functions_newFunction] at hid
  split at hid
  · obtain rfl : ⟨name, code⟩ = function := by simpa using hid
    exact .inr hcode
  · exact .inl ⟨id, function, hid, hcode⟩

theorem declaresField_setMember {h : Heap} {o p : ObjectId} {name field : String}
    {value : Value} (hd : (h.setMember o name value).DeclaresField p field) :
    h.DeclaresField p field := by
  simpa [DeclaresField] using hd

theorem declaresField_defineMember {h : Heap} {o p : ObjectId} {name field : String}
    {code : Code} (hd : (h.defineMember o name code).DeclaresField p field) :
    h.DeclaresField p field ∨ code = .setField p field :=
  declaresField_newFunction (declaresField_setMember hd)

/-- A new object declares no field. -/
theorem declaresField_newObject {h : Heap} {name : Option String} {outer : FrameId}
    {o : ObjectId} {field : String} (hd : (h.newObject name outer).2.DeclaresField o field) :
    h.DeclaresField o field := by
  rw [newObject_eq] at hd
  replace hd := (declaresField_defineMember hd).resolve_right (by simp)
  replace hd := (declaresField_defineMember hd).resolve_right (by simp)
  exact (declaresField_defineMember hd).resolve_right (by simp)

/-- A field is declared of its own object only. -/
theorem declaresField_defineField {h : Heap} {o p : ObjectId} {field other : String}
    {value : Value} (hd : (h.defineField o field value).DeclaresField p other) :
    h.DeclaresField p other ∨ p = o ∧ other = field := by
  rw [defineField_eq] at hd
  rcases declaresField_defineMember hd with hd | hcode
  · replace hd := (declaresField_defineMember hd).resolve_right (by simp)
    exact .inl (declaresField_setMember hd)
  · obtain ⟨rfl, rfl⟩ : o = p ∧ field = other := by simpa using hcode
    exact .inr ⟨rfl, rfl⟩

end Heap

end PrototypeLisp
