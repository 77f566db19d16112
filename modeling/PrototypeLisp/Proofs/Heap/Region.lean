/-
PrototypeLisp.Proofs.Heap.Region — parts of the heap that refer to nothing
outside.

A region is a set of frames, functions and objects, given by their numbers. It
is closed when everything in it leads only to what is in it: outer links and
bindings of frames, the frames of objects, and what the code of a function
belongs to, was made in and evaluates. A closed region has everything that is
still to be made, so it does not change while the heap grows.

Names are looked up, members found and prototypes followed inside a closed
region, and every operation of the heap that is given values of the region
keeps it closed. What can be seen from a frame (`Visible`) is in every closed
region that has the frame; together with what is still to be made it is a
closed region itself (`closed_horizon`). That no bound value is a function
still to be made (`Backed`) is kept apart: a closed region has those too.
-/
import PrototypeLisp.Proofs.Heap.Growth

namespace PrototypeLisp

/-- A set of frames, functions and objects. -/
structure Region where
  frames : FrameId → Prop
  functions : FunctionId → Prop
  objects : ObjectId → Prop

namespace Region

/-- Everything. -/
def whole : Region where
  frames _ := True
  functions _ := True
  objects _ := True

/-- Does the value refer to nothing, or to something in the region? -/
def Has (r : Region) : Value → Prop
  | .function id => r.functions id
  | .object o => r.objects o
  | .number _ | .atom _ | .null => True

/-- Code that belongs to the region and evaluates one of the given bodies, if
it evaluates anything. -/
structure Holds (r : Region) (bodies : Expr → Prop) (code : Code) : Prop where
  owner : ∀ o, code.owner? = some o → r.objects o
  captured : ∀ f, code.captured? = some f → r.frames f
  body : ∀ e, code.body? = some e → bodies e

/-- Everything in the region leads to what is in the region. -/
structure Closed (r : Region) (bodies : Expr → Prop) (h : Heap) : Prop where
  /-- The root frame is in the region. -/
  root : r.frames Heap.root
  /-- So is everything that is still to be made. -/
  newFrames : ∀ f, h.scopes.size ≤ f → r.frames f
  newFunctions : ∀ id, h.functions.size ≤ id → r.functions id
  newObjects : ∀ o, h.objects.size ≤ o → r.objects o
  /-- The frame around a frame. -/
  outer : ∀ f g, r.frames f → h.scopes.outer? f = some g → r.frames g
  /-- The values bound in a frame. -/
  values : ∀ f name v, r.frames f → h.scopes.own? f name = some v → r.Has v
  /-- The frame of an object. -/
  members : ∀ o f, r.objects o → h.frameOf? o = some f → r.frames f
  /-- The code of a function. -/
  code : ∀ (id : FunctionId) (function : Function), r.functions id →
    h.functions[id]? = some function → r.Holds bodies function.code

theorem has_whole (v : Value) : whole.Has v := by
  cases v <;> trivial

/-- The whole heap is closed as soon as it has the right bodies. -/
theorem closed_whole {bodies : Expr → Prop} {h : Heap}
    (hb : ∀ (id : FunctionId) (function : Function) (body : Expr),
      h.functions[id]? = some function → function.code.body? = some body → bodies body) :
    whole.Closed bodies h where
  root := trivial
  newFrames _ _ := trivial
  newFunctions _ _ := trivial
  newObjects _ _ := trivial
  outer _ _ _ _ := trivial
  values _ _ v _ _ := has_whole v
  members _ _ _ _ := trivial
  code id function _ hid :=
    ⟨fun _ _ => trivial, fun _ _ => trivial, fun body => hb id function body hid⟩

/-! ## Looking things up -/

namespace Closed

variable {r : Region} {bodies : Expr → Prop} {h : Heap}

/-- What a name means in a frame of the region is in the region. -/
theorem has_resolve? (hc : r.Closed bodies h) {f : FrameId} (hf : r.frames f) {name : String}
    {v : Value} (hv : h.scopes.resolve? f name = some v) : r.Has v := by
  induction f using Nat.strongRecOn with
  | _ f ih =>
    rw [Scopes.resolve?_eq, Option.or_eq_some_iff] at hv
    rcases hv with hown | ⟨-, houter⟩
    · exact hc.values f name v hf hown
    · obtain ⟨g, hg, hrest⟩ := Option.bind_eq_some_iff.1 houter
      exact ih g (Scopes.lt_of_outer? hg) (hc.outer f g hf hg) hrest

theorem has_member? (hc : r.Closed bodies h) {o : ObjectId} (ho : r.objects o) {name : String}
    {v : Value} (hv : h.member? o name = some v) : r.Has v := by
  obtain ⟨f, hf, hown⟩ := Option.bind_eq_some_iff.1 hv
  exact hc.values f name v (hc.members o f ho hf) hown

theorem objects_chainFrom (hc : r.Closed bodies h) (unseen : List ObjectId) {o : ObjectId}
    (ho : r.objects o) : ∀ p ∈ h.chainFrom unseen o, r.objects p := by
  fun_induction Heap.chainFrom h unseen o with
  | case1 unseen o hmem hnone =>
    intro p hp
    rwa [List.mem_singleton.1 hp]
  | case2 unseen o hmem next hnext ih =>
    obtain ⟨v, hv, hobject⟩ := Option.bind_eq_some_iff.1 hnext
    have hnext' : r.objects next := by
      cases v with
      | object p =>
        obtain rfl : p = next := by simpa [Value.asObject?] using hobject
        exact hc.has_member? ho hv
      | number _ | atom _ | null | function _ => simp [Value.asObject?] at hobject
    intro p hp
    rcases List.mem_cons.1 hp with rfl | hp
    · exact ho
    · exact ih hnext' p hp
  | case3 unseen o hmem => simp

/-- A member of an object of the region is in the region, wherever it is
found. -/
theorem has_lookup? (hc : r.Closed bodies h) {o : ObjectId} (ho : r.objects o) {name : String}
    {v : Value} (hv : h.lookup? o name = some v) : r.Has v := by
  unfold Heap.lookup? at hv
  split at hv
  · rename_i holder hholder
    exact hc.has_member? (hc.objects_chainFrom _ ho _ (List.mem_of_find?_eq_some hholder)) hv
  · obtain ⟨f, hf, hresolve⟩ := Option.bind_eq_some_iff.1 hv
    exact hc.has_resolve? (hc.members o f ho hf) hresolve

/-- A function that a value of the region refers to. -/
theorem holds_asFunction? (hc : r.Closed bodies h) {v : Value} (hv : r.Has v)
    {function : Function} (hf : h.asFunction? v = some function) :
    r.Holds bodies function.code := by
  cases v with
  | function id => exact hc.code id function hv hf
  | number _ | atom _ | null | object _ => simp [Heap.asFunction?] at hf

/-- The frame in which the body of a method is evaluated lies inside the
region. -/
theorem frames_frameOf? (hc : r.Closed bodies h) {o : ObjectId} (ho : r.objects o) :
    r.frames ((h.frameOf? o).getD Heap.root) := by
  cases hf : h.frameOf? o with
  | none => exact hc.root
  | some f => exact hc.members o f ho hf

end Closed

/-! ## Operations -/

section

variable {r : Region} {bodies : Expr → Prop} {h : Heap}

theorem closed_define (hc : r.Closed bodies h) (f : FrameId) (name : String) {value : Value}
    (hv : r.Has value) : r.Closed bodies (h.define f name value) where
  root := hc.root
  newFrames g hg := hc.newFrames g (by simpa using hg)
  newFunctions := hc.newFunctions
  newObjects := hc.newObjects
  outer g g' hg hlink := hc.outer g g' hg (by simpa using hlink)
  values g other v hg hown := by
    rw [Heap.define, Scopes.own?_define] at hown
    split at hown
    · obtain rfl := Option.some.inj hown
      exact hv
    · exact hc.values g other v hg hown
  members := hc.members
  code := hc.code

theorem closed_setMember (hc : r.Closed bodies h) (o : ObjectId) (name : String) {value : Value}
    (hv : r.Has value) : r.Closed bodies (h.setMember o name value) := by
  unfold Heap.setMember
  split
  · exact closed_define hc _ name hv
  · exact hc

theorem closed_defineAll (hc : r.Closed bodies h) (f : FrameId) {bindings : Bindings Value}
    (hv : ∀ binding ∈ bindings, r.Has binding.2) :
    r.Closed bodies { h with scopes := h.scopes.defineAll f bindings } := by
  induction bindings generalizing h with
  | nil => exact hc
  | cons binding bindings ih =>
    exact ih (closed_define hc f binding.1 (hv binding (by simp)))
      fun other hother => hv other (List.mem_cons_of_mem _ hother)

theorem closed_newFrame (hc : r.Closed bodies h) {outer : FrameId} (ho : r.frames outer) :
    r.Closed bodies (h.newFrame (some outer)).2 where
  root := hc.root
  newFrames g hg := hc.newFrames g (Nat.le_trans (Nat.le_succ _) (by simpa using hg))
  newFunctions := hc.newFunctions
  newObjects := hc.newObjects
  outer g g' hg hlink := by
    have hpush := Scopes.outer?_push h.scopes (some outer) g
    rw [show (h.newFrame (some outer)).2.scopes = (h.scopes.push (some outer)).2 from rfl, hpush]
      at hlink
    split at hlink
    · obtain ⟨heq, -⟩ := Option.filter_eq_some_iff.1 hlink
      obtain rfl := Option.some.inj heq
      exact ho
    · exact hc.outer g g' hg hlink
  values g name v hg hown := hc.values g name v hg (by simpa using hown)
  members := hc.members
  code := hc.code

theorem closed_newFunction (hc : r.Closed bodies h) (name : String) {code : Code}
    (hcode : r.Holds bodies code) : r.Closed bodies (h.newFunction name code).2 where
  root := hc.root
  newFrames := hc.newFrames
  newFunctions id hid :=
    hc.newFunctions id (Nat.le_trans (Nat.le_succ _) (by simpa [Heap.newFunction] using hid))
  newObjects := hc.newObjects
  outer := hc.outer
  values := hc.values
  members := hc.members
  code id function hid hfunction := by
    rw [Heap.functions_newFunction] at hfunction
    split at hfunction
    · obtain rfl : ⟨name, code⟩ = function := by simpa using hfunction
      exact hcode
    · exact hc.code id function hid hfunction

theorem closed_allocate (hc : r.Closed bodies h) (name : Option String) {outer : FrameId}
    (ho : r.frames outer) : r.Closed bodies (h.allocate name outer) where
  root := hc.root
  newFrames := (closed_newFrame hc ho).newFrames
  newFunctions := hc.newFunctions
  newObjects o hnew :=
    hc.newObjects o (Nat.le_trans (Nat.le_succ _) (by simpa [Heap.allocate] using hnew))
  outer := (closed_newFrame hc ho).outer
  values := (closed_newFrame hc ho).values
  members o f hobject hf := by
    rw [Heap.frameOf?_allocate] at hf
    split at hf
    · obtain rfl : h.scopes.size = f := by simpa using hf
      exact hc.newFrames _ (Nat.le_refl _)
    · exact hc.members o f hobject hf
  code := hc.code

/-! ### Composed operations -/

theorem closed_defineFunction (hc : r.Closed bodies h) (f : FrameId) (name : String)
    {code : Code} (hcode : r.Holds bodies code) :
    r.Closed bodies (h.defineFunction f name code).2 := by
  rw [Heap.defineFunction_eq]
  exact closed_define (closed_newFunction hc name hcode) f name
    (hc.newFunctions _ (Nat.le_refl _))

theorem closed_defineMember (hc : r.Closed bodies h) (o : ObjectId) (name : String)
    {code : Code} (hcode : r.Holds bodies code) :
    r.Closed bodies (h.defineMember o name code) := by
  rw [Heap.defineMember_eq]
  exact closed_setMember (closed_newFunction hc name hcode) o name
    (hc.newFunctions _ (Nat.le_refl _))

/-- Code of an object that evaluates nothing. -/
theorem holds_accessor {o : ObjectId} (ho : r.objects o) {code : Code}
    (howner : code.owner? = some o) (hbody : code.body? = none) : r.Holds bodies code where
  owner p hp := by
    obtain rfl := Option.some.inj (howner.symm.trans hp)
    exact ho
  captured f hf := by cases code <;> simp_all [Code.captured?, Code.owner?]
  body e he := by simp [hbody] at he

/-- A function defined in a frame of the region. -/
theorem holds_closure {parameters : List String} {body : Expr} {f : FrameId} (hf : r.frames f)
    (hbody : bodies body) : r.Holds bodies (.closure parameters body f) where
  owner o ho := by simp [Code.owner?] at ho
  captured g hg := by
    obtain rfl := Option.some.inj hg
    exact hf
  body e he := by
    obtain rfl := Option.some.inj he
    exact hbody

/-- A method of an object of the region. -/
theorem holds_method {parameters : List String} {body : Expr} {o : ObjectId}
    (ho : r.objects o) (hbody : bodies body) : r.Holds bodies (.method parameters body o) where
  owner p hp := by
    obtain rfl := Option.some.inj hp
    exact ho
  captured g hg := by simp [Code.captured?] at hg
  body e he := by
    obtain rfl := Option.some.inj he
    exact hbody

theorem closed_newObject (hc : r.Closed bodies h) (name : Option String) {outer : FrameId}
    (ho : r.frames outer) : r.Closed bodies (h.newObject name outer).2 := by
  have hnew : r.objects h.objects.size := hc.newObjects _ (Nat.le_refl _)
  rw [Heap.newObject_eq]
  refine closed_defineMember (closed_defineMember (closed_defineMember
    (closed_allocate hc name ho) _ _ ?_) _ _ ?_) _ _ ?_
  all_goals exact holds_accessor hnew rfl rfl

theorem closed_defineField (hc : r.Closed bodies h) {o : ObjectId} (ho : r.objects o)
    (field : String) {value : Value} (hv : r.Has value) :
    r.Closed bodies (h.defineField o field value) := by
  rw [Heap.defineField_eq]
  refine closed_defineMember (closed_defineMember (closed_setMember hc o field hv) _ _ ?_) _ _ ?_
  all_goals exact holds_accessor ho rfl rfl

end

end Region

/-! ## What can be seen from a frame -/

namespace Heap

/-- The frames that can be got at from a frame: those around it, and those of
the objects and functions that are bound in a frame one can get at. -/
inductive Visible (h : Heap) (E : FrameId) : FrameId → Prop where
  | here : Visible h E E
  | outer {f g : FrameId} (hf : Visible h E f) (hg : h.scopes.outer? f = some g) : Visible h E g
  /-- The frame of an object that is bound. -/
  | object {f g : FrameId} {name : String} {o : ObjectId} (hf : Visible h E f)
      (hv : h.scopes.own? f name = some (.object o)) (hg : h.frameOf? o = some g) :
      Visible h E g
  /-- The frame that a function which is bound was made in. -/
  | captured {f g : FrameId} {name : String} {id : FunctionId} {function : Function}
      (hf : Visible h E f) (hv : h.scopes.own? f name = some (.function id))
      (hid : h.functions[id]? = some function) (hg : function.code.captured? = some g) :
      Visible h E g
  /-- The frame of the object that a function which is bound belongs to. -/
  | owner {f g : FrameId} {name : String} {id : FunctionId} {function : Function} {o : ObjectId}
      (hf : Visible h E f) (hv : h.scopes.own? f name = some (.function id))
      (hid : h.functions[id]? = some function) (ho : function.code.owner? = some o)
      (hg : h.frameOf? o = some g) : Visible h E g

/-- What can be seen from a frame of a closed region is in the region. -/
theorem Visible.frames {r : Region} {bodies : Expr → Prop} {h : Heap} {E f : FrameId}
    (hc : r.Closed bodies h) (hE : r.frames E) (hf : h.Visible E f) : r.frames f := by
  induction hf with
  | here => exact hE
  | outer _ hg ih => exact hc.outer _ _ ih hg
  | object _ hv hg ih => exact hc.members _ _ (hc.values _ _ _ ih hv) hg
  | captured _ hv hid hg ih => exact (hc.code _ _ (hc.values _ _ _ ih hv) hid).captured _ hg
  | owner _ hv hid ho hg ih =>
    exact hc.members _ _ ((hc.code _ _ (hc.values _ _ _ ih hv) hid).owner _ ho) hg

/-- The value is bound in a frame that can be seen from the given one. -/
def Sees (h : Heap) (E : FrameId) (v : Value) : Prop :=
  ∃ f name, h.Visible E f ∧ h.scopes.own? f name = some v

theorem Sees.has {r : Region} {bodies : Expr → Prop} {h : Heap} {E : FrameId} {v : Value}
    (hc : r.Closed bodies h) (hE : r.frames E) (hv : h.Sees E v) : r.Has v := by
  obtain ⟨f, name, hf, hown⟩ := hv
  exact hc.values f name v (hf.frames hc hE) hown

/-- Everything that can be seen from the given frames, and everything that is
still to be made. -/
def horizon (h : Heap) (starts : FrameId → Prop) : Region where
  frames f := h.scopes.size ≤ f ∨ ∃ E, starts E ∧ h.Visible E f
  functions id := h.functions.size ≤ id ∨ ∃ E, starts E ∧ h.Sees E (.function id)
  objects o := h.objects.size ≤ o ∨ ∃ E, starts E ∧ (h.Sees E (.object o) ∨
    ∃ id function, h.Sees E (.function id) ∧ h.functions[id]? = some function ∧
      function.code.owner? = some o)

theorem frames_horizon {h : Heap} {starts : FrameId → Prop} {E : FrameId} (hE : starts E) :
    (h.horizon starts).frames E :=
  .inr ⟨E, hE, .here⟩

/-- What can be seen leads only to what can be seen. -/
theorem closed_horizon {h : Heap} {starts : FrameId → Prop} {bodies : Expr → Prop}
    (hroot : (h.horizon starts).frames root)
    (hbodies : ∀ E id function body, starts E → h.Sees E (.function id) →
      h.functions[id]? = some function → function.code.body? = some body → bodies body) :
    (h.horizon starts).Closed bodies h where
  root := hroot
  newFrames _ hf := .inl hf
  newFunctions _ hid := .inl hid
  newObjects _ ho := .inl ho
  outer f g hf hg := by
    rcases hf with hnew | ⟨E, hE, hf⟩
    · simp [Scopes.outer?_of_size_le _ hnew] at hg
    · exact .inr ⟨E, hE, .outer hf hg⟩
  values f name v hf hv := by
    rcases hf with hnew | ⟨E, hE, hf⟩
    · simp [Scopes.own?_of_size_le _ hnew] at hv
    · cases v with
      | function id => exact .inr ⟨E, hE, f, name, hf, hv⟩
      | object o => exact .inr ⟨E, hE, .inl ⟨f, name, hf, hv⟩⟩
      | number _ | atom _ | null => trivial
  members o g ho hg := by
    rcases ho with hnew | ⟨E, hE, hbound | ⟨id, function, hseen, hid, howner⟩⟩
    · exact absurd ((h.frameOf?_isSome_iff o).1 ⟨g, hg⟩) (Nat.not_lt_of_le hnew)
    · obtain ⟨f, name, hf, hv⟩ := hbound
      exact .inr ⟨E, hE, .object hf hv hg⟩
    · obtain ⟨f, name, hf, hv⟩ := hseen
      exact .inr ⟨E, hE, .owner hf hv hid howner hg⟩
  code id function hid hfunction := by
    rcases hid with hnew | ⟨E, hE, hseen⟩
    · exact absurd (Array.getElem?_eq_some_iff.1 hfunction).1 (Nat.not_lt_of_le hnew)
    · obtain ⟨f, name, hf, hv⟩ := hseen
      exact ⟨fun o ho => .inr ⟨E, hE, .inr ⟨id, function, ⟨f, name, hf, hv⟩, hfunction, ho⟩⟩,
        fun g hg => .inr ⟨E, hE, .captured hf hv hfunction hg⟩,
        fun body hbody => hbodies E id function body hE ⟨f, name, hf, hv⟩ hfunction hbody⟩

/-! ## Functions that have been made -/

/-- Is every function that is bound somewhere among those made so far? -/
def Backed (h : Heap) : Prop :=
  ∀ f name id, h.scopes.own? f name = some (.function id) → id < h.functions.size

namespace Backed

variable {h : Heap}

theorem define (hb : h.Backed) (f : FrameId) (name : String) {value : Value}
    (hv : ∀ id, value = .function id → id < h.functions.size) : (h.define f name value).Backed := by
  intro g other id hown
  rw [Heap.define, Scopes.own?_define] at hown
  split at hown
  · exact hv id (Option.some.inj hown)
  · exact hb g other id hown

theorem setMember (hb : h.Backed) (o : ObjectId) (name : String) {value : Value}
    (hv : ∀ id, value = .function id → id < h.functions.size) :
    (h.setMember o name value).Backed := by
  unfold Heap.setMember
  split
  · exact hb.define _ name hv
  · exact hb

theorem newFrame (hb : h.Backed) (outer : Option FrameId) : (h.newFrame outer).2.Backed := by
  intro f name id hown
  rw [own?_scopes_newFrame] at hown
  exact hb f name id hown

theorem defineAll (hb : h.Backed) (f : FrameId) {bindings : Bindings Value}
    (hv : ∀ binding ∈ bindings, ∀ id, binding.2 = .function id → id < h.functions.size) :
    { h with scopes := h.scopes.defineAll f bindings }.Backed := by
  induction bindings generalizing h with
  | nil => exact hb
  | cons binding bindings ih =>
    exact ih (hb.define f binding.1 (hv binding (by simp)))
      fun other hother => hv other (List.mem_cons_of_mem _ hother)

theorem newFunction (hb : h.Backed) (name : String) (code : Code) :
    (h.newFunction name code).2.Backed := by
  intro f other id hown
  have hlt := hb f other id hown
  simp only [Heap.newFunction, Array.size_push]
  exact Nat.lt_succ_of_lt hlt

theorem allocate (hb : h.Backed) (name : Option String) (outer : FrameId) :
    (h.allocate name outer).Backed :=
  hb.newFrame (some outer)

theorem defineMember (hb : h.Backed) (o : ObjectId) (name : String) (code : Code) :
    (h.defineMember o name code).Backed := by
  rw [defineMember_eq]
  refine (hb.newFunction name code).setMember o name ?_
  rintro id ⟨⟩
  simp [Heap.newFunction]

theorem defineField (hb : h.Backed) (o : ObjectId) (field : String) {value : Value}
    (hv : ∀ id, value = .function id → id < h.functions.size) :
    (h.defineField o field value).Backed := by
  rw [defineField_eq]
  exact ((hb.setMember o field hv).defineMember o _ _).defineMember o _ _

end Backed

end Heap

end PrototypeLisp
