/-
PrototypeLisp.Proofs.Heap.Seclusion — objects that nothing refers to.

A new object is secluded: no frame but its own holds the object, its accessors
or its methods, and from no other frame can its frame be got at. Everything
outside the object is then a closed region (`outside`), and a heap with this
region closed is called sealed. Making an object seals it, and giving it
members keeps it sealed (`Furnished`): the new functions belong to the object
and only its own frame is written.
-/
import PrototypeLisp.Proofs.Heap.Region
import PrototypeLisp.Proofs.Heap.WellFormed

namespace PrototypeLisp.Heap

theorem WellFormed.backed {h : Heap} (hw : h.WellFormed) : h.Backed :=
  fun f name id hown => hw.values f name (.function id) hown

/-! ## Secluded objects -/

/-- Is the value the object itself, or code that belongs to it? -/
def RefersTo (h : Heap) (o : ObjectId) : Value → Prop
  | .object p => p = o
  | .function id =>
    ∃ function, h.functions[id]? = some function ∧ function.code.owner? = some o
  | .number _ | .atom _ | .null => False

/-- The object has the frame `g`, and from every other frame neither this
frame nor the object nor any of its code can be got at. -/
structure Secluded (h : Heap) (o : ObjectId) (g : FrameId) : Prop where
  frame : h.frameOf? o = some g
  /-- No name outside the object's own frame is bound to it. -/
  unheld : ∀ f name v, f ≠ g → h.scopes.own? f name = some v → ¬ h.RefersTo o v
  unreachable : ∀ f, f ≠ g → ¬ h.Visible f g
  unseen : ∀ f v, f ≠ g → h.Sees f v → ¬ h.RefersTo o v

/-- Everything but the object, its frame and its code. -/
def outside (h : Heap) (o : ObjectId) (g : FrameId) : Region where
  frames f := f ≠ g
  functions id := ∀ function, h.functions[id]? = some function → function.code.owner? ≠ some o
  objects p := p ≠ o

theorem has_outside_iff (h : Heap) (o : ObjectId) (g : FrameId) (v : Value) :
    (h.outside o g).Has v ↔ ¬ h.RefersTo o v := by
  cases v with
  | function id => simp [Region.Has, outside, RefersTo]
  | object p => exact Iff.rfl
  | number _ | atom _ | null => exact ⟨fun _ => id, fun _ => trivial⟩

/-- Which code belongs outside does not depend on the heap. -/
theorem holds_outside {h h' : Heap} {o : ObjectId} {g : FrameId} {bodies : Expr → Prop}
    {code : Code} (hc : (h.outside o g).Holds bodies code) : (h'.outside o g).Holds bodies code :=
  ⟨hc.owner, hc.captured, hc.body⟩

/-- What is outside the object leads to nothing inside. -/
structure Sealed (h : Heap) (o : ObjectId) (g : FrameId) : Prop where
  frame : h.frameOf? o = some g
  lt_size : g < h.scopes.size
  closed : (h.outside o g).Closed (fun _ => True) h
  backed : h.Backed

theorem Sealed.secluded {h : Heap} {o : ObjectId} {g : FrameId} (hs : h.Sealed o g) :
    h.Secluded o g where
  frame := hs.frame
  unheld f name v hf hv := (has_outside_iff h o g v).1 (hs.closed.values f name v hf hv)
  unreachable _ hf hvisible := hvisible.frames hs.closed hf rfl
  unseen _ v hf hv := (has_outside_iff h o g v).1 (hv.has hs.closed hf)

/-! ## While others compute -/

/-- Between the two heaps the frame of the object has not been touched, and no
function has been lost. -/
structure Untouched (o : ObjectId) (g : FrameId) (h₀ h : Heap) : Prop where
  frame : h.frameOf? o = some g
  lt_size : g < h.scopes.size
  bindings : h.scopes.bindings g = h₀.scopes.bindings g
  functions : ∀ (id : FunctionId) (function : Function), h₀.functions[id]? = some function →
    h.functions[id]? = some function

/-- A heap that a computation outside has led to is sealed again: what has
been made meanwhile does not belong to the object. -/
theorem sealed_of_closed {h₀ h : Heap} {o : ObjectId} {g : FrameId}
    (hc : (h₀.outside o g).Closed (fun _ => True) h) (hu : Untouched o g h₀ h)
    (hb : h.Backed) : h.Sealed o g where
  frame := hu.frame
  lt_size := hu.lt_size
  backed := hb
  closed := {
    root := hc.root
    newFrames := hc.newFrames
    newFunctions := fun id hid function hfunction => by
      exact absurd (Array.getElem?_eq_some_iff.1 hfunction).1 (Nat.not_lt_of_le hid)
    newObjects := hc.newObjects
    outer := hc.outer
    values := fun f name v hf hv => by
      have hv' := hc.values f name v hf hv
      cases v with
      | function id =>
        intro function hfunction howner
        exact (hc.code id function hv' hfunction).owner o howner rfl
      | object p => exact hv'
      | number _ | atom _ | null => trivial
    members := hc.members
    code := fun id function hid hfunction => by
      have hold : (h₀.outside o g).functions id := by
        intro function' hfunction'
        exact hid function' (hu.functions id function' hfunction')
      exact holds_outside (hc.code id function hold hfunction) }

/-! ## Giving the object members -/

/-- The second heap differs from the first in bindings of the frame `g` and in
new code of the object `o`. -/
structure Furnished (o : ObjectId) (g : FrameId) (h h' : Heap) : Prop where
  own? : ∀ f name, f ≠ g → h'.scopes.own? f name = h.scopes.own? f name
  outer? : ∀ f, h'.scopes.outer? f = h.scopes.outer? f
  size : h'.scopes.size = h.scopes.size
  objects : h'.objects = h.objects
  kept : ∀ (id : FunctionId) (function : Function), h.functions[id]? = some function →
    h'.functions[id]? = some function
  owned : ∀ (id : FunctionId) (function : Function), h'.functions[id]? = some function →
    h.functions[id]? = some function ∨ function.code.owner? = some o

section

variable {o : ObjectId} {g : FrameId} {h h' h'' : Heap}

theorem Furnished.frameOf? (hF : Furnished o g h h') (p : ObjectId) :
    h'.frameOf? p = h.frameOf? p := by
  rw [Heap.frameOf?, Heap.frameOf?, hF.objects]

theorem Furnished.trans (h₁ : Furnished o g h h') (h₂ : Furnished o g h' h'') :
    Furnished o g h h'' where
  own? f name hf := (h₂.own? f name hf).trans (h₁.own? f name hf)
  outer? f := (h₂.outer? f).trans (h₁.outer? f)
  size := h₂.size.trans h₁.size
  objects := h₂.objects.trans h₁.objects
  kept id function hid := h₂.kept id function (h₁.kept id function hid)
  owned id function hid := by
    rcases h₂.owned id function hid with hid' | howner
    · exact h₁.owned id function hid'
    · exact .inr howner

theorem furnished_setMember (hf : h.frameOf? o = some g) (name : String) (value : Value) :
    Furnished o g h (h.setMember o name value) := by
  rw [setMember_eq_define hf]
  exact {
    own? := fun f other hne => by
      rw [define, Scopes.own?_define, if_neg]
      rintro ⟨rfl, -, -⟩
      exact hne rfl
    outer? := fun f => outer?_scopes_define h g f name value
    size := size_scopes_define h g name value
    objects := rfl
    kept := fun _ _ hid => hid
    owned := fun _ _ hid => .inl hid }

theorem furnished_newFunction (name : String) {code : Code} (howner : code.owner? = some o) :
    Furnished o g h (h.newFunction name code).2 where
  own? _ _ _ := rfl
  outer? _ := rfl
  size := rfl
  objects := rfl
  kept := (grows_newFunction h name code).functions
  owned id function hid := by
    rw [functions_newFunction] at hid
    split at hid
    · obtain rfl := Option.some.inj hid
      exact .inr howner
    · exact .inl hid

theorem furnished_defineMember (hf : h.frameOf? o = some g) (name : String) {code : Code}
    (howner : code.owner? = some o) : Furnished o g h (h.defineMember o name code) := by
  have hf' : (h.newFunction name code).2.frameOf? o = some g := hf
  rw [defineMember_eq]
  exact (furnished_newFunction name howner).trans (furnished_setMember hf' name _)

theorem furnished_defineField (hf : h.frameOf? o = some g) (field : String) (value : Value) :
    Furnished o g h (h.defineField o field value) := by
  rw [defineField_eq]
  refine ((furnished_setMember hf field value).trans (furnished_defineMember ?_ _ rfl)).trans
    (furnished_defineMember ?_ _ rfl)
  · simpa using hf
  · simpa using hf

/-- New members of the object stay inside. -/
theorem Sealed.furnished (hs : h.Sealed o g) (hF : Furnished o g h h') (hb : h'.Backed) :
    h'.Sealed o g where
  frame := (hF.frameOf? o).trans hs.frame
  lt_size := by
    rw [hF.size]
    exact hs.lt_size
  backed := hb
  closed := {
    root := hs.closed.root
    newFrames := fun f hf => hs.closed.newFrames f (by rwa [← hF.size])
    newFunctions := fun id hid function hfunction => by
      exact absurd (Array.getElem?_eq_some_iff.1 hfunction).1 (Nat.not_lt_of_le hid)
    newObjects := fun p hp => hs.closed.newObjects p (by rwa [← hF.objects])
    outer := fun f f' hf hlink => hs.closed.outer f f' hf (by rwa [← hF.outer? f])
    values := fun f name v hf hv => by
      rw [hF.own? f name hf] at hv
      have hv' := hs.closed.values f name v hf hv
      cases v with
      | function id =>
        -- a bound function has been made before, so it is not one of the new ones
        have hold := Array.getElem?_eq_getElem (hs.backed f name id hv)
        intro function hfunction
        obtain rfl := Option.some.inj ((hF.kept id _ hold).symm.trans hfunction)
        exact hv' _ hold
      | object p => exact hv'
      | number _ | atom _ | null => trivial
    members := fun p f hp hframe => hs.closed.members p f hp ((hF.frameOf? p).symm.trans hframe)
    code := fun id function hid hfunction => by
      rcases hF.owned id function hfunction with hold | howner
      · refine holds_outside (hs.closed.code id function ?_ hold)
        intro function' hfunction'
        exact hid function' (hF.kept id function' hfunction')
      · exact absurd howner (hid function hfunction) }

theorem Sealed.defineMember (hs : h.Sealed o g) (name : String) {code : Code}
    (howner : code.owner? = some o) : (h.defineMember o name code).Sealed o g :=
  hs.furnished (furnished_defineMember hs.frame name howner) (hs.backed.defineMember o name code)

theorem Sealed.defineField (hs : h.Sealed o g) (field : String) {value : Value}
    (hv : ∀ id, value = .function id → id < h.functions.size) :
    (h.defineField o field value).Sealed o g :=
  hs.furnished (furnished_defineField hs.frame field value) (hs.backed.defineField o field hv)

end

/-! ## New objects -/

/-- An object that has just been allocated is sealed: nothing can refer to
what did not exist. -/
theorem sealed_allocate {h : Heap} (hw : h.WellFormed) (name : Option String) (outer : FrameId) :
    (h.allocate name outer).Sealed h.objects.size h.scopes.size where
  frame := by rw [frameOf?_allocate, if_pos rfl]
  lt_size := by simp [allocate]
  backed := hw.backed.allocate name outer
  closed := {
    root := Nat.ne_of_lt hw.root.lt_size
    newFrames := fun f hf => by
      have hle : h.scopes.size + 1 ≤ f := by simpa [allocate] using hf
      exact Nat.ne_of_gt hle
    newFunctions := fun id hid function hfunction => by
      exact absurd (Array.getElem?_eq_some_iff.1 hfunction).1 (Nat.not_lt_of_le hid)
    newObjects := fun p hp => by
      have hle : h.objects.size + 1 ≤ p := by simpa [allocate] using hp
      exact Nat.ne_of_gt hle
    outer := fun f f' hf hlink => by
      -- an outer frame is older, and no frame is younger than the new one
      have hlt : f' < f := Scopes.lt_of_outer? hlink
      have hsize : f < h.scopes.size + 1 := by
        refine Nat.lt_of_not_le fun hle => ?_
        rw [Scopes.outer?_of_size_le _ (by simpa [allocate] using hle)] at hlink
        cases hlink
      exact Nat.ne_of_lt (Nat.lt_of_lt_of_le hlt (Nat.le_of_lt_succ hsize))
    values := fun f other v _ hv => by
      have hown : h.scopes.own? f other = some v :=
        (own?_scopes_newFrame h (some outer) f other).symm.trans hv
      have hallocated := hw.values f other v hown
      cases v with
      | function id =>
        intro function hfunction howner
        exact absurd (hw.owner_lt hfunction howner) (Nat.lt_irrefl _)
      | object p => exact Nat.ne_of_lt hallocated
      | number _ | atom _ | null => trivial
    members := fun p f hp hframe => by
      rw [frameOf?_allocate, if_neg hp] at hframe
      exact Nat.ne_of_lt (hw.frames p f hframe)
    code := fun id function _ hfunction => by
      refine ⟨?_, ?_, fun _ _ => trivial⟩
      · intro p howner
        exact Nat.ne_of_lt (hw.owner_lt hfunction howner)
      · intro f hcaptured
        exact Nat.ne_of_lt (hw.captured id function f hfunction hcaptured).lt_size }

/-- A new object with its accessors is sealed. -/
theorem sealed_newObject {h : Heap} (hw : h.WellFormed) (name : Option String) (outer : FrameId) :
    (h.newObject name outer).2.Sealed h.objects.size h.scopes.size := by
  rw [newObject_eq]
  exact (((sealed_allocate hw name outer).defineMember _ rfl).defineMember _ rfl).defineMember _ rfl

end PrototypeLisp.Heap
