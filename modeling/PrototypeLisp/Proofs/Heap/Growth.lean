/-
PrototypeLisp.Proofs.Heap.Growth — the heap only grows.

`Grows h h'` says that `h'` has everything `h` has: the frames with their
outer links, the names of each frame in their order, the functions and the
objects, and that an object which is new in `h'` has a frame that is new too.
Values may differ. Every operation of the heap grows it, and growing composes,
so a whole run grows the heap; what once was a scope, was allocated or
resolved stays so.
-/
import PrototypeLisp.Proofs.Heap.Ownership

namespace PrototypeLisp

namespace Heap

/-- Everything on the first heap is on the second. -/
structure Grows (h h' : Heap) : Prop where
  size_le : h.scopes.size ≤ h'.scopes.size
  outer : ∀ f, f < h.scopes.size → h'.scopes.outer? f = h.scopes.outer? f
  names : ∀ f, (h.scopes.bindings f).names <+: (h'.scopes.bindings f).names
  functions : ∀ (id : FunctionId) (function : Function), h.functions[id]? = some function →
    h'.functions[id]? = some function
  objects : ∀ (o : ObjectId) (object : Object), h.objects[o]? = some object →
    h'.objects[o]? = some object
  owners : ∀ o f, h'.frameOf? o = some f → f < h.scopes.size → h.frameOf? o = some f

namespace Grows

variable {h h' h'' : Heap}

theorem refl (h : Heap) : Grows h h where
  size_le := Nat.le_refl _
  outer _ _ := rfl
  names _ := List.prefix_refl _
  functions _ _ hid := hid
  objects _ _ ho := ho
  owners _ _ ho _ := ho

theorem trans (h₁ : Grows h h') (h₂ : Grows h' h'') : Grows h h'' where
  size_le := Nat.le_trans h₁.size_le h₂.size_le
  outer f hf := (h₂.outer f (Nat.lt_of_lt_of_le hf h₁.size_le)).trans (h₁.outer f hf)
  names f := (h₁.names f).trans (h₂.names f)
  functions id function hid := h₂.functions id function (h₁.functions id function hid)
  objects o object ho := h₂.objects o object (h₁.objects o object ho)
  owners o f ho hf :=
    h₁.owners o f (h₂.owners o f ho (Nat.lt_of_lt_of_le hf h₁.size_le)) hf

theorem functions_size_le (hg : Grows h h') : h.functions.size ≤ h'.functions.size := by
  refine Nat.le_of_not_lt fun hlast => ?_
  have hkept := hg.functions _ _ (Array.getElem?_eq_getElem hlast)
  exact absurd (Array.getElem?_eq_some_iff.1 hkept).1 (Nat.lt_irrefl _)

theorem objects_size_le (hg : Grows h h') : h.objects.size ≤ h'.objects.size := by
  refine Nat.le_of_not_lt fun hlast => ?_
  have hkept := hg.objects _ _ (Array.getElem?_eq_getElem hlast)
  exact absurd (Array.getElem?_eq_some_iff.1 hkept).1 (Nat.lt_irrefl _)

theorem frameOf? (hg : Grows h h') {o : ObjectId} {f : FrameId}
    (ho : h.frameOf? o = some f) : h'.frameOf? o = some f := by
  obtain ⟨object, hobject, rfl⟩ := Option.map_eq_some_iff.1 ho
  exact Option.map_eq_some_iff.2 ⟨object, hg.objects o object hobject, rfl⟩

/-- A scope stays a scope: no object ever takes it over. -/
theorem isScope (hg : Grows h h') {f : FrameId} (hf : h.IsScope f) : h'.IsScope f where
  lt_size := Nat.lt_of_lt_of_le hf.lt_size hg.size_le
  not_owned := by
    rintro ⟨o, ho⟩
    exact hf.not_owned ⟨o, hg.owners o f ho hf.lt_size⟩

theorem allocated (hg : Grows h h') {v : Value} (hv : h.Allocated v) : h'.Allocated v := by
  cases v with
  | function id => exact Nat.lt_of_lt_of_le hv hg.functions_size_le
  | object o => exact Nat.lt_of_lt_of_le hv hg.objects_size_le
  | number _ | atom _ | null => trivial

theorem declaresField (hg : Grows h h') {o : ObjectId} {field : String}
    (hd : h.DeclaresField o field) : h'.DeclaresField o field := by
  obtain ⟨id, function, hid, hcode⟩ := hd
  exact ⟨id, function, hg.functions id function hid, hcode⟩

/-- A name that is bound in a frame stays bound in it. -/
theorem own?_isSome (hg : Grows h h') {f : FrameId} {name : String}
    (hn : (h.scopes.own? f name).isSome = true) : (h'.scopes.own? f name).isSome = true := by
  unfold Scopes.own? at hn ⊢
  rw [Bindings.isSome_get?_iff] at hn ⊢
  exact (hg.names f).subset hn

theorem member?_isSome (hg : Grows h h') {o : ObjectId} {name : String}
    (hn : (h.member? o name).isSome = true) : (h'.member? o name).isSome = true := by
  unfold Heap.member? at hn ⊢
  cases ho : h.frameOf? o with
  | none => simp [ho] at hn
  | some f =>
    rw [ho, Option.bind_some] at hn
    rw [hg.frameOf? ho, Option.bind_some]
    exact hg.own?_isSome hn

end Grows

/-! ## The elementary operations -/

theorem grows_define (h : Heap) (f : FrameId) (name : String) (value : Value) :
    Grows h (h.define f name value) where
  size_le := by simp
  outer g _ := by simp
  names g := by
    simp only [define, Scopes.bindings_define]
    split
    · exact Bindings.names_prefix_set _ _ _
    · exact List.prefix_refl _
  functions _ _ hid := hid
  objects _ _ ho := ho
  owners _ _ ho _ := ho

theorem grows_setMember (h : Heap) (o : ObjectId) (name : String) (value : Value) :
    Grows h (h.setMember o name value) := by
  unfold setMember
  split
  · exact grows_define _ _ _ _
  · exact Grows.refl h

theorem grows_newFunction (h : Heap) (name : String) (code : Code) :
    Grows h (h.newFunction name code).2 where
  size_le := Nat.le_refl _
  outer _ _ := rfl
  names _ := List.prefix_refl _
  functions id function hid := by
    have hlt : id < h.functions.size := (Array.getElem?_eq_some_iff.1 hid).1
    rw [functions_newFunction, if_neg (Nat.ne_of_lt hlt), hid]
  objects _ _ ho := ho
  owners _ _ ho _ := ho

theorem grows_newFrame (h : Heap) {outer : FrameId} (ho : outer < h.scopes.size) :
    Grows h (h.newFrame (some outer)).2 where
  size_le := by simp
  outer f hf := by rw [outer?_scopes_newFrame h ho, if_neg (Nat.ne_of_lt hf)]
  names f := by
    have hsame := bindings_scopes_newFrame h (some outer) f
    simp [hsame]
  functions _ _ hid := hid
  objects _ _ hobject := hobject
  owners _ _ hframe _ := hframe

theorem grows_allocate (h : Heap) (name : Option String) {outer : FrameId}
    (ho : outer < h.scopes.size) : Grows h (h.allocate name outer) where
  size_le := (grows_newFrame h ho).size_le
  outer := (grows_newFrame h ho).outer
  names := (grows_newFrame h ho).names
  functions := (grows_newFrame h ho).functions
  objects o object hobject := by
    have hlt : o < h.objects.size := (Array.getElem?_eq_some_iff.1 hobject).1
    unfold allocate
    rw [Array.getElem?_push, if_neg (Nat.ne_of_lt hlt), hobject]
  owners o f hframe hf := by
    rw [frameOf?_allocate] at hframe
    split at hframe
    · obtain rfl : h.scopes.size = f := by simpa using hframe
      exact absurd hf (Nat.lt_irrefl _)
    · exact hframe

/-! ## The composed operations -/

theorem grows_defineFunction (h : Heap) (f : FrameId) (name : String) (code : Code) :
    Grows h (h.defineFunction f name code).2 := by
  rw [defineFunction_eq]
  exact (grows_newFunction h name code).trans (grows_define _ _ _ _)

theorem grows_defineMember (h : Heap) (o : ObjectId) (name : String) (code : Code) :
    Grows h (h.defineMember o name code) := by
  rw [defineMember_eq]
  exact (grows_newFunction h name code).trans (grows_setMember _ _ _ _)

theorem grows_defineField (h : Heap) (o : ObjectId) (field : String) (value : Value) :
    Grows h (h.defineField o field value) := by
  rw [defineField_eq]
  exact ((grows_setMember h o field value).trans (grows_defineMember _ _ _ _)).trans
    (grows_defineMember _ _ _ _)

theorem grows_newObject (h : Heap) (name : Option String) {outer : FrameId}
    (ho : outer < h.scopes.size) : Grows h (h.newObject name outer).2 := by
  rw [newObject_eq]
  exact (((grows_allocate h name ho).trans (grows_defineMember _ _ _ _)).trans
    (grows_defineMember _ _ _ _)).trans (grows_defineMember _ _ _ _)

/-! ## Resolution -/

end Heap

namespace Scopes

variable {α : Type}

theorem chain_of_none {s : Scopes α} {f : FrameId} (hf : s.outer? f = none) :
    s.chain f = [f] := by
  rw [chain]
  split <;> simp_all

theorem chain_of_some {s : Scopes α} {f o : FrameId} (hf : s.outer? f = some o) :
    s.chain f = f :: s.chain o := by
  rw [chain]
  split <;> simp_all

/-- A frame's own binding comes first; only without one is the frame around it
asked. -/
theorem resolve?_eq (s : Scopes α) (f : FrameId) (name : String) :
    s.resolve? f name = (s.own? f name).or ((s.outer? f).bind (s.resolve? · name)) := by
  unfold resolve?
  rw [find?]
  cases hown : s.own? f name with
  | some value => simp [contains, hown]
  | none =>
    rw [if_neg (by simp [contains, hown]), Option.none_or]
    split <;> simp_all

/-- A name means what the first frame on the chain that binds it has. -/
theorem resolve?_eq_findSome? (s : Scopes α) (f : FrameId) (name : String) :
    s.resolve? f name = (s.chain f).findSome? (s.own? · name) := by
  induction f using Nat.strongRecOn with
  | _ f ih =>
    rw [resolve?_eq]
    cases ho : s.outer? f with
    | none => simp [chain_of_none ho]
    | some o =>
      rw [chain_of_some ho, List.findSome?_cons, Option.bind_some, ih o (lt_of_outer? ho)]
      cases s.own? f name <;> rfl

/-- A name resolves when some frame on the chain binds it. -/
theorem isSome_resolve?_iff (s : Scopes α) (f : FrameId) (name : String) :
    (s.resolve? f name).isSome = true ↔ ∃ g ∈ s.chain f, (s.own? g name).isSome = true := by
  rw [resolve?_eq_findSome?, List.findSome?_isSome_iff]

end Scopes

namespace Heap

/-- The frames around a frame stay the same. -/
theorem Grows.chain {h h' : Heap} (hg : Grows h h') {f : FrameId} (hf : f < h.scopes.size) :
    h'.scopes.chain f = h.scopes.chain f := by
  induction f using Nat.strongRecOn with
  | _ f ih =>
    have hlink := hg.outer f hf
    cases ho : h.scopes.outer? f with
    | none => rw [Scopes.chain_of_none ho, Scopes.chain_of_none (hlink.trans ho)]
    | some o =>
      have hlt := Scopes.lt_of_outer? ho
      rw [Scopes.chain_of_some ho, Scopes.chain_of_some (hlink.trans ho),
        ih o hlt (Nat.lt_trans hlt hf)]

/-- A name that resolves from a frame goes on to resolve from it. -/
theorem Grows.resolve?_isSome {h h' : Heap} (hg : Grows h h') {f : FrameId}
    (hf : f < h.scopes.size) {name : String}
    (hr : (h.scopes.resolve? f name).isSome = true) :
    (h'.scopes.resolve? f name).isSome = true := by
  rw [Scopes.isSome_resolve?_iff] at hr ⊢
  obtain ⟨g, hmem, hown⟩ := hr
  exact ⟨g, by rwa [hg.chain hf], hg.own?_isSome hown⟩

end Heap

end PrototypeLisp
