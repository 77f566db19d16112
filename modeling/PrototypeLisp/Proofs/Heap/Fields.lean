/-
PrototypeLisp.Proofs.Heap.Fields — the fields of one object.

A field puts three names into the frame of its object: its own and those of
its getter and its setter. `HasField` says that all three are in place. A
field keeps them while others compute, when it is set, and when the object
gets another field, unless one of the two is named like the other followed by
`=`: then the getter of the one and the setter of the other have one name.
-/
import PrototypeLisp.Proofs.Heap.Accessors
import PrototypeLisp.Proofs.Heap.Seclusion

namespace PrototypeLisp.Heap

/-! ## The names of accessors -/

theorem getterName_inj {a b : String} : getterName a = getterName b ↔ a = b := by
  simp [getterName]

theorem setterName_inj {a b : String} : setterName a = setterName b ↔ a = b := by
  simp [setterName]

/-- The name of a setter is that of a getter when the one field is named like
the other followed by `=`. -/
theorem setterName_eq_getterName_iff {a b : String} :
    setterName a = getterName b ↔ b = a ++ "=" := by
  rw [setterName, getterName, String.append_assoc]
  simp [eq_comm]

/-- A name without a dot is not the name of an accessor. -/
theorem ne_accessorName {name : String} (hplain : isMethodName name = false) (field : String) :
    name ≠ getterName field ∧ name ≠ setterName field := by
  constructor
  · rintro rfl
    simp at hplain
  · rintro rfl
    simp at hplain

/-- Two fields of one object that do not get into each other's way. -/
structure Apart (a b : String) : Prop where
  ne : a ≠ b
  left : b ≠ a ++ "="
  right : a ≠ b ++ "="

/-! ## The code in an object's own frame -/

/-- The code that an object has under a name in its own frame. -/
def ownCode? (h : Heap) (o : ObjectId) (name : String) : Option Code :=
  ((h.member? o name).bind h.asFunction?).map Function.code

theorem ownCode?_eq_some_iff {h : Heap} {o : ObjectId} {name : String} {code : Code} :
    h.ownCode? o name = some code ↔ ∃ (id : FunctionId) (function : Function),
      h.member? o name = some (.function id) ∧ h.functions[id]? = some function ∧
        function.code = code := by
  constructor
  · intro hcode
    obtain ⟨function, hfunction, rfl⟩ := Option.map_eq_some_iff.1 hcode
    obtain ⟨member, hmember, hfunction⟩ := Option.bind_eq_some_iff.1 hfunction
    cases member with
    | function id => exact ⟨id, function, hmember, hfunction, rfl⟩
    | number _ | atom _ | null | object _ => simp [asFunction?] at hfunction
  · rintro ⟨id, function, hmember, hfunction, rfl⟩
    simp [ownCode?, hmember, asFunction?, hfunction]

/-- An object finds its own code first. -/
theorem memberCode?_of_ownCode? {h : Heap} {o : ObjectId} {name : String} {code : Code}
    (hcode : h.ownCode? o name = some code) : h.memberCode? o name = some code := by
  obtain ⟨id, function, hmember, -⟩ := ownCode?_eq_some_iff.1 hcode
  obtain ⟨g, hg, -⟩ := Option.bind_eq_some_iff.1 hmember
  have ho : o < h.objects.size := (h.frameOf?_isSome_iff o).1 ⟨g, hg⟩
  rw [memberCode?, lookup?_of_member? ho (by rw [hmember]; rfl)]
  exact hcode

@[simp] theorem size_scopes_defineMember (h : Heap) (o : ObjectId) (name : String) (code : Code) :
    (h.defineMember o name code).scopes.size = h.scopes.size := by
  rw [defineMember_eq, size_scopes_setMember]
  rfl

theorem functions_defineField (h : Heap) (o : ObjectId) (field : String) (value : Value) :
    (h.defineField o field value).functions =
      (h.functions.push ⟨getterName field, .getField o field⟩).push
        ⟨setterName field, .setField o field⟩ := by
  rw [defineField_eq, functions_defineMember, newFunction, functions_defineMember, newFunction,
    functions_setMember]

/-- A new field, as its object sees it: the field is bound first, then its
getter, then its setter. -/
theorem member?_defineField {h : Heap} {o : ObjectId} {g : FrameId} (hf : h.frameOf? o = some g)
    (hlt : g < h.scopes.size) (field : String) (value : Value) (name : String) :
    (h.defineField o field value).member? o name =
      if name = setterName field then some (.function (h.functions.size + 1))
      else if name = getterName field then some (.function h.functions.size)
      else if name = field then some value
      else h.member? o name := by
  have hf₁ : (h.setMember o field value).frameOf? o = some g := by simpa using hf
  have hlt₁ : g < (h.setMember o field value).scopes.size := by simpa using hlt
  have hf₂ := (frameOf?_defineMember _ o (getterName field) (.getField o field) o).trans hf₁
  have hlt₂ : g < ((h.setMember o field value).defineMember o (getterName field)
      (.getField o field)).scopes.size := by simpa using hlt
  have hsize : ((h.setMember o field value).defineMember o (getterName field)
      (.getField o field)).functions.size = h.functions.size + 1 := by
    rw [functions_defineMember, newFunction, Array.size_push, functions_setMember]
  rw [defineField_eq, member?_defineMember_self hf₂ hlt₂, member?_defineMember_self hf₁ hlt₁,
    member?_setMember_self hf hlt, hsize, functions_setMember]

/-! ## Fields -/

/-- The object has the field with this value, its getter and its setter. -/
structure HasField (h : Heap) (o : ObjectId) (field : String) (v : Value) : Prop where
  value : h.member? o field = some v
  getter : h.ownCode? o (getterName field) = some (.getField o field)
  setter : h.ownCode? o (setterName field) = some (.setField o field)

section

variable {h : Heap} {o : ObjectId} {g : FrameId} {field : String} {v : Value}

/-- A field keeps its place while its object is not touched. -/
theorem HasField.untouched {h₀ : Heap} (hfield : h₀.HasField o field v)
    (hf : h₀.frameOf? o = some g) (hu : Untouched o g h₀ h) : h.HasField o field v := by
  have hmember : ∀ name, h.member? o name = h₀.member? o name := by
    intro name
    rw [member?, member?, hu.frame, hf, Option.bind_some, Option.bind_some, Scopes.own?,
      Scopes.own?, hu.bindings]
  have hcode : ∀ {name code}, h₀.ownCode? o name = some code →
      h.ownCode? o name = some code := by
    intro name code hcode
    obtain ⟨id, function, hid, hfunction, hc⟩ := ownCode?_eq_some_iff.1 hcode
    exact ownCode?_eq_some_iff.2
      ⟨id, function, (hmember name).trans hid, hu.functions id function hfunction, hc⟩
  exact ⟨(hmember field).trans hfield.value, hcode hfield.getter, hcode hfield.setter⟩

variable (hf : h.frameOf? o = some g) (hlt : g < h.scopes.size)
  (hplain : isMethodName field = false)

include hf hlt hplain

/-- A field that is set. -/
theorem HasField.setMember (hfield : h.HasField o field v) (w : Value) :
    (h.setMember o field w).HasField o field w := by
  obtain ⟨hgetter, hsetter⟩ := ne_accessorName hplain field
  have hcode : ∀ {name}, name ≠ field →
      (h.setMember o field w).ownCode? o name = h.ownCode? o name := by
    intro name hne
    rw [ownCode?, ownCode?, member?_setMember_self hf hlt, if_neg hne, asFunction?_setMember]
  refine ⟨?_, ?_, ?_⟩
  · rw [member?_setMember_self hf hlt, if_pos rfl]
  · exact (hcode hgetter.symm).trans hfield.getter
  · exact (hcode hsetter.symm).trans hfield.setter

/-- A field that is declared. -/
theorem hasField_defineField (v : Value) : (h.defineField o field v).HasField o field v := by
  obtain ⟨hgetter, hsetter⟩ := ne_accessorName hplain field
  have hne : getterName field ≠ setterName field := by
    intro heq
    have hlength := congrArg String.length (setterName_eq_getterName_iff.1 heq.symm)
    rw [String.length_append] at hlength
    have hequals : "=".length = 1 := rfl
    omega
  have hmember := member?_defineField hf hlt field v
  refine ⟨?_, ?_, ?_⟩
  · rw [hmember, if_neg hsetter, if_neg hgetter, if_pos rfl]
  · refine ownCode?_eq_some_iff.2
      ⟨h.functions.size, ⟨getterName field, .getField o field⟩, ?_, ?_, rfl⟩
    · rw [hmember, if_neg hne, if_pos rfl]
    · rw [functions_defineField, Array.getElem?_push, if_neg (by simp), Array.getElem?_push,
        if_pos rfl]
  · refine ownCode?_eq_some_iff.2
      ⟨h.functions.size + 1, ⟨setterName field, .setField o field⟩, ?_, ?_, rfl⟩
    · rw [hmember, if_pos rfl]
    · rw [functions_defineField, Array.getElem?_push, if_pos (by simp)]

/-- Another field that is declared. -/
theorem HasField.defineField (hfield : h.HasField o field v) {other : String}
    (hother : isMethodName other = false) (hapart : Apart field other) (w : Value) :
    (h.defineField o other w).HasField o field v := by
  obtain ⟨hgetter, hsetter⟩ := ne_accessorName hplain other
  obtain ⟨hgetter', hsetter'⟩ := ne_accessorName hother field
  have hmember : ∀ {name}, name ≠ setterName other → name ≠ getterName other → name ≠ other →
      (h.defineField o other w).member? o name = h.member? o name := by
    intro name hs hg ho
    rw [member?_defineField hf hlt, if_neg hs, if_neg hg, if_neg ho]
  have hcode : ∀ {name code}, name ≠ setterName other → name ≠ getterName other →
      name ≠ other → h.ownCode? o name = some code →
        (h.defineField o other w).ownCode? o name = some code := by
    intro name code hs hg ho hcode
    obtain ⟨id, function, hid, hfunction, hc⟩ := ownCode?_eq_some_iff.1 hcode
    exact ownCode?_eq_some_iff.2 ⟨id, function, (hmember hs hg ho).trans hid,
      (grows_defineField h o other w).functions id function hfunction, hc⟩
  refine ⟨?_, ?_, ?_⟩
  · exact (hmember hsetter hgetter hapart.ne).trans hfield.value
  · refine hcode ?_ (mt getterName_inj.1 hapart.ne) hgetter'.symm hfield.getter
    intro heq
    exact hapart.right (setterName_eq_getterName_iff.1 heq.symm)
  · exact hcode (mt setterName_inj.1 hapart.ne) (mt setterName_eq_getterName_iff.1 hapart.left)
      hsetter'.symm hfield.setter

end

end PrototypeLisp.Heap
