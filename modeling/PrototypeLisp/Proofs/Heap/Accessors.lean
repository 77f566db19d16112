/-
PrototypeLisp.Proofs.Heap.Accessors — getters, setters and how they are found.

A getter reads one binding of one object's own frame, a setter writes one
(`Code.reads?`, `Code.writes?`). Which accessor a message reaches is a matter
of lookup, through prototypes and scopes. Writing a field does not change how
its own setter is found: the name of the setter is another name than that of
the field, and a write to `prototype`, which may redirect every other lookup,
leaves `.prototype=` where it is, in the frame of the receiver itself, since
every object comes with it (`Equipped`).
-/
import PrototypeLisp.Proofs.Heap.Extra
import PrototypeLisp.Proofs.Heap.Prototype

namespace PrototypeLisp

/-! ## Writing twice -/

namespace Bindings

variable {α : Type}

theorem set_set (bindings : Bindings α) (name : String) (first second : α) :
    (bindings.set name first).set name second = bindings.set name second := by
  induction bindings with
  | nil => simp [set]
  | cons binding rest ih =>
    obtain ⟨bound, old⟩ := binding
    by_cases h : bound = name
    · simp [set, h]
    · simp [set, h, ih]

theorem set_self {bindings : Bindings α} {name : String} {value : α}
    (hvalue : bindings.get? name = some value) : bindings.set name value = bindings := by
  induction bindings with
  | nil => simp at hvalue
  | cons binding rest ih =>
    obtain ⟨bound, old⟩ := binding
    rw [get?_cons] at hvalue
    by_cases h : bound = name
    · subst h
      rw [if_pos rfl] at hvalue
      obtain rfl := Option.some.inj hvalue
      simp [set]
    · rw [if_neg (Ne.symm h)] at hvalue
      simp [set, h, ih hvalue]

end Bindings

namespace Scopes

variable {α : Type}

/-- The second of two values bound under one name in one frame counts. -/
theorem define_define (s : Scopes α) (f : FrameId) (name : String) (first second : α) :
    (s.define f name first).define f name second = s.define f name second := by
  refine eq_of_views (by simp) (fun g => ?_) (fun g => by simp)
  simp only [bindings_define, size_define]
  by_cases hg : f = g ∧ g < s.size
  · rw [if_pos hg, if_pos hg, if_pos hg, Bindings.set_set]
  · rw [if_neg hg, if_neg hg, if_neg hg]

/-- Binding a name to what it is bound to changes nothing. -/
theorem define_self (s : Scopes α) {f : FrameId} {name : String} {value : α}
    (hvalue : s.own? f name = some value) : s.define f name value = s := by
  refine eq_of_views (by simp) (fun g => ?_) (fun g => by simp)
  rw [bindings_define]
  split
  · rename_i hg
    obtain ⟨rfl, -⟩ := hg
    exact Bindings.set_self hvalue
  · rfl

end Scopes

namespace Heap

theorem setMember_setMember (h : Heap) (o : ObjectId) (name : String) (first second : Value) :
    (h.setMember o name first).setMember o name second = h.setMember o name second := by
  cases hf : h.frameOf? o with
  | none => simp only [setMember, hf]
  | some f =>
    rw [setMember_eq_define hf, setMember_eq_define hf, setMember_eq_define (by simpa using hf)]
    simp only [define, Scopes.define_define]

theorem setMember_self {h : Heap} {o : ObjectId} {name : String} {value : Value}
    (hvalue : h.member? o name = some value) : h.setMember o name value = h := by
  obtain ⟨f, hf, hown⟩ := Option.bind_eq_some_iff.1 hvalue
  rw [setMember_eq_define hf, define, Scopes.define_self _ hown]

/-! ## Lookup -/

theorem lt_size_of_lookup? {h : Heap} {r : ObjectId} {name : String} {v : Value}
    (hv : h.lookup? r name = some v) : r < h.objects.size := by
  unfold lookup? at hv
  split at hv
  · rename_i o ho
    -- a chain that is not empty starts with the receiver
    have hmem := List.mem_of_find?_eq_some ho
    refine Classical.byContradiction fun hr => ?_
    have hempty : h.prototypeChain r = [] := by
      rw [← List.head?_eq_none_iff, prototypeChain, head?_chainFrom,
        if_neg (mt List.mem_range.1 hr)]
    rw [hempty] at hmem
    cases hmem
  · obtain ⟨f, hf, -⟩ := Option.bind_eq_some_iff.1 hv
    exact (h.frameOf?_isSome_iff r).1 ⟨f, hf⟩

/-- The receiver's own binding comes first. -/
theorem lookup?_of_member? {h : Heap} {r : ObjectId} (hr : r < h.objects.size) {name : String}
    (hm : (h.member? r name).isSome = true) : h.lookup? r name = h.member? r name := by
  have hhead : (h.prototypeChain r).head? = some r := by
    rw [prototypeChain, head?_chainFrom, if_pos (List.mem_range.2 hr)]
  obtain ⟨rest, hrest⟩ := List.head?_eq_some_iff.1 hhead
  have hholder : h.holder? r name = some r := by
    rw [holder?, hrest]
    exact List.find?_cons_of_pos (p := fun o => (h.member? o name).isSome) hm
  rw [lookup?, hholder]

/-- Lookup asks for prototypes and for the name, and for nothing else. -/
theorem lookup?_congr {h h' : Heap} {name : String} (hobjects : h'.objects = h.objects)
    (hprototype : ∀ o, h'.member? o prototypeName = h.member? o prototypeName)
    (hname : ∀ o, h'.member? o name = h.member? o name)
    (hresolve : ∀ f, h'.scopes.resolve? f name = h.scopes.resolve? f name) (r : ObjectId) :
    h'.lookup? r name = h.lookup? r name := by
  have hlink : ∀ o, h'.prototypeOf? o = h.prototypeOf? o := by
    intro o
    rw [prototypeOf?, prototypeOf?, hprototype]
  have hchain : ∀ unseen o, h'.chainFrom unseen o = h.chainFrom unseen o := by
    intro unseen o
    fun_induction Heap.chainFrom h unseen o with
    | case1 unseen o hmem hnone => rw [chainFrom, dif_pos hmem, hlink, hnone]
    | case2 unseen o hmem next hnext ih =>
      rw [chainFrom, dif_pos hmem, hlink, hnext]
      simp only [ih]
    | case3 unseen o hmem => rw [chainFrom, dif_neg hmem]
  have hframe : h'.frameOf? r = h.frameOf? r := by rw [frameOf?, frameOf?, hobjects]
  simp only [lookup?, holder?, prototypeChain, hobjects, hchain, hname, hframe, hresolve]

/-- What another name means in a frame does not change. -/
theorem resolve?_setMember_of_ne (h : Heap) (o : ObjectId) {name other : String}
    (hne : other ≠ name) (value : Value) (f : FrameId) :
    (h.setMember o name value).scopes.resolve? f other = h.scopes.resolve? f other := by
  have hown : ∀ g, (h.setMember o name value).scopes.own? g other = h.scopes.own? g other := by
    intro g
    unfold setMember
    split
    · rw [define, Scopes.own?_define, if_neg fun hc => hne hc.2.1]
    · rfl
  induction f using Nat.strongRecOn with
  | _ f ih =>
    rw [Scopes.resolve?_eq, Scopes.resolve?_eq h.scopes, hown f, outer?_scopes_setMember]
    cases ho : h.scopes.outer? f with
    | none => rfl
    | some g => rw [Option.bind_some, Option.bind_some, ih g (Scopes.lt_of_outer? ho)]

/-! ## What every object comes with -/

/-- The names of the members of a new object. -/
def builtInNames : List String :=
  [".prototype", ".prototype=", ".instance?"]

/-- Every object has a getter and a setter of its prototype, and the test of
its prototypes. -/
def Equipped (h : Heap) : Prop :=
  ∀ o, o < h.objects.size → ∀ name ∈ builtInNames, (h.member? o name).isSome = true

/-- Binding a member, as its object sees it. -/
theorem member?_setMember_self {h : Heap} {o : ObjectId} {g : FrameId}
    (hf : h.frameOf? o = some g) (hlt : g < h.scopes.size) (name other : String) (value : Value) :
    (h.setMember o name value).member? o other =
      if other = name then some value else h.member? o other := by
  rw [setMember_eq_define hf, member?, member?, frameOf?_define, hf, Option.bind_some,
    Option.bind_some, define, Scopes.own?_define]
  by_cases hother : other = name
  · rw [if_pos ⟨rfl, hother, hlt⟩, if_pos hother]
  · rw [if_neg fun hc => hother hc.2.1, if_neg hother]

theorem member?_defineMember_self {h : Heap} {o : ObjectId} {g : FrameId}
    (hf : h.frameOf? o = some g) (hlt : g < h.scopes.size) (name other : String) (code : Code) :
    (h.defineMember o name code).member? o other =
      if other = name then some (.function h.functions.size) else h.member? o other := by
  rw [defineMember_eq]
  exact member?_setMember_self (h := (h.newFunction name code).2) hf hlt name other _

/-- A member that has been defined is there, and stays there. -/
theorem isSome_member?_of_defineMember {h h' : Heap} {o : ObjectId} {g : FrameId}
    (hf : h.frameOf? o = some g) (hlt : g < h.scopes.size) {name : String} {code : Code}
    (hg : (h.defineMember o name code).Grows h') : (h'.member? o name).isSome = true := by
  refine hg.member?_isSome ?_
  rw [member?_defineMember_self hf hlt, if_pos rfl]
  rfl

theorem Equipped.grows {h h' : Heap} (he : h.Equipped) (hg : h.Grows h')
    (hobjects : h'.objects.size = h.objects.size) : h'.Equipped := by
  intro o ho name hname
  rw [hobjects] at ho
  exact hg.member?_isSome (he o ho name hname)

theorem Equipped.newObject {h : Heap} (he : h.Equipped) (name : Option String) {outer : FrameId}
    (ho : outer < h.scopes.size) : (h.newObject name outer).2.Equipped := by
  intro o hlt member hmember
  rw [size_objects_newObject] at hlt
  rcases Nat.lt_succ_iff_lt_or_eq.1 hlt with hold | rfl
  · exact (grows_newObject h name ho).member?_isSome (he o hold member hmember)
  · have hframe : (h.allocate name outer).frameOf? h.objects.size = some h.scopes.size := by
      rw [frameOf?_allocate, if_pos rfl]
    have hsize : h.scopes.size < (h.allocate name outer).scopes.size := by simp [allocate]
    rw [newObject_eq]
    simp only [builtInNames, List.mem_cons, List.not_mem_nil, or_false] at hmember
    rcases hmember with rfl | rfl | rfl
    · exact isSome_member?_of_defineMember hframe hsize
        ((grows_defineMember _ _ _ _).trans (grows_defineMember _ _ _ _))
    · refine isSome_member?_of_defineMember (by simpa using hframe) ?_ (grows_defineMember _ _ _ _)
      exact Nat.lt_of_lt_of_le hsize (grows_defineMember _ _ _ _).size_le
    · refine isSome_member?_of_defineMember (by simpa using hframe) ?_ (Grows.refl _)
      exact Nat.lt_of_lt_of_le hsize
        ((grows_defineMember _ _ _ _).trans (grows_defineMember _ _ _ _)).size_le

/-- Only a new object could come without them. -/
theorem Change.equipped {code : Expr → Prop} {R : Realm} {h h' : Heap} (he : h.Equipped)
    (hc : Change code R h h') : h'.Equipped := by
  have hgrow := hc.grows
  cases hc with
  | object ho _ => exact he.newObject _ ho
  | frame _ _ | bind _ _ _ | function _ _ _ => exact he.grows hgrow rfl
  | field _ _ _ _ => exact he.grows hgrow (by simp [defineField_eq])
  | method _ _ _ _ => exact he.grows hgrow (by simp)
  | set _ _ _ => exact he.grows hgrow (by simp)

theorem Evolves.equipped {code : Expr → Prop} {R : Realm} {h h' : Heap} (he : h.Equipped)
    (hevolves : Evolves code R h h') : h'.Equipped := by
  induction hevolves with
  | refl => exact he
  | tail _ hc ih => exact hc.equipped ih

theorem equipped_initial : Heap.initial.Equipped := by
  intro o ho
  obtain rfl : o = 0 := Nat.lt_one_iff.1 ho
  decide

end Heap

/-! ## Accessors -/

namespace Code

/-- The object and the name in its frame that a getter reads. -/
def reads? : Code → Option (ObjectId × String)
  | .getField owner field => some (owner, field)
  | .getPrototype owner => some (owner, Heap.prototypeName)
  | _ => none

/-- The object and the name in its frame that a setter writes. -/
def writes? : Code → Option (ObjectId × String)
  | .setField owner field => some (owner, field)
  | .setPrototype owner => some (owner, Heap.prototypeName)
  | _ => none

theorem owner?_of_writes? {code : Code} {o : ObjectId} {name : String}
    (hcode : code.writes? = some (o, name)) : code.owner? = some o := by
  cases code <;> simp_all [writes?, owner?]

end Code

namespace Heap

/-- The code of the member that an object finds under a name. -/
def memberCode? (h : Heap) (r : ObjectId) (name : String) : Option Code :=
  ((h.lookup? r name).bind h.asFunction?).map Function.code

/-- What the getter reads that an object finds under a name. -/
def getterAt? (h : Heap) (r : ObjectId) (name : String) : Option (ObjectId × String) :=
  (h.memberCode? r name).bind Code.reads?

/-- What the setter writes that an object finds under a name. -/
def setterAt? (h : Heap) (r : ObjectId) (name : String) : Option (ObjectId × String) :=
  (h.memberCode? r name).bind Code.writes?

theorem setterName_ne (field : String) : setterName field ≠ field := by
  intro heq
  have hlength : ("." ++ field ++ "=").length = field.length := congrArg String.length heq
  have hdot : ".".length = 1 := rfl
  rw [String.length_append, String.length_append] at hlength
  omega

/-- Writing a field does not change where its setter is found. -/
theorem lookup?_setMember_setterName {h : Heap} (hw : h.WellFormed) (he : h.Equipped)
    {r o : ObjectId} (hr : r < h.objects.size) (ho : o < h.objects.size) (field : String)
    (value : Value) :
    (h.setMember o field value).lookup? r (setterName field) =
      h.lookup? r (setterName field) := by
  have hname : ∀ p, (h.setMember o field value).member? p (setterName field) =
      h.member? p (setterName field) := by
    intro p
    rw [hw.member?_setMember ho, if_neg fun hc => setterName_ne field hc.2]
  by_cases hfield : field = prototypeName
  · -- the receiver's own setter comes first, whatever its prototype
    have hsome : (h.member? r (setterName field)).isSome = true := by
      subst hfield
      exact he r hr ".prototype=" (by simp [builtInNames])
    rw [lookup?_of_member? hr hsome, ← hname r]
    exact lookup?_of_member? (by simpa using hr) (by rwa [hname r])
  · refine lookup?_congr (by simp) ?_ hname ?_ r
    · intro p
      rw [hw.member?_setMember ho, if_neg fun hc => hfield hc.2.symm]
    · exact resolve?_setMember_of_ne h o (setterName_ne field) value

theorem asFunction?_setMember (h : Heap) (o : ObjectId) (name : String) (value : Value) :
    (h.setMember o name value).asFunction? = h.asFunction? := by
  funext v
  cases v <;> simp [asFunction?]

theorem memberCode?_setMember_setterName {h : Heap} (hw : h.WellFormed) (he : h.Equipped)
    {r o : ObjectId} (hr : r < h.objects.size) (ho : o < h.objects.size) (field : String)
    (value : Value) :
    (h.setMember o field value).memberCode? r (setterName field) =
      h.memberCode? r (setterName field) := by
  rw [memberCode?, memberCode?, lookup?_setMember_setterName hw he hr ho, asFunction?_setMember]

/-- A receiver with code of an object: both objects exist. -/
theorem lt_size_of_memberCode? {h : Heap} (hw : h.WellFormed) {r o : ObjectId} {name : String}
    {code : Code} (hcode : h.memberCode? r name = some code) (howner : code.owner? = some o) :
    r < h.objects.size ∧ o < h.objects.size := by
  obtain ⟨function, hfunction, rfl⟩ := Option.map_eq_some_iff.1 hcode
  obtain ⟨member, hmember, hfunction⟩ := Option.bind_eq_some_iff.1 hfunction
  refine ⟨lt_size_of_lookup? hmember, ?_⟩
  cases member with
  | function id => exact hw.owner_lt hfunction howner
  | number _ | atom _ | null | object _ => simp [asFunction?] at hfunction

end Heap

end PrototypeLisp
