/-
PrototypeLisp.Proofs.Heap.WellFormed — the invariant of the heap.

`WellFormed` collects what every heap of a session satisfies: references lead
to something, following outer links ends at the root frame, objects own
frames of their own, functions are captured by scopes only, and what stands
under a dotted name in an object's frame is code of that object. One lemma
for each operation of the heap says under which condition the operation keeps
the invariant; the conditions are what evaluation has to provide.
-/
import PrototypeLisp.Proofs.Heap.Growth

namespace PrototypeLisp

namespace Heap

/-- The invariant of the heap. -/
structure WellFormed (h : Heap) : Prop where
  /-- The root frame exists and no object owns it. -/
  root : h.IsScope root
  /-- Nothing is around the root frame. -/
  outermost : h.scopes.outer? Heap.root = none
  /-- Every other frame lies inside a frame, which is older by construction. -/
  inside : ∀ f, f < h.scopes.size → f ≠ Heap.root → ∃ o, h.scopes.outer? f = some o
  /-- Every bound value refers to something on the heap. -/
  values : ∀ f name v, h.scopes.own? f name = some v → h.Allocated v
  /-- Every function definition was made in a scope. -/
  captured : ∀ (id : FunctionId) (function : Function) (f : FrameId),
    h.functions[id]? = some function → function.code.captured? = some f → h.IsScope f
  /-- Every object has a frame that exists. -/
  frames : ∀ o f, h.frameOf? o = some f → f < h.scopes.size
  /-- No two objects have one frame. -/
  distinct : ∀ o p f, h.frameOf? o = some f → h.frameOf? p = some f → o = p
  /-- Under a dotted name an object has code of its own, of that name. -/
  members : ∀ o name v, isMethodName name = true → h.member? o name = some v →
    ∃ (id : FunctionId) (function : Function), v = .function id ∧
      h.functions[id]? = some function ∧ function.name = name ∧ function.code.owner? = some o
  /-- Code of an object is bound under its dotted name in that object's frame,
  unless later code of that object has taken its place. -/
  bound : ∀ (id : FunctionId) (function : Function) (o : ObjectId),
    h.functions[id]? = some function → function.code.owner? = some o →
      isMethodName function.name = true ∧
        ∃ id', id ≤ id' ∧ h.member? o function.name = some (.function id')
  /-- The field of an accessor has no dotted name and is bound. -/
  fields : ∀ (id : FunctionId) (function : Function) (o : ObjectId) (field : String),
    h.functions[id]? = some function → function.code.owner? = some o →
      function.code.field? = some field →
        isMethodName field = false ∧ (h.member? o field).isSome = true

namespace WellFormed

variable {h : Heap}

theorem owner_lt (hw : h.WellFormed) {id : FunctionId} {function : Function} {o : ObjectId}
    (hid : h.functions[id]? = some function) (ho : function.code.owner? = some o) :
    o < h.objects.size := by
  obtain ⟨-, id', -, hmember⟩ := hw.bound id function o hid ho
  obtain ⟨f, hf, -⟩ := Option.bind_eq_some_iff.1 hmember
  exact (h.frameOf?_isSome_iff o).1 ⟨f, hf⟩

/-- A declared field has no dotted name and is bound. -/
theorem declaresField (hw : h.WellFormed) {o : ObjectId} {name : String}
    (hd : h.DeclaresField o name) :
    isMethodName name = false ∧ (h.member? o name).isSome = true := by
  obtain ⟨id, function, hid, hcode⟩ := hd
  exact hw.fields id function o name hid (by rw [hcode]; rfl) (by rw [hcode]; rfl)

/-- From every frame the outer links lead to the root frame. -/
theorem root_eq (hw : h.WellFormed) {f : FrameId} (hf : f < h.scopes.size) :
    h.scopes.root f = Heap.root := by
  induction f using Nat.strongRecOn with
  | _ f ih =>
    rw [Scopes.root]
    split
    · rename_i hnone
      refine Classical.byContradiction fun hne => ?_
      obtain ⟨o, ho⟩ := hw.inside f hf hne
      rw [hnone] at ho
      simp at ho
    · rename_i o ho
      have hlt := Scopes.lt_of_outer? ho
      exact ih o hlt (Nat.lt_trans hlt hf)

theorem resolve?_allocated (hw : h.WellFormed) {f : FrameId} {name : String} {v : Value}
    (hr : h.scopes.resolve? f name = some v) : h.Allocated v := by
  obtain ⟨g, -, hg⟩ := Option.bind_eq_some_iff.1 hr
  exact hw.values g name v hg

theorem member?_allocated (hw : h.WellFormed) {o : ObjectId} {name : String} {v : Value}
    (hm : h.member? o name = some v) : h.Allocated v := by
  obtain ⟨f, -, hf⟩ := Option.bind_eq_some_iff.1 hm
  exact hw.values f name v hf

/-- The number that the next frame gets belongs to no object. -/
theorem not_owned_size (hw : h.WellFormed) : ¬ h.Owned h.scopes.size := by
  rintro ⟨o, ho⟩
  exact absurd (hw.frames o _ ho) (Nat.lt_irrefl _)

/-- Binding a member changes what that object has under that name, and nothing
else. -/
theorem member?_setMember (hw : h.WellFormed) {o : ObjectId} (ho : o < h.objects.size)
    (name : String) (value : Value) (p : ObjectId) (other : String) :
    (h.setMember o name value).member? p other =
      if p = o ∧ other = name then some value else h.member? p other := by
  obtain ⟨f, hf⟩ := (h.frameOf?_isSome_iff o).2 ho
  have hlt := hw.frames o f hf
  rw [setMember_eq_define hf]
  unfold member?
  rw [frameOf?_define]
  cases hp : h.frameOf? p with
  | none =>
    have hne : p ≠ o := by
      rintro rfl
      rw [hf] at hp
      simp at hp
    simp [hne]
  | some g =>
    have hiff : f = g ↔ p = o := by
      constructor
      · rintro rfl
        exact hw.distinct p o f hp hf
      · rintro rfl
        simpa using hf.symm.trans hp
    simp only [Option.bind_some, define, Scopes.own?_define]
    by_cases hfg : f = g
    · subst hfg
      simp [hiff.1 rfl, hlt]
    · simp [hfg, mt hiff.2 hfg]

end WellFormed

/-! ## Binding names -/

/-- Binding an allocated value in a scope keeps the invariant. -/
theorem wellFormed_define {h : Heap} (hw : h.WellFormed) {f : FrameId} (hf : h.IsScope f)
    (name : String) {value : Value} (hv : h.Allocated value) :
    (h.define f name value).WellFormed where
  root := (grows_define h f name value).isScope hw.root
  outermost := by rw [outer?_scopes_define]; exact hw.outermost
  inside g hg hne := by
    rw [outer?_scopes_define]
    exact hw.inside g (by simpa using hg) hne
  values g other v hown := by
    simp only [define, Scopes.own?_define] at hown
    split at hown
    · obtain rfl : value = v := by simpa using hown
      exact hv
    · exact hw.values g other v hown
  captured id function g hid hg :=
    (grows_define h f name value).isScope (hw.captured id function g hid hg)
  frames o g ho := by
    rw [size_scopes_define]
    exact hw.frames o g ho
  distinct := hw.distinct
  members o other v hdot hm := by
    rw [member?_define_of_scope hf] at hm
    exact hw.members o other v hdot hm
  bound id function o hid ho := by
    rw [member?_define_of_scope hf]
    exact hw.bound id function o hid ho
  fields id function o field hid ho hfield := by
    rw [member?_define_of_scope hf]
    exact hw.fields id function o field hid ho hfield

/-- Binding an allocated value under a name without a dot in the frame of an
object keeps the invariant. -/
theorem wellFormed_setMember {h : Heap} (hw : h.WellFormed) {o : ObjectId}
    (ho : o < h.objects.size) {name : String} (hname : isMethodName name = false)
    {value : Value} (hv : h.Allocated value) : (h.setMember o name value).WellFormed := by
  have hgrow := grows_setMember h o name value
  -- a dotted name is another name, so its members stay as they are
  have hdotted : ∀ p other, isMethodName other = true →
      (h.setMember o name value).member? p other = h.member? p other := by
    intro p other hdot
    rw [hw.member?_setMember ho, if_neg]
    rintro ⟨-, rfl⟩
    rw [hname] at hdot
    simp at hdot
  exact {
    root := hgrow.isScope hw.root
    outermost := by rw [outer?_scopes_setMember]; exact hw.outermost
    inside := fun g hg hne => by
      rw [outer?_scopes_setMember]
      exact hw.inside g (by simpa using hg) hne
    values := fun g other v hown => by
      refine hgrow.allocated ?_
      obtain ⟨f, hf⟩ := (h.frameOf?_isSome_iff o).2 ho
      rw [setMember_eq_define hf] at hown
      simp only [define, Scopes.own?_define] at hown
      split at hown
      · obtain rfl : value = v := by simpa using hown
        exact hv
      · exact hw.values g other v hown
    captured := fun id function g hid hg =>
      hgrow.isScope (hw.captured id function g (by simpa using hid) hg)
    frames := fun p g hp => by
      rw [size_scopes_setMember]
      exact hw.frames p g (by simpa using hp)
    distinct := fun p q g hp hq => hw.distinct p q g (by simpa using hp) (by simpa using hq)
    members := fun p other v hdot hm => by
      rw [hdotted p other hdot] at hm
      rw [functions_setMember]
      exact hw.members p other v hdot hm
    bound := fun id function p hid hp => by
      rw [functions_setMember] at hid
      obtain ⟨hdot, hbound⟩ := hw.bound id function p hid hp
      rw [hdotted p _ hdot]
      exact ⟨hdot, hbound⟩
    fields := fun id function p field hid hp hfield => by
      rw [functions_setMember] at hid
      obtain ⟨hplain, hsome⟩ := hw.fields id function p field hid hp hfield
      exact ⟨hplain, hgrow.member?_isSome hsome⟩ }

/-! ## New functions -/

/-- A new function that belongs to no object, made in a scope if it is a
function definition, keeps the invariant. -/
theorem wellFormed_newFunction {h : Heap} (hw : h.WellFormed) (name : String) {code : Code}
    (hfree : code.owner? = none) (hscope : ∀ f, code.captured? = some f → h.IsScope f) :
    (h.newFunction name code).2.WellFormed := by
  have hgrow := grows_newFunction h name code
  exact {
    root := hgrow.isScope hw.root
    outermost := hw.outermost
    inside := hw.inside
    values := fun g other v hown => hgrow.allocated (hw.values g other v hown)
    captured := fun id function g hid hg => by
      rw [functions_newFunction] at hid
      split at hid
      · obtain rfl : ⟨name, code⟩ = function := by simpa using hid
        exact hgrow.isScope (hscope g hg)
      · exact hgrow.isScope (hw.captured id function g hid hg)
    frames := hw.frames
    distinct := hw.distinct
    members := fun o other v hdot hm => by
      obtain ⟨id, function, hv, hid, hrest⟩ := hw.members o other v hdot hm
      exact ⟨id, function, hv, hgrow.functions id function hid, hrest⟩
    bound := fun id function o hid ho => by
      rw [functions_newFunction] at hid
      split at hid
      · obtain rfl : ⟨name, code⟩ = function := by simpa using hid
        rw [hfree] at ho
        simp at ho
      · exact hw.bound id function o hid ho
    fields := fun id function o field hid ho hfield => by
      rw [functions_newFunction] at hid
      split at hid
      · obtain rfl : ⟨name, code⟩ = function := by simpa using hid
        rw [hfree] at ho
        simp at ho
      · exact hw.fields id function o field hid ho hfield }

/-- The definition of a function in a scope keeps the invariant. -/
theorem wellFormed_defineFunction {h : Heap} (hw : h.WellFormed) {f : FrameId}
    (hf : h.IsScope f) (name : String) {code : Code} (hfree : code.owner? = none)
    (hscope : ∀ g, code.captured? = some g → h.IsScope g) :
    (h.defineFunction f name code).2.WellFormed := by
  rw [defineFunction_eq]
  refine wellFormed_define (wellFormed_newFunction hw name hfree hscope)
    ((grows_newFunction h name code).isScope hf) name ?_
  simp [Allocated, newFunction]

/-- A new member of an object, bound under its dotted name, keeps the
invariant. An accessor needs its field. -/
theorem wellFormed_defineMember {h : Heap} (hw : h.WellFormed) {o : ObjectId}
    (ho : o < h.objects.size) {name : String} (hname : isMethodName name = true) {code : Code}
    (howner : code.owner? = some o)
    (hfield : ∀ field, code.field? = some field →
      isMethodName field = false ∧ (h.member? o field).isSome = true) :
    (h.defineMember o name code).WellFormed := by
  have hgrow := grows_defineMember h o name code
  obtain ⟨f, hf⟩ := (h.frameOf?_isSome_iff o).2 ho
  have hfree : code.captured? = none := by
    cases code <;> simp_all [Code.captured?, Code.owner?]
  have hfunctions : ∀ id : FunctionId, (h.defineMember o name code).functions[id]? =
      if id = h.functions.size then some ⟨name, code⟩ else h.functions[id]? := by
    intro id
    rw [functions_defineMember, functions_newFunction]
  have hscopes : (h.defineMember o name code).scopes =
      h.scopes.define f name (.function h.functions.size) := by
    have hframe : (h.newFunction name code).2.frameOf? o = some f := hf
    rw [defineMember_eq, setMember_eq_define hframe]
    rfl
  have hmember : ∀ p other, (h.defineMember o name code).member? p other =
      if p = o ∧ other = name then some (.function h.functions.size) else h.member? p other := by
    intro p other
    have hset := hw.member?_setMember ho name (.function h.functions.size) p other
    rw [setMember_eq_define hf] at hset
    rw [← hset]
    unfold member?
    rw [hscopes, frameOf?_defineMember]
    rfl
  exact {
    root := hgrow.isScope hw.root
    outermost := by rw [hscopes, Scopes.outer?_define]; exact hw.outermost
    inside := fun g hg hne => by
      rw [hscopes] at hg ⊢
      rw [Scopes.outer?_define]
      exact hw.inside g (by simpa using hg) hne
    values := fun g other v hown => by
      rw [hscopes, Scopes.own?_define] at hown
      split at hown
      · obtain rfl : Value.function h.functions.size = v := by simpa using hown
        have hnew := hfunctions h.functions.size
        rw [if_pos rfl] at hnew
        exact (Array.getElem?_eq_some_iff.1 hnew).1
      · exact hgrow.allocated (hw.values g other v hown)
    captured := fun id function g hid hg => by
      rw [hfunctions] at hid
      split at hid
      · obtain rfl : ⟨name, code⟩ = function := by simpa using hid
        rw [hfree] at hg
        simp at hg
      · exact hgrow.isScope (hw.captured id function g hid hg)
    frames := fun p g hp => by
      rw [frameOf?_defineMember] at hp
      rw [hscopes, Scopes.size_define]
      exact hw.frames p g hp
    distinct := fun p q g hp hq => by
      rw [frameOf?_defineMember] at hp hq
      exact hw.distinct p q g hp hq
    members := fun p other v hdot hm => by
      rw [hmember] at hm
      split at hm
      · rename_i hnew
        obtain ⟨rfl, rfl⟩ := hnew
        obtain rfl : Value.function h.functions.size = v := by simpa using hm
        exact ⟨h.functions.size, ⟨other, code⟩, rfl, by rw [hfunctions, if_pos rfl], rfl, howner⟩
      · obtain ⟨id, function, hv, hid, hrest⟩ := hw.members p other v hdot hm
        exact ⟨id, function, hv, hgrow.functions id function hid, hrest⟩
    bound := fun id function p hid hp => by
      rw [hfunctions] at hid
      split at hid
      · rename_i hnew
        obtain rfl : ⟨name, code⟩ = function := by simpa using hid
        obtain rfl : o = p := by simpa using howner.symm.trans hp
        exact ⟨hname, h.functions.size, Nat.le_of_eq hnew, by rw [hmember, if_pos ⟨rfl, rfl⟩]⟩
      · obtain ⟨hdot, id', hle, hbound⟩ := hw.bound id function p hid hp
        refine ⟨hdot, ?_⟩
        rw [hmember]
        split
        · -- the new member takes the place of the old one
          exact ⟨h.functions.size, Nat.le_of_lt (Array.getElem?_eq_some_iff.1 hid).1, rfl⟩
        · exact ⟨id', hle, hbound⟩
    fields := fun id function p field hid hp hf' => by
      rw [hfunctions] at hid
      split at hid
      · obtain rfl : ⟨name, code⟩ = function := by simpa using hid
        obtain rfl : o = p := by simpa using howner.symm.trans hp
        obtain ⟨hplain, hsome⟩ := hfield field hf'
        exact ⟨hplain, hgrow.member?_isSome hsome⟩
      · obtain ⟨hplain, hsome⟩ := hw.fields id function p field hid hp hf'
        exact ⟨hplain, hgrow.member?_isSome hsome⟩ }

/-! ## New frames and objects -/

/-- The number of a frame that is about to be made belongs to a scope once it
is made. -/
theorem isScope_newFrame {h : Heap} (hw : h.WellFormed) (outer : Option FrameId) :
    (h.newFrame outer).2.IsScope h.scopes.size where
  lt_size := by simp
  not_owned := hw.not_owned_size

/-- A new frame inside an existing one keeps the invariant. -/
theorem wellFormed_newFrame {h : Heap} (hw : h.WellFormed) {outer : FrameId}
    (ho : outer < h.scopes.size) : (h.newFrame (some outer)).2.WellFormed := by
  have hgrow := grows_newFrame h ho
  have hmember : ∀ p other, (h.newFrame (some outer)).2.member? p other = h.member? p other := by
    intro p other
    unfold member?
    rw [frameOf?_newFrame]
    cases h.frameOf? p with
    | none => rfl
    | some f => exact own?_scopes_newFrame h _ f other
  exact {
    root := hgrow.isScope hw.root
    outermost := by rw [hgrow.outer _ hw.root.lt_size]; exact hw.outermost
    inside := fun f hf hne => by
      rw [outer?_scopes_newFrame h ho]
      split
      · exact ⟨outer, rfl⟩
      · rename_i hold
        rw [size_scopes_newFrame] at hf
        exact hw.inside f (Nat.lt_of_le_of_ne (Nat.le_of_lt_succ hf) hold) hne
    values := fun f name v hown => by
      rw [own?_scopes_newFrame] at hown
      exact hgrow.allocated (hw.values f name v hown)
    captured := fun id function f hid hf => hgrow.isScope (hw.captured id function f hid hf)
    frames := fun p f hp => Nat.lt_of_lt_of_le (hw.frames p f hp) hgrow.size_le
    distinct := hw.distinct
    members := fun p other v hdot hm => hw.members p other v hdot (by rwa [hmember] at hm)
    bound := fun id function p hid hp => by
      rw [hmember]
      exact hw.bound id function p hid hp
    fields := fun id function p field hid hp hfield => by
      rw [hmember]
      exact hw.fields id function p field hid hp hfield }

/-- An object without members keeps the invariant. -/
theorem wellFormed_allocate {h : Heap} (hw : h.WellFormed) (name : Option String)
    {outer : FrameId} (ho : outer < h.scopes.size) : (h.allocate name outer).WellFormed := by
  have hgrow := grows_allocate h name ho
  have hframe := wellFormed_newFrame hw ho
  -- the new object has no members, and the others keep theirs
  have hmember : ∀ p other, (h.allocate name outer).member? p other = h.member? p other := by
    intro p other
    unfold member?
    rw [frameOf?_allocate]
    split
    · rename_i hp
      subst hp
      have hnone : h.frameOf? h.objects.size = none := by
        cases hf : h.frameOf? h.objects.size with
        | none => rfl
        | some f =>
          exact absurd ((h.frameOf?_isSome_iff h.objects.size).1 ⟨f, hf⟩) (Nat.lt_irrefl _)
      rw [hnone, Option.bind_none, Option.bind_some]
      exact (own?_scopes_newFrame h _ _ other).trans
        (Scopes.own?_of_size_le _ (Nat.le_refl _) other)
    · cases h.frameOf? p with
      | none => rfl
      | some f => exact own?_scopes_newFrame h _ f other
  exact {
    root := hgrow.isScope hw.root
    outermost := hframe.outermost
    inside := hframe.inside
    values := fun f other v hown => by
      refine hgrow.allocated (hw.values f other v ?_)
      exact (own?_scopes_newFrame h _ f other).symm.trans hown
    captured := fun id function f hid hf => hgrow.isScope (hw.captured id function f hid hf)
    frames := fun p f hp => by
      rw [frameOf?_allocate] at hp
      split at hp
      · obtain rfl : h.scopes.size = f := by simpa using hp
        exact (isScope_newFrame hw (some outer)).lt_size
      · exact hframe.frames p f hp
    distinct := fun p q f hp hq => by
      rw [frameOf?_allocate] at hp hq
      split at hp <;> split at hq
      · rename_i hp' hq'
        exact hp'.trans hq'.symm
      · obtain rfl : h.scopes.size = f := by simpa using hp
        exact absurd ⟨q, hq⟩ hw.not_owned_size
      · obtain rfl : h.scopes.size = f := by simpa using hq
        exact absurd ⟨p, hp⟩ hw.not_owned_size
      · exact hw.distinct p q f hp hq
    members := fun p other v hdot hm => hw.members p other v hdot (by rwa [hmember] at hm)
    bound := fun id function p hid hp => by
      rw [hmember]
      exact hw.bound id function p hid hp
    fields := fun id function p field hid hp hfield => by
      rw [hmember]
      exact hw.fields id function p field hid hp hfield }

/-- A new object keeps the invariant. -/
theorem wellFormed_newObject {h : Heap} (hw : h.WellFormed) (name : Option String)
    {outer : FrameId} (ho : outer < h.scopes.size) : (h.newObject name outer).2.WellFormed := by
  have hlt : h.objects.size < (h.allocate name outer).objects.size := by simp [allocate]
  rw [newObject_eq]
  refine wellFormed_defineMember (wellFormed_defineMember (wellFormed_defineMember
    (wellFormed_allocate hw name ho) hlt ?_ rfl ?_) ?_ ?_ rfl ?_) ?_ ?_ rfl ?_
  · decide
  · simp [Code.field?]
  · simpa using hlt
  · decide
  · simp [Code.field?]
  · simpa using hlt
  · decide
  · simp [Code.field?]

/-- A field with its getter and its setter keeps the invariant. -/
theorem wellFormed_defineField {h : Heap} (hw : h.WellFormed) {o : ObjectId}
    (ho : o < h.objects.size) {field : String} (hname : isMethodName field = false)
    {value : Value} (hv : h.Allocated value) : (h.defineField o field value).WellFormed := by
  have hset := wellFormed_setMember hw ho hname hv
  have hbound : ((h.setMember o field value).member? o field).isSome = true := by
    rw [hw.member?_setMember ho, if_pos ⟨rfl, rfl⟩]
    rfl
  have hgetter : ((h.setMember o field value).defineMember o (getterName field)
      (.getField o field)).WellFormed := by
    refine wellFormed_defineMember hset (by simpa using ho) (by simp) rfl ?_
    rintro other hother
    obtain rfl : field = other := by simpa [Code.field?] using hother
    exact ⟨hname, hbound⟩
  rw [defineField_eq]
  refine wellFormed_defineMember hgetter (by simpa using ho) (by simp) rfl ?_
  rintro other hother
  obtain rfl : field = other := by simpa [Code.field?] using hother
  exact ⟨hname, (grows_defineMember _ _ _ _).member?_isSome hbound⟩

/-! ## The heap of a new session -/

/-- The root frame alone is well formed. -/
theorem wellFormed_rootFrame : (empty.newFrame none).2.WellFormed := by
  have hown : ∀ f name, (empty.newFrame none).2.scopes.own? f name = none := by
    intro f name
    rw [own?_scopes_newFrame]
    exact Scopes.own?_of_size_le _ (Nat.zero_le _) name
  have hsize : (empty.newFrame none).2.scopes.size = 1 := rfl
  have hframe : ∀ o, (empty.newFrame none).2.frameOf? o = none := by
    intro o
    simp [empty, frameOf?]
  have hfunction : ∀ id : FunctionId, (empty.newFrame none).2.functions[id]? = none := by
    intro id
    simp [empty]
  exact {
    root := ⟨by decide, by rintro ⟨o, ho⟩; simp [hframe] at ho⟩
    outermost := rfl
    inside := fun f hf hne => absurd (Nat.lt_one_iff.1 (hsize ▸ hf)) hne
    values := fun f name v hv => by simp [hown] at hv
    captured := fun id function f hid _ => absurd (hid.symm.trans (hfunction id)) (by simp)
    frames := fun o f ho => by simp [hframe] at ho
    distinct := fun o p f ho _ => by simp [hframe] at ho
    members := fun o name v _ hm => by simp [member?, hframe] at hm
    bound := fun id function o hid _ => absurd (hid.symm.trans (hfunction id)) (by simp)
    fields := fun id function o field hid _ _ => absurd (hid.symm.trans (hfunction id)) (by simp) }

/-- The heap of a new session is well formed. -/
theorem wellFormed_initial : Heap.initial.WellFormed := by
  have hnull : ((empty.newFrame none).2.define Heap.root "null" .null).WellFormed :=
    wellFormed_define wellFormed_rootFrame wellFormed_rootFrame.root "null" trivial
  -- each operator is a function that belongs to no object, bound in the root frame
  have hoperators : ∀ (operators : List Operator) (h : Heap), h.WellFormed →
      (operators.foldl (fun h operator =>
        (h.defineFunction Heap.root operator.symbol (.operator operator)).2) h).WellFormed := by
    intro operators
    induction operators with
    | nil => exact fun _ hw => hw
    | cons operator operators ih =>
      intro h hw
      exact ih _ (wellFormed_defineFunction hw hw.root _ rfl (by simp [Code.captured?]))
  have hbase := hoperators [.plus, .minus, .times, .over] _ hnull
  have hobject := wellFormed_newObject hbase (some "Object") hbase.root.lt_size
  exact wellFormed_define hobject hobject.root "Object" (allocated_newObject _ _ _)

end Heap

end PrototypeLisp
