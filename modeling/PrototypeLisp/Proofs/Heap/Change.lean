/-
PrototypeLisp.Proofs.Heap.Change — what evaluation can do to the heap.

`Change` lists the seven kinds of change that evaluation makes, each with the
conditions under which it makes it, and `Evolves` is a sequence of changes. A
realm says what a computation may write: the scopes in which it may bind names
and the objects that it may give members; the setters of fields and prototypes
write any object. Everything that evaluation keeps is proved here once, for
each kind of change: the heap grows, stays well formed, holds no code from
elsewhere, and is changed in the realm only (`Confined`).
-/
import Mathlib.Logic.Relation
import PrototypeLisp.Proofs.Heap.WellFormed

namespace PrototypeLisp

/-- What a computation may write. -/
structure Realm where
  /-- The scopes in which it may bind names. -/
  scopes : FrameId → Prop
  /-- The objects to which it may give members. -/
  objects : ObjectId → Prop

namespace Realm

/-- Everything in the first realm is in the second. -/
structure Le (R R' : Realm) : Prop where
  scopes : ∀ f, R.scopes f → R'.scopes f
  objects : ∀ o, R.objects o → R'.objects o

/-- The realm of a computation in a frame: the frame itself, and the frames
and objects from the given numbers on. -/
def of (f : FrameId) (frames objects : Nat) : Realm where
  scopes g := g = f ∨ frames ≤ g
  objects o := objects ≤ o

/-- A nested computation, in the same frame or a new one, has a smaller
realm. -/
theorem of_le_of {f g : FrameId} {frames frames' objects : Nat} (hg : g = f ∨ frames ≤ g)
    (hle : frames ≤ frames') : (of g frames' objects).Le (of f frames objects) where
  scopes k hk := by
    rcases hk with rfl | hk
    · exact hg
    · exact Or.inr (Nat.le_trans hle hk)
  objects _ ho := ho

end Realm

namespace Heap

/-! ## Changes within a realm -/

/-- Outside the realm nothing changes but prototypes and declared fields. -/
structure Confined (R : Realm) (h h' : Heap) : Prop where
  /-- A scope outside the realm keeps its bindings. -/
  scopes : ∀ f, h.IsScope f → ¬ R.scopes f → h'.scopes.bindings f = h.scopes.bindings f
  /-- An object outside the realm may get another prototype and other values
  of its declared fields. -/
  members : ∀ o f name, h.frameOf? o = some f → ¬ R.objects o →
    h'.scopes.own? f name ≠ h.scopes.own? f name →
      name = prototypeName ∨ h.DeclaresField o name
  /-- An object outside the realm gets no new fields. -/
  fields : ∀ o name, ¬ R.objects o → h'.DeclaresField o name → h.DeclaresField o name

namespace Confined

variable {R R' : Realm} {h h' h'' : Heap}

theorem refl (R : Realm) (h : Heap) : Confined R h h where
  scopes _ _ _ := rfl
  members _ _ _ _ _ hne := absurd rfl hne
  fields _ _ _ hd := hd

theorem trans (hg : h.Grows h') (h₁ : Confined R h h') (h₂ : Confined R h' h'') :
    Confined R h h'' where
  scopes f hf hR := (h₂.scopes f (hg.isScope hf) hR).trans (h₁.scopes f hf hR)
  members o f name ho hR hne := by
    by_cases hsame : h'.scopes.own? f name = h.scopes.own? f name
    · rw [← hsame] at hne
      exact (h₂.members o f name (hg.frameOf? ho) hR hne).imp_right (h₁.fields o name hR)
    · exact h₁.members o f name ho hR hsame
  fields o name hR hd := h₁.fields o name hR (h₂.fields o name hR hd)

end Confined

theorem confined_define {R : Realm} {h : Heap} {f : FrameId} (hR : R.scopes f)
    (hf : h.IsScope f) (name : String) (value : Value) :
    Confined R h (h.define f name value) where
  scopes g _ hg := by
    have hne : g ≠ f := by
      rintro rfl
      exact hg hR
    exact Scopes.bindings_define_of_ne _ hne _ _
  members o g other ho _ hne := by
    refine absurd ?_ hne
    rw [define, Scopes.own?_define, if_neg]
    rintro ⟨rfl, -, -⟩
    exact hf.not_owned ⟨o, ho⟩
  fields _ _ _ hd := hd

/-- Binding a member changes one name of one object, so it is confined when
the object is in the realm or the name may change anyway. -/
theorem confined_setMember {R : Realm} {h : Heap} {o : ObjectId}
    (hd : ∀ p f, h.frameOf? o = some f → h.frameOf? p = some f → o = p)
    {name : String} (hR : R.objects o ∨ name = prototypeName ∨ h.DeclaresField o name)
    (value : Value) : Confined R h (h.setMember o name value) := by
  cases hf : h.frameOf? o with
  | none =>
    have hsame : h.setMember o name value = h := by simp only [setMember, hf]
    rw [hsame]
    exact Confined.refl R h
  | some f =>
    rw [setMember_eq_define hf]
    exact {
      scopes := fun g hg _ => by
        have hne : g ≠ f := by
          rintro rfl
          exact hg.not_owned ⟨o, hf⟩
        exact Scopes.bindings_define_of_ne _ hne _ _
      members := fun p g other hp hout hne => by
        rw [define, Scopes.own?_define] at hne
        split at hne
        · rename_i hhit
          obtain ⟨rfl, rfl, -⟩ := hhit
          obtain rfl : o = p := hd p f hf hp
          exact hR.resolve_left hout
        · exact absurd rfl hne
      fields := fun _ _ _ hd => hd }

/-- A new function touches no frame; only a setter declares a field. -/
theorem confined_newFunction {R : Realm} (h : Heap) (name : String) {code : Code}
    (hR : ∀ o field, code = .setField o field → R.objects o) :
    Confined R h (h.newFunction name code).2 where
  scopes _ _ _ := rfl
  members _ _ _ _ _ hne := absurd rfl hne
  fields o field hout hd :=
    (declaresField_newFunction hd).resolve_right fun hcode => hout (hR o field hcode)

theorem confined_newFrame (R : Realm) (h : Heap) (outer : Option FrameId) :
    Confined R h (h.newFrame outer).2 where
  scopes f _ _ := bindings_scopes_newFrame h outer f
  members _ f name _ _ hne := absurd (own?_scopes_newFrame h outer f name) hne
  fields _ _ _ hd := hd

theorem confined_allocate (R : Realm) (h : Heap) (name : Option String) (outer : FrameId) :
    Confined R h (h.allocate name outer) where
  scopes := (confined_newFrame R h (some outer)).scopes
  members := (confined_newFrame R h (some outer)).members
  fields _ _ _ hd := hd

theorem confined_defineFunction {R : Realm} {h : Heap} {f : FrameId} (hR : R.scopes f)
    (hf : h.IsScope f) (name : String) {code : Code} (hfree : code.owner? = none) :
    Confined R h (h.defineFunction f name code).2 := by
  have hgrow := grows_newFunction h name code
  rw [defineFunction_eq]
  refine (confined_newFunction h name ?_).trans hgrow
    (confined_define hR (hgrow.isScope hf) _ _)
  rintro o field rfl
  simp [Code.owner?] at hfree

/-- The code of an object in the realm declares no field outside it. -/
theorem objects_of_setField {R : Realm} {o : ObjectId} (hR : R.objects o) {code : Code}
    (howner : code.owner? = some o) (p : ObjectId) (field : String)
    (hcode : code = .setField p field) : R.objects p := by
  subst hcode
  obtain rfl : p = o := by simpa [Code.owner?] using howner
  exact hR

/-- An object of the realm may be given members. -/
theorem confined_defineMember {R : Realm} {h : Heap} {o : ObjectId}
    (hd : ∀ p f, h.frameOf? o = some f → h.frameOf? p = some f → o = p) (hR : R.objects o)
    (name : String) {code : Code} (howner : code.owner? = some o) :
    Confined R h (h.defineMember o name code) := by
  exact (confined_newFunction h name (objects_of_setField hR howner)).trans
    (grows_newFunction h name code)
    (confined_setMember (h := (h.newFunction name code).2) hd (.inl hR) _)

/-- An object of the realm may be given fields. -/
theorem confined_defineField {R : Realm} {h : Heap} {o : ObjectId}
    (hd : ∀ p f, h.frameOf? o = some f → h.frameOf? p = some f → o = p) (hR : R.objects o)
    (field : String) (value : Value) : Confined R h (h.defineField o field value) := by
  have hset : Confined R h (h.setMember o field value) := confined_setMember hd (.inl hR) _
  have hgetter : Confined R (h.setMember o field value) ((h.setMember o field value).defineMember
      o (getterName field) (.getField o field)) :=
    confined_defineMember (by simpa using hd) hR _ rfl
  rw [defineField_eq]
  exact (hset.trans (grows_setMember _ _ _ _) hgetter).trans
    ((grows_setMember _ _ _ _).trans (grows_defineMember _ _ _ _))
    (confined_defineMember (by simpa using hd) hR _ rfl)

/-- A new object of the realm comes with its members. -/
theorem confined_newObject {R : Realm} {h : Heap} (hw : h.WellFormed)
    (hR : R.objects h.objects.size) (name : Option String) {outer : FrameId}
    (ho : outer < h.scopes.size) : Confined R h (h.newObject name outer).2 := by
  have hd := (wellFormed_allocate hw name ho).distinct h.objects.size
  rw [newObject_eq]
  have hgrow₁ := (grows_allocate h name ho).trans
    (grows_defineMember _ h.objects.size ".prototype" (.getPrototype h.objects.size))
  have hgrow₂ := hgrow₁.trans
    (grows_defineMember _ h.objects.size ".prototype=" (.setPrototype h.objects.size))
  refine Confined.trans hgrow₂ (Confined.trans hgrow₁ (Confined.trans (grows_allocate h name ho)
    (confined_allocate R h name outer) ?_) ?_) ?_
  · exact confined_defineMember hd hR _ rfl
  · exact confined_defineMember (by simpa using hd) hR _ rfl
  · exact confined_defineMember (by simpa using hd) hR _ rfl

/-! ## The changes that evaluation makes -/

/-- One change to the heap by a computation with the given realm; `code` tells
which expressions may become the bodies of functions and methods. -/
inductive Change (code : Expr → Prop) (R : Realm) : Heap → Heap → Prop where
  /-- A block or a call gets a frame. -/
  | frame {h : Heap} {outer : FrameId} (ho : outer < h.scopes.size)
      (hR : R.scopes h.scopes.size) : Change code R h (h.newFrame (some outer)).2
  /-- A name is bound in a scope. -/
  | bind {h : Heap} {f : FrameId} {name : String} {value : Value} (hR : R.scopes f)
      (hf : h.IsScope f) (hv : h.Allocated value) : Change code R h (h.define f name value)
  /-- A function is defined in a scope. -/
  | function {h : Heap} {f : FrameId} {name : String} {parameters : List String} {body : Expr}
      (hR : R.scopes f) (hf : h.IsScope f) (hbody : code body) :
      Change code R h (h.defineFunction f name (.closure parameters body f)).2
  /-- An object is made. -/
  | object {h : Heap} {name : Option String} {outer : FrameId} (ho : outer < h.scopes.size)
      (hR : R.objects h.objects.size) : Change code R h (h.newObject name outer).2
  /-- An object gets a field. -/
  | field {h : Heap} {o : ObjectId} {name : String} {value : Value} (hR : R.objects o)
      (ho : o < h.objects.size) (hname : isMethodName name = false)
      (hv : h.Allocated value) : Change code R h (h.defineField o name value)
  /-- An object gets a method. -/
  | method {h : Heap} {o : ObjectId} {name : String} {parameters : List String} {body : Expr}
      (hR : R.objects o) (ho : o < h.objects.size) (hname : isMethodName name = true)
      (hbody : code body) :
      Change code R h (h.defineMember o name (.method parameters body o))
  /-- The prototype or a declared field of an object is set. -/
  | set {h : Heap} {o : ObjectId} {name : String} {value : Value}
      (hname : name = prototypeName ∨ h.DeclaresField o name) (ho : o < h.objects.size)
      (hv : h.Allocated value) : Change code R h (h.setMember o name value)

/-- Do the bodies of all functions and methods satisfy `code`? -/
def Bodies (code : Expr → Prop) (h : Heap) : Prop :=
  ∀ (id : FunctionId) (function : Function) (body : Expr),
    h.functions[id]? = some function → function.code.body? = some body → code body

theorem bodies_newFunction {code : Expr → Prop} {h : Heap} (hb : Bodies code h)
    (name : String) {c : Code} (hnew : ∀ body, c.body? = some body → code body) :
    Bodies code (h.newFunction name c).2 := by
  intro id function body hid hbody
  rw [functions_newFunction] at hid
  split at hid
  · obtain rfl : ⟨name, c⟩ = function := by simpa using hid
    exact hnew body hbody
  · exact hb id function body hid hbody

theorem bodies_defineMember {code : Expr → Prop} {h : Heap} (hb : Bodies code h)
    (o : ObjectId) (name : String) {c : Code}
    (hnew : ∀ body, c.body? = some body → code body) :
    Bodies code (h.defineMember o name c) := by
  intro id function body hid hbody
  rw [functions_defineMember] at hid
  exact bodies_newFunction hb name hnew id function body hid hbody

theorem bodies_newObject {code : Expr → Prop} {h : Heap} (hb : Bodies code h)
    (name : Option String) (outer : FrameId) : Bodies code (h.newObject name outer).2 := by
  have hallocate : Bodies code (h.allocate name outer) := hb
  rw [newObject_eq]
  refine bodies_defineMember (bodies_defineMember (bodies_defineMember hallocate _ _ ?_) _ _ ?_)
    _ _ ?_
  all_goals simp [Code.body?]

theorem bodies_defineField {code : Expr → Prop} {h : Heap} (hb : Bodies code h)
    (o : ObjectId) (field : String) (value : Value) :
    Bodies code (h.defineField o field value) := by
  have hset : Bodies code (h.setMember o field value) := by
    intro id function body hid hbody
    rw [functions_setMember] at hid
    exact hb id function body hid hbody
  rw [defineField_eq]
  refine bodies_defineMember (bodies_defineMember hset _ _ ?_) _ _ ?_
  all_goals simp [Code.body?]

namespace Change

variable {code : Expr → Prop} {R R' : Realm} {h h' : Heap}

theorem mono (hR : R.Le R') (hc : Change code R h h') : Change code R' h h' := by
  cases hc with
  | frame ho hs => exact .frame ho (hR.scopes _ hs)
  | bind hs hf hv => exact .bind (hR.scopes _ hs) hf hv
  | function hs hf hbody => exact .function (hR.scopes _ hs) hf hbody
  | object ho ho' => exact .object ho (hR.objects _ ho')
  | field ho' ho hname hv => exact .field (hR.objects _ ho') ho hname hv
  | method ho' ho hname hbody => exact .method (hR.objects _ ho') ho hname hbody
  | set hname ho hv => exact .set hname ho hv

/-- Every change grows the heap. -/
theorem grows (hc : Change code R h h') : h.Grows h' := by
  cases hc with
  | frame ho _ => exact grows_newFrame h ho
  | bind _ _ _ => exact grows_define h _ _ _
  | function _ _ _ => exact grows_defineFunction h _ _ _
  | object ho _ => exact grows_newObject h _ ho
  | field _ _ _ _ => exact grows_defineField h _ _ _
  | method _ _ _ _ => exact grows_defineMember h _ _ _
  | set _ _ _ => exact grows_setMember h _ _ _

/-- Every change keeps the invariant. -/
theorem wellFormed (hw : h.WellFormed) (hc : Change code R h h') : h'.WellFormed := by
  cases hc with
  | frame ho _ => exact wellFormed_newFrame hw ho
  | bind _ hf hv => exact wellFormed_define hw hf _ hv
  | @function f _ _ _ _ hf _ =>
    refine wellFormed_defineFunction hw hf _ rfl ?_
    intro g hg
    obtain rfl : f = g := by simpa [Code.captured?] using hg
    exact hf
  | object ho _ => exact wellFormed_newObject hw _ ho
  | field _ ho hname hv => exact wellFormed_defineField hw ho hname hv
  | method _ ho hname _ => exact wellFormed_defineMember hw ho hname rfl (by simp [Code.field?])
  | @set o name _ hname ho hv =>
    refine wellFormed_setMember hw ho ?_ hv
    rcases hname with rfl | hfield
    · decide
    · exact (hw.declaresField hfield).1

/-- Every change is confined to its realm. -/
theorem confined (hw : h.WellFormed) (hc : Change code R h h') : Confined R h h' := by
  cases hc with
  | frame _ _ => exact confined_newFrame R h _
  | bind hR hf _ => exact confined_define hR hf _ _
  | function hR hf _ => exact confined_defineFunction hR hf _ rfl
  | object ho hR => exact confined_newObject hw hR _ ho
  | field hR _ _ _ => exact confined_defineField (hw.distinct _) hR _ _
  | method hR _ _ _ => exact confined_defineMember (hw.distinct _) hR _ rfl
  | set hname _ _ => exact confined_setMember (hw.distinct _) (.inr hname) _

/-- Every change brings in admitted code only. -/
theorem bodies (hb : Bodies code h) (hc : Change code R h h') : Bodies code h' := by
  cases hc with
  | frame _ _ => exact hb
  | bind _ _ _ => exact hb
  | @function _ name _ body _ _ hbody =>
    exact bodies_newFunction hb name (by simpa [Code.body?] using hbody)
  | object _ _ => exact bodies_newObject hb _ _
  | field _ _ _ _ => exact bodies_defineField hb _ _ _
  | @method _ _ _ body _ _ _ hbody =>
    exact bodies_defineMember hb _ _ (by simpa [Code.body?] using hbody)
  | set _ _ _ =>
    intro id function body hid hbody
    rw [functions_setMember] at hid
    exact hb id function body hid hbody

end Change

/-! ## Sequences of changes -/

/-- The second heap comes from the first by changes within a realm. -/
def Evolves (code : Expr → Prop) (R : Realm) : Heap → Heap → Prop :=
  Relation.ReflTransGen (Change code R)

namespace Evolves

variable {code : Expr → Prop} {R R' : Realm} {h h' h'' : Heap}

theorem refl (h : Heap) : Evolves code R h h :=
  Relation.ReflTransGen.refl

theorem single (hc : Change code R h h') : Evolves code R h h' :=
  Relation.ReflTransGen.single hc

theorem trans (h₁ : Evolves code R h h') (h₂ : Evolves code R h' h'') :
    Evolves code R h h'' :=
  Relation.ReflTransGen.trans h₁ h₂

theorem mono (hR : R.Le R') (he : Evolves code R h h') : Evolves code R' h h' := by
  induction he with
  | refl => exact refl h
  | tail _ hc ih => exact ih.trans (single (hc.mono hR))

theorem grows (he : Evolves code R h h') : h.Grows h' := by
  induction he with
  | refl => exact Grows.refl h
  | tail _ hc ih => exact ih.trans hc.grows

theorem wellFormed (hw : h.WellFormed) (he : Evolves code R h h') : h'.WellFormed := by
  induction he with
  | refl => exact hw
  | tail _ hc ih => exact hc.wellFormed ih

theorem confined (hw : h.WellFormed) (he : Evolves code R h h') : Confined R h h' := by
  induction he with
  | refl => exact Confined.refl R h
  | tail he hc ih =>
    have hstart : Evolves code R _ _ := he
    exact ih.trans hstart.grows (hc.confined (hstart.wellFormed hw))

theorem bodies (hb : Bodies code h) (he : Evolves code R h h') : Bodies code h' := by
  induction he with
  | refl => exact hb
  | tail _ hc ih => exact hc.bodies ih

end Evolves

end Heap

end PrototypeLisp
