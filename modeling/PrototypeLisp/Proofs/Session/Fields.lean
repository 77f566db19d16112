/-
PrototypeLisp.Proofs.Session.Fields — the accessors of declared fields.

An object literal of fields declares them one after the other, each with a
getter and a setter. Whatever the values do, a declared field stays as it is
until the literal ends: evaluation cannot get at the object, and a later field
writes its own three names only. So every field keeps its accessors, unless
the accessors of two fields have one name. That is the case exactly when one
field is named like another one followed by `=`, and then the one declared
last takes the name from the other (`fields_served_iff`).
-/
import PrototypeLisp.Proofs.Heap.Fields
import PrototypeLisp.Proofs.Session.Accessors
import PrototypeLisp.Proofs.Session.Construction

namespace PrototypeLisp

open Heap

/-! ## Declaring fields -/

/-- The values of the fields evaluate in `E` one after the other, and each
field is declared before the value of the next one is evaluated. -/
inductive Declares (limit : Nat) (E : FrameId) (o : ObjectId) :
    Store → List (String × Expr) → List (String × Value) → Store → Prop where
  | nil {s : Store} : Declares limit E o s [] [] s
  | cons {s u t : Store} {name : String} {e : Expr} {v : Value} {fields : List (String × Expr)}
      {values : List (String × Value)} (hv : eval limit e E s = .ok v u)
      (hrest : Declares limit E o { u with heap := u.heap.defineField o name v } fields values t) :
      Declares limit E o s ((name, e) :: fields) ((name, v) :: values) t

/-- The members of an object that has fields only. -/
def fieldMembers (fields : List (String × Expr)) : List Member :=
  fields.map fun field => .field field.1 field.2

/-- Evaluation in another frame leaves a sealed object sealed and its frame as
it was. -/
theorem Heap.Sealed.eval {s u : Store} {o : ObjectId} {g : FrameId} (hs : s.heap.Sealed o g)
    {E : FrameId} (hE : E ≠ g) {limit : Nat} {e : Expr} {v : Value}
    (hv : PrototypeLisp.eval limit e E s = .ok v u) :
    u.heap.Sealed o g ∧ Untouched o g s.heap u.heap ∧
      ∀ id, v = .function id → id < u.heap.functions.size := by
  have hwatch : PrototypeLisp.watch limit e E s =
      ((PrototypeLisp.watch limit e E s).1, .ok v u) := by
    rw [← erase_watch] at hv
    exact Prod.ext rfl hv
  obtain ⟨⟨hsealed, huntouched⟩, hmade⟩ := (hs.watch hE limit e).of_ok hwatch
  exact ⟨hsealed, huntouched, hmade⟩

namespace Declares

variable {limit : Nat} {E g : FrameId} {o : ObjectId} {s t : Store}
  {fields : List (String × Expr)} {values : List (String × Value)}

theorem names (hd : Declares limit E o s fields values t) :
    values.map Prod.fst = fields.map Prod.fst := by
  induction hd with
  | nil => rfl
  | cons _ _ ih => simp [ih]

theorem exists_value (hd : Declares limit E o s fields values t) {field : String × Expr}
    (hfield : field ∈ fields) : ∃ value ∈ values, value.1 = field.1 := by
  rw [← List.mem_map, hd.names]
  exact List.mem_map_of_mem hfield

theorem exists_field (hd : Declares limit E o s fields values t) {value : String × Value}
    (hvalue : value ∈ values) : ∃ field ∈ fields, field.1 = value.1 := by
  rw [← List.mem_map, ← hd.names]
  exact List.mem_map_of_mem hvalue

/-- The object gets its members when the values evaluate. -/
theorem defineMembers (hd : Declares limit E o s fields values t) :
    Eval.defineMembers (eval limit) E o (fieldMembers fields) s = .ok () t := by
  induction hd with
  | nil => rfl
  | cons hv _ ih =>
    simp only [fieldMembers, List.map_cons, Eval.defineMembers, Eval.bind_apply, hv]
    exact ih

theorem sealed (hd : Declares limit E o s fields values t) (hE : E ≠ g)
    (hs : s.heap.Sealed o g) : t.heap.Sealed o g := by
  induction hd with
  | nil => exact hs
  | @cons _ _ _ name _ _ _ _ hv _ ih =>
    obtain ⟨hu, -, hmade⟩ := hs.eval hE hv
    exact ih (hu.defineField name hmade)

/-- A field that is in place stays so while further fields are declared. -/
theorem keeps (hd : Declares limit E o s fields values t) (hE : E ≠ g) (hs : s.heap.Sealed o g)
    (hplain : ∀ field ∈ fields, isMethodName field.1 = false) {name : String}
    (hname : isMethodName name = false) {v : Value} (hfield : s.heap.HasField o name v)
    (hapart : ∀ field ∈ fields, Apart name field.1) : t.heap.HasField o name v := by
  induction hd with
  | nil => exact hfield
  | @cons s u _ other _ w _ _ hv _ ih =>
    obtain ⟨hu, huntouched, hmade⟩ := hs.eval hE hv
    obtain ⟨hother, hplain⟩ := List.forall_mem_cons.1 hplain
    obtain ⟨hfirst, hapart⟩ := List.forall_mem_cons.1 hapart
    have hkept : u.heap.HasField o name v := hfield.untouched hs.frame huntouched
    have hdeclared : (u.heap.defineField o other w).HasField o name v :=
      hkept.defineField hu.frame hu.lt_size hname hother hfirst w
    exact ih (hu.defineField other hmade) hplain hdeclared hapart

/-- All fields are in place at the end when they are apart. -/
theorem hasField (hd : Declares limit E o s fields values t) (hE : E ≠ g)
    (hs : s.heap.Sealed o g) (hplain : ∀ field ∈ fields, isMethodName field.1 = false)
    (hapart : fields.Pairwise fun a b => Apart a.1 b.1) :
    ∀ value ∈ values, t.heap.HasField o value.1 value.2 := by
  induction hd with
  | nil => simp
  | @cons _ u _ name _ v _ _ hv hrest ih =>
    obtain ⟨hu, -, hmade⟩ := hs.eval hE hv
    obtain ⟨hfirst, hapart⟩ := List.pairwise_cons.1 hapart
    obtain ⟨hname, hplain⟩ := List.forall_mem_cons.1 hplain
    have hdeclared := hu.defineField name hmade
    refine List.forall_mem_cons.2 ⟨?_, ih hdeclared hplain hapart⟩
    exact hrest.keeps hE hdeclared hplain hname
      (hasField_defineField hu.frame hu.lt_size hname v) hfirst

end Declares

/-! ## Fields in use -/

/-- The object finds both accessors of the field. The getter gives the value,
and after an assignment it gives the value assigned. -/
structure Served (t : Store) (o : ObjectId) (field : String) (v : Value) : Prop where
  getter : t.heap.memberCode? o (getterName field) = some (.getField o field)
  setter : t.heap.memberCode? o (setterName field) = some (.setField o field)
  read : ∀ recur, ∃ u, Eval.message recur o (getterName field) [] t = .ok v u
  write : ∀ recur w, ∃ u u', Eval.message recur o (setterName field) [w] t = .ok w u ∧
    Eval.message recur o (getterName field) [] u = .ok w u'

/-- The getter of a field that is in place gives its value. -/
theorem message_getter {t : Store} {o : ObjectId} {field : String} {v : Value}
    (hfield : t.heap.HasField o field v) (recur : Evaluator) :
    ∃ u, Eval.message recur o (getterName field) [] t = .ok v u := by
  obtain ⟨function, hcode, events, hmessage⟩ :=
    message_of_memberCode? (memberCode?_of_ownCode? hfield.getter)
  have hreads : function.code.reads? = some (o, field) := by rw [hcode]; rfl
  exact ⟨_, (hmessage recur []).trans
    (invoke_getter (s := ⟨t.heap, events⟩) hreads hfield.value recur _)⟩

/-- A field that is in place is served. -/
theorem served_of_hasField {t : Store} {o : ObjectId} {g : FrameId} (hs : t.heap.Sealed o g)
    {field : String} (hplain : isMethodName field = false) {v : Value}
    (hfield : t.heap.HasField o field v) : Served t o field v where
  getter := memberCode?_of_ownCode? hfield.getter
  setter := memberCode?_of_ownCode? hfield.setter
  read := message_getter hfield
  write recur w := by
    obtain ⟨function, hcode, events, hmessage⟩ :=
      message_of_memberCode? (memberCode?_of_ownCode? hfield.setter)
    have hwrites : function.code.writes? = some (o, field) := by rw [hcode]; rfl
    have hset := hfield.setMember hs.frame hs.lt_size hplain w
    obtain ⟨u', hread⟩ := message_getter (t := ⟨t.heap.setMember o field w, events⟩) hset recur
    exact ⟨_, u', (hmessage recur [w]).trans (invoke_setter hwrites recur _ w _), hread⟩

/-- The names of the fields of a literal are no names of methods. -/
theorem isMethodName_of_classify {arguments : List Expr} {name : Option String}
    {fields : List (String × Expr)}
    (hclass : Form.classify "object" arguments = .ok (.object name (fieldMembers fields))) :
    ∀ field ∈ fields, isMethodName field.1 = false := by
  intro field hfield
  have hwithin := Form.within_classify partsClosed_true (fun _ _ => trivial) hclass
  exact (hwithin _ (List.mem_map.2 ⟨field, hfield, rfl⟩)).1

/-- One name cannot stand for the setter of one field and the getter of
another one. -/
theorem ne_of_served {t : Store} {o : ObjectId} {a b : String} {v w : Value}
    (ha : Served t o a v) (hb : Served t o b w) : b ≠ a ++ "=" := by
  intro heq
  have hset := ha.setter
  rw [setterName_eq_getterName_iff.2 heq, hb.getter] at hset
  cases hset

/-- A literal of fields whose values evaluate gives its object. The object
serves all of them exactly when none is named like another one followed by
`=`. -/
theorem fields_served_iff {s t : Store} (h : Visited s) {E : FrameId}
    (hE : E < s.heap.scopes.size) {arguments : List Expr} {name : Option String}
    {fields : List (String × Expr)}
    (hclass : Form.classify "object" arguments = .ok (.object name (fieldMembers fields)))
    (hnodup : (fields.map Prod.fst).Nodup) {limit : Nat} {values : List (String × Value)}
    (hvalues : Declares limit E s.heap.objects.size (allocated name E s) fields values t) :
    eval (limit + 1) (.form "object" arguments) E s = .ok (.object s.heap.objects.size) t ∧
    ((∀ value ∈ values, Served t s.heap.objects.size value.1 value.2) ↔
      ∀ a ∈ fields, ∀ b ∈ fields, b.1 ≠ a.1 ++ "=") := by
  have hne : E ≠ s.heap.scopes.size := Nat.ne_of_lt hE
  have hstart : (allocated name E s).heap.Sealed s.heap.objects.size s.heap.scopes.size :=
    sealed_newObject h.wellFormed name E
  have hplain := isMethodName_of_classify hclass
  refine ⟨?_, ?_, ?_⟩
  · have hrun : Eval.defineMembers (eval limit) E s.heap.objects.size (fieldMembers fields)
        ⟨(s.heap.newObject name E).2, s.events⟩ = .ok () t := hvalues.defineMembers
    simp only [eval, Eval.step, hclass, Eval.evalForm, Eval.bind_apply, Eval.withHeap,
      fst_newObject, hrun]
    rfl
  · intro hserved a ha b hb
    obtain ⟨x, hx, hxa⟩ := hvalues.exists_value ha
    obtain ⟨y, hy, hyb⟩ := hvalues.exists_value hb
    rw [← hxa, ← hyb]
    exact ne_of_served (hserved x hx) (hserved y hy)
  · intro hapart value hvalue
    have hpairwise : fields.Pairwise fun a b => Apart a.1 b.1 := by
      refine (List.pairwise_map.1 hnodup).imp_of_mem ?_
      intro a b ha hb hab
      exact ⟨hab, hapart a ha b hb, hapart b hb a ha⟩
    obtain ⟨field, hfield, hname⟩ := hvalues.exists_field hvalue
    have hdeclared := hvalues.hasField hne hstart hplain hpairwise value hvalue
    exact served_of_hasField (hvalues.sealed hne hstart) (hname ▸ hplain field hfield) hdeclared

/-- The literal `(object (a 1) (b 2))`. -/
def twoFields (a b : String) : List Expr :=
  [.form a [.number (.ofNat 1)], .form b [.number (.ofNat 2)]]

/-- The values that it declares. -/
def twoValues (a b : String) : List (String × Value) :=
  [(a, .number (.ofNat 1)), (b, .number (.ofNat 2))]

/-- In `(object (x 1) (x= 2))` the getter of the second field takes the place
of the setter of the first one, which is lost. -/
theorem not_served_colliding :
    ∃ t, eval 3 (.form "object" (twoFields "x" "x=")) root Session.initial = .ok (.object 1) t ∧
      ((twoValues "x" "x=").map Prod.fst).Nodup ∧
      ¬ ∀ value ∈ twoValues "x" "x=", Served t 1 value.1 value.2 := by
  refine ⟨(eval 3 (.form "object" (twoFields "x" "x=")) root).after Session.initial, rfl,
    by decide, fun hserved => ?_⟩
  have hsetter := (hserved ("x", .number (.ofNat 1)) (by simp [twoValues])).setter
  have hreads : (((eval 3 (.form "object" (twoFields "x" "x=")) root).after
      Session.initial).heap.memberCode? 1 (setterName "x")).bind Code.reads? =
        some (1, "x=") := by decide +kernel
  rw [hsetter] at hreads
  cases hreads

/-- In a new session `(object (x 1) (y 2))` serves both its fields. -/
theorem fields_served_iff_apart :
    ∃ t, eval 3 (.form "object" (twoFields "x" "y")) root Session.initial = .ok (.object 1) t ∧
      ∀ value ∈ twoValues "x" "y", Served t 1 value.1 value.2 := by
  have hvisited : Visited Session.initial := .reached (.between .fresh)
  have hclass : Form.classify "object" (twoFields "x" "y") = .ok (.object none
      (fieldMembers [("x", .number (.ofNat 1)), ("y", .number (.ofNat 2))])) := rfl
  obtain ⟨t, hdeclares⟩ : ∃ t, Declares 2 root 1 (allocated none root Session.initial)
      [("x", .number (.ofNat 1)), ("y", .number (.ofNat 2))] (twoValues "x" "y") t :=
    ⟨_, .cons rfl (.cons rfl .nil)⟩
  obtain ⟨hobject, hserved⟩ :=
    fields_served_iff hvisited wellFormed_initial.root.lt_size hclass (by decide) hdeclares
  exact ⟨t, hobject, hserved.2 (by decide)⟩

end PrototypeLisp
