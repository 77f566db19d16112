/-
PrototypeLisp.Proofs.Heap.Extra — heaps that differ in one name of the root
frame.

`Extra n v h h'` says that the second heap binds a name in its root frame that
the first one does not have there, and that this is all there is between them:
without the name the second heap is the first. No object owns the root frame,
so the members of all objects are the same, also those that go by the extra
name.

Every operation that does not bind the extra name in the root frame keeps this
relation, because taking the name away commutes with it. So the two heaps
cannot be told apart by any other name (`indistinct_extra`).
-/
import PrototypeLisp.Proofs.Eval.Coupling

namespace PrototypeLisp

/-! ## Taking a name away -/

namespace Bindings

variable {α : Type}

/-- Taking a name away leaves the values of the other names. -/
theorem get?_remove (bindings : Bindings α) (name other : String) :
    get? (remove bindings name) other = if other = name then none else get? bindings other := by
  induction bindings with
  | nil => simp [remove]
  | cons binding rest ih =>
    obtain ⟨bound, old⟩ := binding
    by_cases hbound : bound = name
    · subst hbound
      have hskip : remove ((bound, old) :: rest) bound = remove rest bound := by simp [remove]
      rw [hskip, ih, get?_cons]
      split <;> rfl
    · have hkeep : remove ((bound, old) :: rest) name = (bound, old) :: remove rest name := by
        simp [remove, hbound]
      rw [hkeep, get?_cons, get?_cons, ih]
      by_cases hother : other = bound
      · subst hother
        rw [if_pos rfl, if_pos rfl, if_neg hbound]
      · rw [if_neg hother, if_neg hother]

/-- One name can be taken away before or after another one is bound. -/
theorem remove_set (bindings : Bindings α) {name other : String} (hne : name ≠ other)
    (value : α) :
    remove (set bindings name value) other = set (remove bindings other) name value := by
  induction bindings with
  | nil => simp [remove, set, hne]
  | cons binding rest ih =>
    obtain ⟨bound, old⟩ := binding
    rw [set]
    by_cases hname : bound = name
    · subst hname
      simp [remove, set, hne]
    · by_cases hother : bound = other
      · subst hother
        simpa [remove, hname] using ih
      · simpa [remove, set, hname, hother] using ih

theorem remove_set_self {bindings : Bindings α} {name : String} (hname : get? bindings name = none)
    (value : α) : remove (set bindings name value) name = bindings := by
  induction bindings with
  | nil => simp [set, remove]
  | cons binding rest ih =>
    obtain ⟨bound, old⟩ := binding
    rw [get?_cons] at hname
    split at hname
    · simp at hname
    · rename_i hne
      have hne' : bound ≠ name := fun heq => hne heq.symm
      rw [set, if_neg hne']
      simpa [remove, hne'] using ih hname

end Bindings

namespace Scopes

variable {α : Type}

/-- Frames are known by their views. -/
theorem eq_of_views {s t : Scopes α} (hsize : s.size = t.size)
    (hbindings : ∀ f, s.bindings f = t.bindings f) (houter : ∀ f, s.outer? f = t.outer? f) :
    s = t := by
  obtain ⟨frames, hlt⟩ := s
  obtain ⟨frames', hlt'⟩ := t
  suffices hframes : frames = frames' by
    subst hframes
    rfl
  refine Array.ext hsize fun f hf hf' => ?_
  have hb := hbindings f
  have ho := houter f
  simp only [bindings, outer?, Array.getElem?_eq_getElem hf, Array.getElem?_eq_getElem hf',
    Option.bind_some] at hb ho
  generalize frames[f] = frame at hb ho
  generalize frames'[f] = frame' at hb ho
  cases frame
  cases frame'
  simp_all

/-- Changes of different frames, or changes of one frame that commute. -/
theorem update_comm (s : Scopes α) {f g : FrameId} {a b : Bindings α → Bindings α}
    (hcomm : f = g → ∀ bindings, a (b bindings) = b (a bindings)) :
    (s.update f a).update g b = (s.update g b).update f a := by
  refine eq_of_views (by simp) (fun k => ?_) (fun k => by simp)
  simp only [bindings_update, size_update]
  by_cases hf : f = k ∧ k < s.size
  · by_cases hg : g = k ∧ k < s.size
    · rw [if_pos hg, if_pos hf, if_pos hf, if_pos hg]
      exact (hcomm (hf.1.trans hg.1.symm) _).symm
    · rw [if_neg hg, if_pos hf, if_pos hf, if_neg hg]
  · rw [if_neg hf, if_neg hf]

theorem update_push (s : Scopes α) (outer : Option FrameId) {f : FrameId} (hf : f < s.size)
    (a : Bindings α → Bindings α) :
    ((s.update f a).push outer).2 = (s.push outer).2.update f a := by
  refine eq_of_views (by simp) (fun k => ?_) (fun k => ?_)
  · simp only [bindings_push, bindings_update, size_push]
    by_cases hk : f = k
    · subst hk
      rw [if_pos ⟨rfl, hf⟩, if_pos ⟨rfl, Nat.lt_succ_of_lt hf⟩]
    · rw [if_neg (fun h => hk h.1), if_neg (fun h => hk h.1)]
  · simp only [outer?_push, outer?_update, size_update]

theorem delete_define (s : Scopes α) {f g : FrameId} {name other : String}
    (hne : g = f → name ≠ other) (value : α) :
    (s.define g name value).delete f other = (s.delete f other).define g name value :=
  update_comm s fun heq bindings => (Bindings.remove_set bindings (hne heq) value).symm

/-- A new name, bound and taken away again. -/
theorem delete_define_self (s : Scopes α) {f : FrameId} {name : String}
    (hname : s.own? f name = none) (value : α) : (s.define f name value).delete f name = s := by
  refine eq_of_views (by simp [delete]) (fun k => ?_) (fun k => by simp [delete])
  simp only [delete, define, bindings_update, size_update]
  by_cases hk : f = k ∧ k < s.size
  · obtain ⟨rfl, hlt⟩ := hk
    rw [if_pos ⟨rfl, hlt⟩, if_pos ⟨rfl, hlt⟩, Bindings.remove_set_self hname]
  · rw [if_neg hk, if_neg hk]

/-- Taking a name away from a frame changes what that frame has under that
name, and nothing else. -/
theorem own?_delete (s : Scopes α) (f g : FrameId) (name other : String) :
    (s.delete f name).own? g other =
      if f = g ∧ other = name then none else s.own? g other := by
  unfold own? delete
  rw [bindings_update]
  by_cases hg : f = g ∧ g < s.size
  · rw [if_pos hg, Bindings.get?_remove]
    simp [hg.1]
  · rw [if_neg hg]
    split
    · rename_i h
      rw [bindings_of_size_le s (Nat.le_of_not_lt fun hlt => hg ⟨h.1, hlt⟩), Bindings.get?_nil]
    · rfl

end Scopes

namespace Heap

/-- A heap whose root frame does not have the name. -/
def without (h : Heap) (name : String) : Heap :=
  { h with scopes := h.scopes.delete root name }

/-! ## One extra name -/

/-- The second heap is the first with one more name in the root frame, which
no object owns. -/
structure Extra (name : String) (value : Value) (h h' : Heap) : Prop where
  without : h'.without name = h
  bound : h'.scopes.own? root name = some value
  unowned : ∀ o, h'.frameOf? o ≠ some root

namespace Extra

variable {n : String} {v : Value} {h h' : Heap}

theorem root_lt (he : Extra n v h h') : root < h'.scopes.size := by
  refine Nat.lt_of_not_le fun hle => ?_
  have hnone := h'.scopes.own?_of_size_le hle n
  rw [he.bound] at hnone
  simp at hnone

theorem objects (he : Extra n v h h') : h'.objects = h.objects := by
  rw [← he.without]
  rfl

theorem frameOf? (he : Extra n v h h') (o : ObjectId) : h'.frameOf? o = h.frameOf? o := by
  rw [Heap.frameOf?, Heap.frameOf?, he.objects]

theorem size (he : Extra n v h h') : h'.scopes.size = h.scopes.size := by
  rw [← he.without]
  exact (Scopes.size_update _ _ _).symm

/-- Binding a name, in another frame or another name. -/
theorem define (he : Extra n v h h') (f : FrameId) {name : String}
    (hne : f = root → name ≠ n) (value : Value) :
    Extra n v (h.define f name value) (h'.define f name value) where
  without := by
    have hsame := Scopes.delete_define h'.scopes hne value
    rw [← he.without]
    simp only [Heap.without, Heap.define, hsame]
  bound := by
    rw [Heap.define, Scopes.own?_define, if_neg, he.bound]
    exact fun h => hne h.1 h.2.1.symm
  unowned := he.unowned

theorem setMember (he : Extra n v h h') (o : ObjectId) (name : String) (value : Value) :
    Extra n v (h.setMember o name value) (h'.setMember o name value) := by
  unfold Heap.setMember
  rw [← he.frameOf?]
  split
  · rename_i f hf
    refine he.define f (fun hroot => ?_) value
    rw [hroot] at hf
    exact absurd hf (he.unowned o)
  · exact he

theorem newFrame (he : Extra n v h h') (outer : Option FrameId) :
    Extra n v (h.newFrame outer).2 (h'.newFrame outer).2 where
  without := by
    have hsame := Scopes.update_push h'.scopes outer he.root_lt (·.remove n)
    rw [← he.without]
    simp only [Heap.without, Heap.newFrame, Scopes.delete, hsame]
  bound := by
    rw [Heap.newFrame, Scopes.own?_push, he.bound]
  unowned := he.unowned

theorem defineAll (he : Extra n v h h') {f : FrameId} (hf : f ≠ root)
    (bindings : Bindings Value) :
    Extra n v { h with scopes := h.scopes.defineAll f bindings }
      { h' with scopes := h'.scopes.defineAll f bindings } := by
  induction bindings generalizing h h' with
  | nil => exact he
  | cons binding bindings ih =>
    exact ih (he.define f (fun hroot => absurd hroot hf) binding.2)

theorem extended (he : Extra n v h h') (outer : FrameId) (bindings : Bindings Value) :
    Extra n v (h.extended outer bindings) (h'.extended outer bindings) := by
  unfold Heap.extended
  rw [← he.size]
  exact (he.newFrame (some outer)).defineAll (Nat.ne_of_gt he.root_lt) bindings

theorem newFunction (he : Extra n v h h') (name : String) (code : Code) :
    Extra n v (h.newFunction name code).2 (h'.newFunction name code).2 where
  without := by
    rw [← he.without]
    rfl
  bound := he.bound
  unowned := he.unowned

/-- The frame of a new object is new, so it is not the root frame. -/
theorem allocate (he : Extra n v h h') (name : Option String) (outer : FrameId) :
    Extra n v (h.allocate name outer) (h'.allocate name outer) where
  without := by
    have hsame := (he.newFrame (some outer)).without
    show { (h'.newFrame (some outer)).2.without n with
      objects := h'.objects.push ⟨name, h'.scopes.size⟩ } = h.allocate name outer
    rw [hsame, he.objects, he.size]
    rfl
  bound := (he.newFrame (some outer)).bound
  unowned o := by
    rw [frameOf?_allocate]
    split
    · intro heq
      exact absurd (Option.some.inj heq) (Nat.ne_of_gt he.root_lt)
    · exact he.unowned o

end Extra

/-- Binding a new name in the root frame adds it and nothing else. -/
theorem extra_define {h : Heap} (hroot : h.IsScope root) {n : String}
    (hn : h.scopes.contains root n = false) (v : Value) : Extra n v h (h.define root n v) where
  without := by
    have hsame := h.scopes.delete_define_self (by simpa [Scopes.contains] using hn) v
    simp only [without, define, hsame]
  bound := by
    rw [define, Scopes.own?_define, if_pos ⟨rfl, rfl, hroot.lt_size⟩]
  unowned o ho := hroot.not_owned ⟨o, ho⟩

/-- Heaps with one extra name cannot be told apart by other names. -/
theorem indistinct_extra (n : String) (v : Value) : Indistinct (· ≠ n) (Extra n v) where
  functions he := by rw [← he.without]; rfl
  objects he := he.objects
  size he := he.size
  outer? he f := by rw [← he.without]; exact (Scopes.outer?_update _ _ f _).symm
  own? he f name hname := by
    rw [← he.without, without, Scopes.own?_delete, if_neg (fun h => hname h.2)]
  member? {h h'} he o name := by
    rw [member?, member?, ← he.frameOf?]
    cases hf : h'.frameOf? o with
    | none => rfl
    | some f =>
      have hroot : f ≠ root := fun heq => he.unowned o (heq ▸ hf)
      rw [Option.bind_some, Option.bind_some, ← he.without, without, Scopes.own?_delete,
        if_neg (fun h => hroot h.1.symm)]
  extended he outer bindings := he.extended outer bindings
  define he f name value hname := he.define f (fun _ => hname) value
  setMember he o name value := he.setMember o name value
  newFunction he name code := he.newFunction name code
  allocate he name outer := he.allocate name outer

end Heap

end PrototypeLisp
