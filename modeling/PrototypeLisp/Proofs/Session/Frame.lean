/-
PrototypeLisp.Proofs.Session.Frame — what an evaluation leaves alone.

Code is never evaluated in the frame of an object, and an assignment binds in
the frame it stands in. So an evaluation in a scope changes, of the frames
that were there before, that scope and the frames of objects; and in the frame
of an object it can only set the prototype and declared fields (`Framed`). A
block has a frame of its own and leaves the scope around it alone as well.

The frame of a block or a body is in the realm of no evaluation that comes
after it: once the block or the body has ended, its frame stays as it is.
-/
import PrototypeLisp.Proofs.Session.Run

namespace PrototypeLisp

open Heap

/-- What may differ between two heaps in the frames of the first when the
second comes from an evaluation in the scope `E`; `declared` tells the fields
of objects. -/
structure Framed (declared : ObjectId → String → Prop) (E : FrameId) (h h' : Heap) :
    Prop where
  /-- Outer links stay. -/
  outer : ∀ g, g < h.scopes.size → h'.scopes.outer? g = h.scopes.outer? g
  /-- Every scope but `E` keeps its bindings. -/
  scopes : ∀ g, h.IsScope g → g ≠ E → h'.scopes.bindings g = h.scopes.bindings g
  /-- Objects keep their frames. -/
  owners : ∀ o g, h.frameOf? o = some g → h'.frameOf? o = some g
  /-- What an object has under dotted names stays. -/
  methods : ∀ o g name, h.frameOf? o = some g → isMethodName name = true →
    h'.scopes.own? g name = h.scopes.own? g name
  /-- The only name that an object can get is that of its prototype. -/
  added : ∀ o g name, h.frameOf? o = some g → name ∈ (h'.scopes.bindings g).names →
    name ∈ (h.scopes.bindings g).names ∨ name = prototypeName
  /-- The only values of an object that change are its prototype and its
  fields. -/
  changed : ∀ o g name, h.frameOf? o = some g →
    h'.scopes.own? g name ≠ h.scopes.own? g name → name = prototypeName ∨ declared o name

/-- Evolution in the realm of a scope keeps to the frame of that scope. -/
theorem framed_of_evolves {code : Expr → Prop} {declared : ObjectId → String → Prop}
    {E : FrameId} {h h' : Heap} (hw : h.WellFormed)
    (hd : ∀ o name, h.DeclaresField o name → declared o name)
    (he : Evolves code (Realm.of E h.scopes.size h.objects.size) h h') :
    Framed declared E h h' := by
  have hgrow := he.grows
  have hconfined := he.confined hw
  -- an object that was there before can only change in its prototype and its fields
  have hchanged : ∀ o g name, h.frameOf? o = some g →
      h'.scopes.own? g name ≠ h.scopes.own? g name →
        name = prototypeName ∨ h.DeclaresField o name := by
    intro o g name ho hne
    refine hconfined.members o g name ho (fun hR => ?_) hne
    exact absurd ((h.frameOf?_isSome_iff o).1 ⟨g, ho⟩) (Nat.not_lt_of_le hR)
  exact {
    outer := hgrow.outer
    scopes := fun g hg hne => by
      refine hconfined.scopes g hg fun hR => ?_
      rcases hR with hR | hR
      · exact hne hR
      · exact absurd hg.lt_size (Nat.not_lt_of_le hR)
    owners := fun o g ho => hgrow.frameOf? ho
    methods := fun o g name ho hdot => by
      refine Classical.byContradiction fun hne => ?_
      rcases hchanged o g name ho hne with rfl | hfield
      · exact absurd hdot (by decide)
      · rw [(hw.declaresField hfield).1] at hdot
        simp at hdot
    added := fun o g name ho hname => by
      rw [← Bindings.isSome_get?_iff] at hname ⊢
      by_cases hsame : h'.scopes.own? g name = h.scopes.own? g name
      · have hown : (h'.scopes.own? g name).isSome = true := hname
        rw [hsame] at hown
        exact .inl hown
      · rcases hchanged o g name ho hsame with hprototype | hfield
        · exact .inr hprototype
        · have hbound := (hw.declaresField hfield).2
          simp only [member?, ho, Option.bind_some] at hbound
          exact .inl hbound
    changed := fun o g name ho hne => (hchanged o g name ho hne).imp_right (hd o name) }

/-- A block evolves the heap in the realm of the frame it makes, so the frame
it stands in does not matter. -/
theorem evolves_block {code : Expr → Prop} (hc : PartsClosed code) {s : Store} {f : FrameId}
    {k : Nat} (hs : Ready code f k s.heap) (limit : Nat) {arguments : List Expr}
    (he : code (.form "do" arguments)) :
    Evolves code (Realm.of s.heap.scopes.size s.heap.scopes.size k) s.heap
      ((eval limit (.form "do" arguments) f).after s).heap := by
  cases limit with
  | zero => exact Evolves.refl _
  | succ limit =>
    have hblock := meets_block (sound_watch hc limit) hs (hc _ _ he) s.heap.scopes.size
    rw [← after_watch]
    exact hblock.course.reaches.evolves

/-- At every state of a session an evaluation in a scope keeps to the frame of
that scope, a block leaves that scope alone too, and the frames of the blocks
and bodies that have ended are as they were when these ended. -/
theorem eval_framed {ms : List Moment} {s : Store} (h : Reached ms s) {E : FrameId}
    (hE : s.heap.IsScope E) (limit : Nat) (e : Expr) :
    Framed (fun o name => ∃ u, .declared o name u ∈ ms) E s.heap
        ((eval limit e E).after s).heap ∧
      (∀ arguments, e = .form "do" arguments →
        ((eval limit e E).after s).heap.scopes.bindings E = s.heap.scopes.bindings E) ∧
      ∀ g u, .closed g u ∈ ms → s.heap.scopes.bindings g = u.heap.scopes.bindings g := by
  have hs := ready_of_wellFormed h.wellFormed hE (Nat.le_refl s.heap.objects.size)
  refine ⟨?_, ?_, ?_⟩
  · refine framed_of_evolves h.wellFormed ?_ (evolves_eval partsClosed_true hs limit trivial)
    intro o name hd
    exact (h.reaches.declared o name hd).resolve_left (not_declaresField_initial o name)
  · rintro arguments rfl
    have hblock : Evolves (fun _ => True) (Realm.of s.heap.scopes.size s.heap.scopes.size
        s.heap.objects.size) s.heap ((eval limit (.form "do" arguments) E).after s).heap :=
      evolves_block partsClosed_true hs limit trivial
    refine (hblock.confined h.wellFormed).scopes E hE fun hR => ?_
    rcases hR with rfl | hR
    · exact absurd hE.lt_size (Nat.lt_irrefl _)
    · exact absurd hE.lt_size (Nat.not_lt_of_le hR)
  · intro g u hm
    exact (h.reaches.closed g u hm).2.2

/-- `(def o (object (x :old)))` -/
def fieldDeclaration : Expr :=
  .form "def" [.variable "o", .form "object" [.form "x" [.atom "old"]]]

/-- `(do (.x= o :new))` -/
def fieldUpdate : Expr :=
  .form "do" [.form ".x=" [.variable "o", .atom "new"]]

/-- A setter called in a block changes the field of an older object and
nothing in the scope around the block. -/
theorem eval_framed_update :
    let s := (eval 9 fieldDeclaration root).after Session.initial
    let t := (eval 9 fieldUpdate root).after s
    s.heap.member? 1 "x" = some (.atom "old") ∧ t.heap.member? 1 "x" = some (.atom "new") ∧
      Reached (watch 9 fieldDeclaration root Session.initial).1 s ∧ s.heap.IsScope root ∧
      Framed (fun o name => ∃ u, .declared o name u ∈ (watch 9 fieldDeclaration root
        Session.initial).1) root s.heap t.heap ∧
      t.heap.scopes.bindings root = s.heap.scopes.bindings root := by
  intro s t
  have hreached : Reached (watch 9 fieldDeclaration root Session.initial).1 s :=
    .between (.evaluated 9 fieldDeclaration .fresh)
  have hroot : s.heap.IsScope root := hreached.wellFormed.root
  have hframed := eval_framed hreached hroot 9 fieldUpdate
  refine ⟨?_, ?_, hreached, hroot, hframed.1, hframed.2.1 _ rfl⟩
  · decide +kernel
  · decide +kernel

end PrototypeLisp
