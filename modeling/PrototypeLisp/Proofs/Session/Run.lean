/-
PrototypeLisp.Proofs.Session.Run — the states that a session can be in.

`Run` is a session between two evaluations: it starts from the store of a new
session and goes on by evaluating any expression in the root frame, whatever
the evaluation ends in. `Reached` adds the states inside an evaluation, one
for each moment that it passes. Both come with the list of all moments passed
so far.

Every run keeps to the course of a computation in the root frame
(`Run.course`), so at every state reached the heap is well formed, its frames
are where they were at every earlier moment, and the frames made for blocks
and calls are scopes (`Intact`).
-/
import Mathlib.Logic.ExistsUnique
import PrototypeLisp.Proofs.Eval.Soundness

namespace PrototypeLisp

open Heap

/-! ## Evaluation from a ready heap -/

/-- The store that a watched evaluation leads to is that of evaluation. -/
theorem after_watch (limit : Nat) (e : Expr) (f : FrameId) (s : Store) :
    (watch limit e f).erase.after s = (eval limit e f).after s := by
  rw [erase_watch]

theorem partsClosed_true : PartsClosed fun _ => True :=
  fun _ _ _ _ _ => trivial

/-- Any expression may be evaluated in any scope of a well-formed heap. -/
theorem ready_of_wellFormed {h : Heap} (hw : h.WellFormed) {f : FrameId} (hf : h.IsScope f)
    {k : Nat} (hk : k ≤ h.objects.size) : Ready (fun _ => True) f k h :=
  ⟨hw, fun _ _ _ _ _ => trivial, hf, hk⟩

/-- Evaluation evolves the heap within the realm of its frame. -/
theorem evolves_eval {code : Expr → Prop} (hc : PartsClosed code) {s : Store} {f : FrameId}
    {k : Nat} (hs : Ready code f k s.heap) (limit : Nat) {e : Expr} (he : code e) :
    Evolves code (Realm.of f s.heap.scopes.size k) s.heap ((eval limit e f).after s).heap := by
  have hmeets := sound_watch hc limit e f k s he hs
  rw [← after_watch]
  exact hmeets.course.reaches.evolves

/-! ## Runs -/

/-- A session between two evaluations, with the moments passed since its
start. -/
inductive Run : List Moment → Store → Prop where
  /-- A new session. -/
  | fresh : Run [] Session.initial
  /-- An expression has been evaluated in the root frame. -/
  | evaluated {ms : List Moment} {s : Store} (limit : Nat) (e : Expr) (h : Run ms s) :
      Run (ms ++ (watch limit e root s).1) ((eval limit e root).after s)
  /-- Something has been noted in the log. -/
  | noted {ms : List Moment} {s : Store} (event : Event) (h : Run ms s) :
      Run ms { s with events := event :: s.events }

/-- A state of a session: between two evaluations, or at a moment that an
evaluation passes. -/
inductive Reached : List Moment → Store → Prop where
  | between {ms : List Moment} {s : Store} (h : Run ms s) : Reached ms s
  | during {ms before after : List Moment} {m : Moment} {s : Store} (limit : Nat) (e : Expr)
      (h : Run ms s) (hm : (watch limit e root s).1 = before ++ m :: after) :
      Reached (ms ++ before ++ [m]) m.store

/-- The functions of a new session: the operators and the members of
`Object`. -/
theorem functions_initial : Heap.initial.functions =
    #[⟨"+", .operator .plus⟩, ⟨"-", .operator .minus⟩, ⟨"*", .operator .times⟩,
      ⟨"/", .operator .over⟩, ⟨".prototype", .getPrototype 0⟩,
      ⟨".prototype=", .setPrototype 0⟩, ⟨".instance?", .isInstance 0⟩] := rfl

/-- No function of a new session has a body. -/
theorem body?_initial (id : FunctionId) (function : Function)
    (hid : Heap.initial.functions[id]? = some function) : function.code.body? = none := by
  have hall : ∀ function ∈ Heap.initial.functions.toList, function.code.body? = none := by
    rw [functions_initial]
    decide
  exact hall function (Array.mem_toList_iff.2 (Array.mem_of_getElem? hid))

/-- A new session has no declared fields. -/
theorem not_declaresField_initial (o : ObjectId) (field : String) :
    ¬ Heap.initial.DeclaresField o field := by
  rintro ⟨id, function, hid, hcode⟩
  have hall : ∀ function ∈ Heap.initial.functions.toList, function.code.field? = none := by
    rw [functions_initial]
    decide
  have hnone := hall function (Array.mem_toList_iff.2 (Array.mem_of_getElem? hid))
  simp [hcode, Code.field?] at hnone

/-- A new session is ready for any set of expressions. -/
theorem ready_initial (code : Expr → Prop) : Ready code root 0 Session.initial.heap where
  wellFormed := wellFormed_initial
  bodies id function body hid hbody := by simp [body?_initial id function hid] at hbody
  scope := wellFormed_initial.root
  objects_le := Nat.zero_le _

/-- A run is a computation in the root frame of a new session. -/
theorem Run.course {ms : List Moment} {s : Store} (h : Run ms s) :
    Course (fun _ => True) root 0 Session.initial ms s := by
  induction h with
  | fresh => exact .of_reaches (.refl _ _ _ _)
  | @evaluated ms s limit e _ ih =>
    have hs : Ready (fun _ => True) root 0 s.heap := (ready_initial _).evolves ih.reaches.evolves
    have hmeets := sound_watch partsClosed_true limit e root 0 s trivial hs
    rw [← after_watch]
    exact ih.append wellFormed_initial hmeets.course (.inl rfl)
      (ih.reaches.closed_ne wellFormed_initial.root.lt_size)
  | noted event _ ih => exact ⟨{ ih.reaches with }, ih.along⟩

/-- What is known at every state of a session. -/
theorem Reached.reaches {ms : List Moment} {s : Store} (h : Reached ms s) :
    Reaches (fun _ => True) root 0 Session.initial ms s := by
  cases h with
  | between h => exact h.course.reaches
  | @during ms before after m s limit e h hm =>
    have hnext := (Run.evaluated limit e h).course
    rw [hm, ← List.append_assoc] at hnext
    exact hnext.at_moment

theorem Reached.wellFormed {ms : List Moment} {s : Store} (h : Reached ms s) :
    s.heap.WellFormed :=
  h.reaches.evolves.wellFormed wellFormed_initial

/-! ## The invariant of sessions -/

/-- What holds of the heap after the moments of a session. -/
structure Intact (ms : List Moment) (h : Heap) : Prop where
  /-- References lead to something, objects own frames of their own, functions
  are captured by scopes, members are code of their object. -/
  wellFormed : h.WellFormed
  /-- Code of an object belongs to an object that exists. -/
  owners : ∀ (id : FunctionId) (function : Function) (o : ObjectId),
    h.functions[id]? = some function → function.code.owner? = some o → o < h.objects.size
  /-- An outer frame is older than the frames inside it. -/
  older : ∀ f g, h.scopes.outer? f = some g → g < f
  /-- An outer link is as it was at every earlier moment. -/
  fixed : ∀ m ∈ ms, ∀ f, f < m.store.heap.scopes.size →
    h.scopes.outer? f = m.store.heap.scopes.outer? f
  /-- From every frame the outer links lead to the root frame. -/
  rooted : ∀ f, f < h.scopes.size → h.scopes.root f = root
  /-- Every object owns exactly one frame. -/
  frame : ∀ o, o < h.objects.size → ∃! f, h.frameOf? o = some f
  /-- The frames made for blocks and bodies exist and no object owns them. -/
  opened : ∀ f u, .opened f u ∈ ms → h.IsScope f
  /-- Nothing is ever evaluated in the frame of an object. -/
  begun : ∀ e f u, .begun e f u ∈ ms → h.IsScope f

theorem intact_of_grown {ms : List Moment} {h : Heap} (hw : h.WellFormed)
    (hgrown : ∀ m ∈ ms, m.store.heap.Grows h)
    (hopened : ∀ f u, .opened f u ∈ ms → h.IsScope f)
    (hbegun : ∀ e f u, .begun e f u ∈ ms → h.IsScope f) : Intact ms h where
  wellFormed := hw
  owners _ _ _ hid howner := hw.owner_lt hid howner
  older _ _ hg := Scopes.lt_of_outer? hg
  fixed m hm f hf := (hgrown m hm).outer f hf
  rooted _ hf := hw.root_eq hf
  frame o ho := by
    obtain ⟨f, hf⟩ := (h.frameOf?_isSome_iff o).2 ho
    exact ⟨f, hf, fun g hg => Option.some.inj (hg.symm.trans hf)⟩
  opened := hopened
  begun := hbegun

/-- The invariant holds at every state of a session, inside evaluations too,
and every evaluation in any scope keeps it, whatever it ends in. -/
theorem reached_intact {ms : List Moment} {s : Store} (h : Reached ms s) :
    Intact ms s.heap ∧ ∀ limit e f, s.heap.IsScope f →
      Intact (ms ++ (watch limit e f s).1) ((eval limit e f).after s).heap := by
  have hr := h.reaches
  refine ⟨intact_of_grown h.wellFormed hr.grown hr.opened hr.begun, fun limit e f hf => ?_⟩
  have hs := ready_of_wellFormed h.wellFormed hf (Nat.zero_le _)
  have hnext := (sound_watch partsClosed_true limit e f 0 s trivial hs).course.reaches
  rw [after_watch] at hnext
  have hgrow := hnext.evolves.grows
  refine intact_of_grown (hnext.evolves.wellFormed h.wellFormed) ?_ ?_ ?_
  · intro m hm
    rcases List.mem_append.1 hm with hm | hm
    · exact (hr.grown m hm).trans hgrow
    · exact hnext.grown m hm
  · intro g u hm
    rcases List.mem_append.1 hm with hm | hm
    · exact hgrow.isScope (hr.opened g u hm)
    · exact hnext.opened g u hm
  · intro e' g u hm
    rcases List.mem_append.1 hm with hm | hm
    · exact hgrow.isScope (hr.begun e' g u hm)
    · exact hnext.begun e' g u hm

/-- A method that fails, called on an object made in a block. -/
def failingCall : Expr :=
  .form "do" [.form "def" [.variable "o", .form "object"
    [.form "" [.form ".m" [], .variable "missing"]]], .form ".m" [.variable "o"]]

/-- A new session is intact after a failure inside a method inside a block. -/
theorem reached_intact_failure :
    (match eval 9 failingCall root Session.initial with
      | .ok _ _ => none
      | .error failure _ => failure.kind?) = some .undefinedVariable ∧
    Reached [] Session.initial ∧ Session.initial.heap.IsScope root ∧
    Intact ([] ++ (watch 9 failingCall root Session.initial).1)
      ((eval 9 failingCall root).after Session.initial).heap := by
  have hreached : Reached [] Session.initial := .between .fresh
  have hroot : Session.initial.heap.IsScope root := wellFormed_initial.root
  exact ⟨by decide +kernel, hreached, hroot,
    (reached_intact hreached).2 9 failingCall root hroot⟩

end PrototypeLisp
