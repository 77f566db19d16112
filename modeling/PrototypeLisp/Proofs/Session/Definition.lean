/-
PrototypeLisp.Proofs.Session.Definition — the check and the binding of a
definition.

`def` refuses a name that its frame binds, and it asks before it evaluates the
value. The name is bound after that. In between the value is evaluated in the
same frame, and a definition or an assignment nested in it may bind the name
there: then the outer definition goes through all the same and replaces the
binding. `contains_after_iff` says that nothing else can come in between, so a
definition keeps to its own rule (`Guarded`) exactly when it fails or no
nested form has bound the name meanwhile.
-/
import PrototypeLisp.Proofs.Eval.Policy
import PrototypeLisp.Proofs.Session.Delegation

namespace PrototypeLisp

open Heap

/-- `(def name value)` -/
def definition (name : String) (value : Expr) : Expr :=
  .form "def" [.variable name, value]

/-- The name is asked for, the value is evaluated, the name is bound. -/
theorem eval_definition (limit : Nat) (name : String) (value : Expr) (E : FrameId) (s : Store) :
    eval (limit + 1) (definition name value) E s =
      if s.heap.scopes.contains E name then .error (.eval (.redefinition name)) s
      else
        match eval limit value E s with
        | .ok v t => .ok v { t with heap := t.heap.define E name v }
        | .error failure t => .error failure t := by
  show Eval.evalForm (eval limit) E (.defineVariable name value) s = _
  simp only [Eval.evalForm, Eval.bind_apply, Eval.heap]
  cases s.heap.scopes.contains E name with
  | true => rfl
  | false =>
    simp only [Bool.false_eq_true, if_false, Eval.bind_apply]
    cases eval limit value E s <;> rfl

/-! ## What happens in between -/

/-- A definition or an assignment of the name, evaluated in the frame for the
value, has ended with the name bound. -/
def BoundMeanwhile (limit : Nat) (name : String) (value : Expr) (E : FrameId) (s : Store) : Prop :=
  ∃ e u, .ended e E u ∈ (watch limit value E s).1 ∧ e.Binds name ∧
    u.heap.scopes.contains E name = true

/-- A frame goes without a name, until a definition or an assignment of it
ends in the frame. -/
def Policy.unbound (E : FrameId) (name : String) : Policy where
  region := .whole
  keeps h := h.IsScope E ∧ h.scopes.own? E name = none
  admits f other := ¬ (f = E ∧ other = name)
  excuses m := ∃ e u, m = .ended e E u ∧ e.Binds name ∧ u.heap.scopes.contains E name = true

/-- Only a binding of the name in the frame itself can bind it there: new
frames are other frames, and the frames of objects are no scopes. -/
theorem Policy.lawful_unbound (E : FrameId) (name : String) : (unbound E name).Lawful where
  extended {_ h} outer bindings hh _ := by
    obtain ⟨hE, hnone⟩ := hh.kept
    refine ⟨⟨?_, hE.not_owned⟩, ?_⟩
    · rw [size_scopes_extended]
      exact Nat.lt_succ_of_lt hE.lt_size
    · rw [Scopes.own?, bindings_extended h _ _ hE.lt_size]
      exact hnone
  define {_ h f other} value hh _ hadmits := by
    obtain ⟨hE, hnone⟩ := hh.kept
    refine ⟨(grows_define h f other value).isScope hE, ?_⟩
    rw [Heap.define, Scopes.own?_define, if_neg]
    · exact hnone
    · rintro ⟨rfl, rfl, -⟩
      exact hadmits ⟨rfl, rfl⟩
  setMember {_ h o} other value hh _ := by
    obtain ⟨hE, hnone⟩ := hh.kept
    refine ⟨(grows_setMember h o other value).isScope hE, ?_⟩
    unfold Heap.setMember
    split
    · rename_i f hf
      rw [Heap.define, Scopes.own?_define, if_neg]
      · exact hnone
      · rintro ⟨rfl, -, -⟩
        exact hE.not_owned ⟨o, hf⟩
    · exact hnone
  newFunction {_ h} other code hh :=
    ⟨(grows_newFunction h other code).isScope hh.kept.1, hh.kept.2⟩
  allocate {_ h} other outer hh := by
    obtain ⟨hE, hnone⟩ := hh.kept
    refine ⟨⟨?_, ?_⟩, ?_⟩
    · exact Nat.lt_of_lt_of_le hE.lt_size (by simp [Heap.allocate])
    · rintro ⟨o, ho⟩
      rw [frameOf?_allocate] at ho
      split at ho
      · exact absurd (Option.some.inj ho) (Nat.ne_of_gt hE.lt_size)
      · exact hE.not_owned ⟨o, ho⟩
    · exact (own?_scopes_newFrame h (some outer) E name).trans hnone
  excused {_ h f other e u} value hh hadmits hbinds hu := by
    obtain ⟨rfl, rfl⟩ : f = E ∧ other = name := Classical.not_not.1 hadmits
    refine ⟨e, u, rfl, hbinds, ?_⟩
    rw [hu, Scopes.contains, Heap.define, Scopes.own?_define,
      if_pos ⟨rfl, rfl, hh.kept.1.lt_size⟩]
    rfl

/-- A name that the frame does not bind before the value is evaluated is bound
after it exactly when a nested form has bound it. -/
theorem contains_after_iff {s : Store} (hw : s.heap.WellFormed) {E : FrameId}
    (hE : s.heap.IsScope E) {name : String} (hnone : s.heap.scopes.own? E name = none)
    (limit : Nat) (value : Expr) :
    ((eval limit value E).after s).heap.scopes.contains E name = true ↔
      BoundMeanwhile limit name value E s := by
  constructor
  · intro hbound
    have hholds : (Policy.unbound E name).Holds 0 s.heap :=
      ⟨Region.closed_whole fun _ _ _ _ _ => trivial, hw.backed, Nat.zero_le _, hE, hnone⟩
    rcases (Policy.lawful_unbound E name).watch limit value E 0 trivial s hholds with
      ⟨m, hm, e, u, rfl, hrest⟩ | hfalse | hthrough
    · exact ⟨e, u, hm, hrest⟩
    · exact hfalse.elim
    · -- without such a form the name is still unbound
      have hafter := hthrough.after.kept.2
      rw [after_watch] at hafter
      rw [Scopes.contains, hafter] at hbound
      cases hbound
  · rintro ⟨e, u, hm, -, hbound⟩
    have hready := ready_of_wellFormed hw hE (Nat.zero_le _)
    have hreaches := (sound_watch partsClosed_true limit value E 0 s trivial hready).course.reaches
    rw [after_watch] at hreaches
    exact (hreaches.grown _ hm).own?_isSome hbound

/-! ## The rule of definitions -/

/-- A definition never replaces a binding of its own frame. -/
structure Guarded (limit : Nat) (name : String) (value : Expr) (E : FrameId) (s : Store) :
    Prop where
  /-- When it succeeds, the name was not bound in the frame when the value had
  been evaluated. -/
  succeeds : ∀ v t, eval (limit + 1) (definition name value) E s = .ok v t →
    ((eval limit value E).after s).heap.scopes.contains E name = false
  /-- A name that is bound from the beginning is refused. -/
  early : s.heap.scopes.contains E name = true →
    eval (limit + 1) (definition name value) E s = .error (.eval (.redefinition name)) s
  /-- A name that is bound when the value has been evaluated is refused, and
  its binding stays. -/
  late : ∀ v u, s.heap.scopes.contains E name = false → eval limit value E s = .ok v u →
    u.heap.scopes.contains E name = true →
      ∃ t, eval (limit + 1) (definition name value) E s = .error (.eval (.redefinition name)) t ∧
        t.heap.scopes.own? E name = u.heap.scopes.own? E name

/-- A definition that succeeds has evaluated its value from a frame without
the name, and has bound the name after that, whatever was bound meanwhile. -/
theorem of_eval_definition {limit : Nat} {name : String} {value : Expr} {E : FrameId}
    {s t : Store} {v : Value} (hv : eval (limit + 1) (definition name value) E s = .ok v t) :
    s.heap.scopes.contains E name = false ∧ ∃ u, eval limit value E s = .ok v u ∧
      t = { u with heap := u.heap.define E name v } := by
  rw [eval_definition] at hv
  cases hname : s.heap.scopes.contains E name with
  | true => simp [hname] at hv
  | false =>
    simp only [hname, Bool.false_eq_true, if_false] at hv
    cases hvalue : eval limit value E s with
    | error failure u => simp [hvalue] at hv
    | ok w u =>
      obtain ⟨rfl, rfl⟩ : w = v ∧ _ = t := by simpa [hvalue] using hv
      exact ⟨rfl, u, rfl, rfl⟩

/-- A definition goes through with the value it was given, over whatever a
nested form has bound; it keeps to the rule exactly when it fails or no nested
form has bound its name. -/
theorem definition_guarded_iff {s : Store} (h : Visited s) {E : FrameId} (hE : s.heap.IsScope E)
    (limit : Nat) (name : String) (value : Expr) :
    (∀ v t, eval (limit + 1) (definition name value) E s = .ok v t →
      t.heap.scopes.own? E name = some v ∧ ∃ u, eval limit value E s = .ok v u ∧
        t = { u with heap := u.heap.define E name v } ∧
        (u.heap.scopes.contains E name = true ↔ BoundMeanwhile limit name value E s)) ∧
    (Guarded limit name value E s ↔
      ∀ v t, eval (limit + 1) (definition name value) E s = .ok v t →
        ¬ BoundMeanwhile limit name value E s) := by
  have hw := h.wellFormed
  have hbetween : ∀ v t, eval (limit + 1) (definition name value) E s = .ok v t →
      (((eval limit value E).after s).heap.scopes.contains E name = true ↔
        BoundMeanwhile limit name value E s) := by
    intro v t hv
    have hname := (of_eval_definition hv).1
    exact contains_after_iff hw hE (by simpa [Scopes.contains] using hname) limit value
  refine ⟨?_, ?_, ?_⟩
  · intro v t hv
    obtain ⟨-, u, hvalue, rfl⟩ := of_eval_definition hv
    have hafter : (eval limit value E).after s = u := by simp [Eval.after, hvalue]
    have hgrow := (evolves_eval partsClosed_true (ready_of_wellFormed hw hE (Nat.zero_le _)) limit
      (e := value) trivial).grows
    rw [hafter] at hgrow
    refine ⟨?_, u, hvalue, rfl, ?_⟩
    · show (u.heap.scopes.define E name v).own? E name = some v
      rw [Scopes.own?_define, if_pos ⟨rfl, rfl, (hgrow.isScope hE).lt_size⟩]
    · rw [← hafter]
      exact hbetween v _ hv
  · intro hguarded v t hv hmeanwhile
    have hfree := hguarded.succeeds v t hv
    rw [(hbetween v t hv).2 hmeanwhile] at hfree
    cases hfree
  · intro hnever
    refine ⟨?_, ?_, ?_⟩
    · intro v t hv
      exact Bool.eq_false_iff.2 (mt (hbetween v t hv).1 (hnever v t hv))
    · intro hname
      rw [eval_definition, if_pos hname]
    · -- the name would be bound meanwhile and the definition would succeed
      intro v u hname hvalue hbound
      have hv : eval (limit + 1) (definition name value) E s =
          .ok v { u with heap := u.heap.define E name v } := by
        simp [eval_definition, hname, hvalue]
      have hafter : (eval limit value E).after s = u := by simp [Eval.after, hvalue]
      refine absurd ((hbetween v _ hv).1 ?_) (hnever v _ hv)
      rw [hafter]
      exact hbound

/-- `(+ (def x 1) 1)` -/
def rebindingValue : Expr :=
  .form "+" [definition "x" (.number (.ofNat 1)), .number (.ofNat 1)]

/-- `(def x (+ (def x 1) 1))` succeeds in a new session. -/
theorem eval_rebinding : ∃ t, eval 4 (definition "x" rebindingValue) root Session.initial =
    .ok (.number (.ofNat 2)) t := by
  have hvalue : (match eval 4 (definition "x" rebindingValue) root Session.initial with
      | .ok v _ => some v
      | .error _ _ => none) = some (.number (.ofNat 2)) := by decide +kernel
  cases hrun : eval 4 (definition "x" rebindingValue) root Session.initial with
  | error failure t => simp [hrun] at hvalue
  | ok v t =>
    obtain rfl : v = .number (.ofNat 2) := by simpa [hrun] using hvalue
    exact ⟨t, rfl⟩

/-- The value of `(def x (+ (def x 1) 1))` binds `x` in the root frame, and
the definition replaces that binding. -/
theorem not_guarded_rebinding :
    ¬ Guarded 3 "x" rebindingValue root Session.initial := by
  have hbound : ((eval 3 rebindingValue root).after Session.initial).heap.scopes.contains
      root "x" = true := by decide +kernel
  intro hguarded
  obtain ⟨t, hrun⟩ := eval_rebinding
  have hfree := hguarded.succeeds _ t hrun
  rw [hbound] at hfree
  cases hfree

/-- In a new session `x` is 1 when the value of `(def x (+ (def x 1) 1))` has
been evaluated, and 2 after the definition; `(def y (+ (def x 1) 1))` keeps to
the rule. -/
theorem definition_guarded_iff_rebinding :
    (Visited Session.initial ∧ Session.initial.heap.IsScope root) ∧
    BoundMeanwhile 3 "x" rebindingValue root Session.initial ∧
    (∃ v t, eval 4 (definition "x" rebindingValue) root Session.initial = .ok v t ∧
      t.heap.scopes.own? root "x" = some v) ∧
    (¬ BoundMeanwhile 3 "y" rebindingValue root Session.initial ∧
      Guarded 3 "y" rebindingValue root Session.initial) := by
  have hvisited : Visited Session.initial := .reached (.between .fresh)
  have hroot : Session.initial.heap.IsScope root := wellFormed_initial.root
  obtain ⟨hx, -⟩ := definition_guarded_iff hvisited hroot 3 "x" rebindingValue
  obtain ⟨-, hy⟩ := definition_guarded_iff hvisited hroot 3 "y" rebindingValue
  have hnone : ∀ name ∈ ["x", "y"], Session.initial.heap.scopes.own? root name = none := by
    decide +kernel
  have hafter := fun name hname =>
    contains_after_iff wellFormed_initial hroot (hnone name hname) 3 rebindingValue
  have hmeanwhile := (hafter "x" (by simp)).1 (by decide +kernel)
  have hnever : ¬ BoundMeanwhile 3 "y" rebindingValue root Session.initial :=
    mt (hafter "y" (by simp)).2 (by decide +kernel)
  obtain ⟨t, hrun⟩ := eval_rebinding
  exact ⟨⟨hvisited, hroot⟩, hmeanwhile, ⟨_, t, hrun, (hx _ t hrun).1⟩, hnever,
    hy.2 fun _ _ _ => hnever⟩

end PrototypeLisp
