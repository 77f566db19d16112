/-
PrototypeLisp.Proofs.Eval.Coupling — two evaluations side by side.

A coupling puts two runs of the evaluator next to each other. It says which
heaps resemble each other, for which names frames may be asked, in which
region of the heap both runs stay, and which failures they may share or the
first one may end in alone. Two computations are coupled when, from stores
that resemble each other, they end alike: in the same value or failure and
in stores that resemble each other again.

What the two heaps must have in common is stated once (`Indistinct`). From it
one lemma for each function of the evaluator follows, up to one level of
evaluation (`Lawful.step`): it couples two evaluators when what they are given
for the nested evaluations is coupled. The same evaluator twice, the same heap
twice, or two different limits are all cases of this.
-/
import PrototypeLisp.Proofs.Eval.Compositional
import PrototypeLisp.Proofs.Eval.Course
import PrototypeLisp.Proofs.Form.Names
import PrototypeLisp.Proofs.Heap.Region

namespace PrototypeLisp

open Heap

/-! ## Heaps that evaluation cannot tell apart -/

/-- A relation between heaps that every operation keeps, and whose heaps
differ at most in what frames have under other names than the given ones. -/
structure Indistinct (names : String → Prop) (R : Heap → Heap → Prop) : Prop where
  functions : ∀ {h h'}, R h h' → h'.functions = h.functions
  objects : ∀ {h h'}, R h h' → h'.objects = h.objects
  size : ∀ {h h'}, R h h' → h'.scopes.size = h.scopes.size
  outer? : ∀ {h h'}, R h h' → ∀ f, h'.scopes.outer? f = h.scopes.outer? f
  own? : ∀ {h h'}, R h h' → ∀ f {name}, names name →
    h'.scopes.own? f name = h.scopes.own? f name
  /-- Objects have the same members, of whatever name. -/
  member? : ∀ {h h'}, R h h' → ∀ o name, h'.member? o name = h.member? o name
  extended : ∀ {h h'}, R h h' → ∀ outer bindings,
    R (h.extended outer bindings) (h'.extended outer bindings)
  define : ∀ {h h'}, R h h' → ∀ f {name} value, names name →
    R (h.define f name value) (h'.define f name value)
  setMember : ∀ {h h'}, R h h' → ∀ o name value,
    R (h.setMember o name value) (h'.setMember o name value)
  newFunction : ∀ {h h'}, R h h' → ∀ name code,
    R (h.newFunction name code).2 (h'.newFunction name code).2
  allocate : ∀ {h h'}, R h h' → ∀ name outer,
    R (h.allocate name outer) (h'.allocate name outer)

/-- A heap cannot be told apart from itself. -/
theorem indistinct_eq (names : String → Prop) : Indistinct names Eq where
  functions hR := by rw [hR]
  objects hR := by rw [hR]
  size hR := by rw [hR]
  outer? hR _ := by rw [hR]
  own? hR _ _ _ := by rw [hR]
  member? hR _ _ := by rw [hR]
  extended hR _ _ := by rw [hR]
  define hR _ _ _ _ := by rw [hR]
  setMember hR _ _ _ := by rw [hR]
  newFunction hR _ _ := by rw [hR]
  allocate hR _ _ := by rw [hR]

namespace Indistinct

variable {names : String → Prop} {R : Heap → Heap → Prop} (hi : Indistinct names R) {h h' : Heap}

include hi

theorem resolve? (hR : R h h') (f : FrameId) {name : String} (hname : names name) :
    h'.scopes.resolve? f name = h.scopes.resolve? f name := by
  induction f using Nat.strongRecOn with
  | _ f ih =>
    rw [Scopes.resolve?_eq, Scopes.resolve?_eq h.scopes, hi.own? hR f hname, hi.outer? hR f]
    cases ho : h.scopes.outer? f with
    | none => rfl
    | some g => rw [Option.bind_some, Option.bind_some, ih g (Scopes.lt_of_outer? ho)]

theorem contains (hR : R h h') (f : FrameId) {name : String} (hname : names name) :
    h'.scopes.contains f name = h.scopes.contains f name := by
  rw [Scopes.contains, Scopes.contains, hi.own? hR f hname]

theorem asFunction? (hR : R h h') (v : Value) : h'.asFunction? v = h.asFunction? v := by
  cases v <;> simp only [Heap.asFunction?, hi.functions hR]

theorem frameOf? (hR : R h h') (o : ObjectId) : h'.frameOf? o = h.frameOf? o := by
  rw [Heap.frameOf?, Heap.frameOf?, hi.objects hR]

theorem text (hR : R h h') (v : Value) : h'.text v = h.text v := by
  cases v <;> simp only [Heap.text, hi.functions hR, hi.objects hR]

theorem kindName (hR : R h h') (v : Value) : h'.kindName v = h.kindName v := by
  cases v <;> simp only [Heap.kindName, hi.functions hR]

theorem chainFrom (hR : R h h') (unseen : List ObjectId) (o : ObjectId) :
    h'.chainFrom unseen o = h.chainFrom unseen o := by
  have hlink : ∀ o, h'.prototypeOf? o = h.prototypeOf? o := fun o => by
    rw [prototypeOf?, prototypeOf?, hi.member? hR]
  fun_induction Heap.chainFrom h unseen o with
  | case1 unseen o hmem hnone => rw [Heap.chainFrom, dif_pos hmem, hlink, hnone]
  | case2 unseen o hmem next hnext ih =>
    rw [Heap.chainFrom, dif_pos hmem, hlink, hnext]
    simp only [ih]
  | case3 unseen o hmem => rw [Heap.chainFrom, dif_neg hmem]

theorem prototypeChain (hR : R h h') (o : ObjectId) :
    h'.prototypeChain o = h.prototypeChain o := by
  rw [Heap.prototypeChain, Heap.prototypeChain, hi.objects hR, hi.chainFrom hR]

theorem holder? (hR : R h h') (o : ObjectId) (name : String) :
    h'.holder? o name = h.holder? o name := by
  simp only [Heap.holder?, hi.prototypeChain hR, hi.member? hR]

theorem lookup? (hR : R h h') (o : ObjectId) {name : String} (hname : names name) :
    h'.lookup? o name = h.lookup? o name := by
  have hresolve : (fun f => h'.scopes.resolve? f name) = fun f => h.scopes.resolve? f name := by
    funext f
    exact hi.resolve? hR f hname
  simp only [Heap.lookup?, hi.holder? hR, hi.member? hR, hi.frameOf? hR, hresolve]

theorem isInstance (hR : R h h') (receiver prototype : Value) :
    h'.isInstance receiver prototype = h.isInstance receiver prototype := by
  unfold Heap.isInstance
  split
  · rw [hi.prototypeChain hR]
  · rfl

theorem apply (hR : R h h') (operator : Operator) (arguments : List Value) :
    operator.apply h' arguments = operator.apply h arguments := by
  unfold Operator.apply
  cases Operator.numbers arguments with
  | error other => simp only [hi.text hR]
  | ok values => rfl

theorem defineFunction (hR : R h h') (f : FrameId) {name : String} (hname : names name)
    (code : Code) : R (h.defineFunction f name code).2 (h'.defineFunction f name code).2 := by
  rw [defineFunction_eq, defineFunction_eq, hi.functions hR]
  exact hi.define (hi.newFunction hR name code) f _ hname

theorem defineMember (hR : R h h') (o : ObjectId) (name : String) (code : Code) :
    R (h.defineMember o name code) (h'.defineMember o name code) := by
  rw [defineMember_eq, defineMember_eq, hi.functions hR]
  exact hi.setMember (hi.newFunction hR name code) o name _

theorem newObject (hR : R h h') (name : Option String) (outer : FrameId) :
    R (h.newObject name outer).2 (h'.newObject name outer).2 := by
  rw [newObject_eq, newObject_eq, hi.objects hR]
  exact hi.defineMember (hi.defineMember (hi.defineMember (hi.allocate hR name outer) _ _ _) _ _ _)
    _ _ _

theorem defineField (hR : R h h') (o : ObjectId) (field : String) (value : Value) :
    R (h.defineField o field value) (h'.defineField o field value) := by
  rw [defineField_eq, defineField_eq]
  exact hi.defineMember (hi.defineMember (hi.setMember hR o field value) _ _ _) _ _ _

end Indistinct

/-! ## Couplings -/

/-- What two runs next to each other have in common. -/
structure Coupling where
  /-- The pairs of heaps that the two runs may be at. -/
  resembles : Heap → Heap → Prop
  /-- The names for which frames are asked. -/
  names : String → Prop
  /-- The part of the heap in which both runs stay. -/
  region : Region
  /-- The bodies of the functions of that part. -/
  bodies : Expr → Prop
  /-- The failures that both runs may end in. -/
  shared : Failure → Prop
  /-- The failures of the first run after which nothing is asked of the
  second. -/
  excused : Failure → Prop

namespace Coupling

/-- A coupling whose heaps cannot be told apart and whose runs may share all
failures of evaluation but an exhausted stack. -/
structure Lawful (c : Coupling) : Prop where
  indistinct : Indistinct c.names c.resembles
  shared : ∀ failure : Failure, failure.OfEvaluation → failure ≠ .stackExhausted →
    c.shared failure

/-- Heaps that resemble each other, with a closed region. -/
structure Heaps (c : Coupling) (h h' : Heap) : Prop where
  resembles : c.resembles h h'
  closed : c.region.Closed c.bodies h

/-- Stores with such heaps and the same events. -/
structure Stores (c : Coupling) (s s' : Store) : Prop where
  heaps : c.Heaps s.heap s'.heap
  events : s'.events = s.events

variable {α β : Type}

/-- Outcomes that are alike: the same value, which has the property `P`, or
the same failure; or the first one is excused. -/
inductive Alike (c : Coupling) (P : α → Prop) :
    EStateM.Result Failure Store α → EStateM.Result Failure Store α → Prop where
  | value {a : α} {s s' : Store} (hs : c.Stores s s') (ha : P a) :
      Alike c P (.ok a s) (.ok a s')
  | failure {failure : Failure} {s s' : Store} (hs : c.Stores s s') (hf : c.shared failure) :
      Alike c P (.error failure s) (.error failure s')
  | excused {failure : Failure} {s : Store} {r : EStateM.Result Failure Store α}
      (hf : c.excused failure) : Alike c P (.error failure s) r

/-- The region that a run stays in is closed when it ends. -/
theorem Alike.closed {c : Coupling} {P : α → Prop} {x : Eval α} {s : Store}
    (h : c.Alike P (x s) (x s)) (hexcused : ∀ failure, ¬ c.excused failure) :
    c.region.Closed c.bodies (x.after s).heap := by
  unfold Eval.after
  generalize x s = result at h
  cases h with
  | value hs _ => exact hs.heaps.closed
  | failure hs _ => exact hs.heaps.closed
  | excused hf => exact absurd hf (hexcused _)

/-- Computations that end alike from stores that resemble each other. -/
def Coupled (c : Coupling) (x x' : Eval α) (P : α → Prop) : Prop :=
  ∀ s s', c.Stores s s' → c.Alike P (x s) (x' s')

/-- Two evaluators that are coupled for the given expressions in the frames of
the region. -/
def Evaluators (c : Coupling) (code : Expr → Prop) (recur recur' : Evaluator) : Prop :=
  ∀ e f, code e → c.region.frames f → c.Coupled (recur e f) (recur' e f) c.region.Has

/-! ### Putting computations together -/

variable {c : Coupling} {P : α → Prop} {Q : β → Prop}

theorem Coupled.pure {a : α} (ha : P a) : c.Coupled (Pure.pure a) (Pure.pure a) P :=
  fun _ _ hs => .value hs ha

theorem Coupled.throw {failure : Failure} (hf : c.shared failure) :
    c.Coupled (MonadExcept.throw failure : Eval α) (MonadExcept.throw failure) P :=
  fun _ _ hs => .failure hs hf

theorem Coupled.bind {x x' : Eval α} {y y' : α → Eval β} (hx : c.Coupled x x' P)
    (hy : ∀ a, P a → c.Coupled (y a) (y' a) Q) : c.Coupled (x >>= y) (x' >>= y') Q := by
  intro s s' hs
  rw [Eval.bind_apply, Eval.bind_apply]
  generalize hfirst : x s = first, hsecond : x' s' = second
  have halike := hx s s' hs
  rw [hfirst, hsecond] at halike
  cases halike with
  | value ht ha => exact hy _ ha _ _ ht
  | failure ht hf => exact .failure ht hf
  | excused hf => exact .excused hf

/-- Both runs may go on by what they see of their heaps. -/
theorem Coupled.heap {y y' : Heap → Eval β}
    (hy : ∀ h h', c.Heaps h h' → c.Coupled (y h) (y' h') Q) :
    c.Coupled (Eval.heap >>= y) (Eval.heap >>= y') Q :=
  fun s s' hs => hy s.heap s'.heap hs.heaps s s' hs

theorem Coupled.withHeap {change change' : Heap → α × Heap}
    (hchange : ∀ h h', c.Heaps h h' → (change' h').1 = (change h).1 ∧
      c.Heaps (change h).2 (change' h').2 ∧ P (change h).1) :
    c.Coupled (Eval.withHeap change) (Eval.withHeap change') P := by
  intro s s' hs
  obtain ⟨hsame, hheaps, hP⟩ := hchange s.heap s'.heap hs.heaps
  show c.Alike P (.ok (change s.heap).1 ⟨(change s.heap).2, s.events⟩)
    (.ok (change' s'.heap).1 ⟨(change' s'.heap).2, s'.events⟩)
  rw [hsame]
  exact .value ⟨hheaps, hs.events⟩ hP

theorem Coupled.modifyHeap {change change' : Heap → Heap}
    (hchange : ∀ h h', c.Heaps h h' → c.Heaps (change h) (change' h')) :
    c.Coupled (Eval.modifyHeap change) (Eval.modifyHeap change') fun _ => True :=
  fun s s' hs => .value ⟨hchange s.heap s'.heap hs.heaps, hs.events⟩ trivial

theorem Coupled.note (event : Event) :
    c.Coupled (Eval.note event) (Eval.note event) fun _ => True :=
  fun s s' hs => .value ⟨hs.heaps, by rw [hs.events]⟩ trivial

/-! ### The evaluator -/

variable {code : Expr → Prop} {recur recur' : Evaluator} {f : FrameId}

theorem Evaluators.evalAll (hr : c.Evaluators code recur recur') (hf : c.region.frames f)
    {es : List Expr} (hes : ∀ e ∈ es, code e) :
    c.Coupled (Eval.evalAll recur f es) (Eval.evalAll recur' f es)
      fun values => ∀ v ∈ values, c.region.Has v := by
  induction es with
  | nil => exact .pure (by simp)
  | cons e es ih =>
    obtain ⟨he, hes⟩ := List.forall_mem_cons.1 hes
    refine .bind (hr e f he hf) fun value hvalue => ?_
    exact .bind (ih hes) fun values hvalues => .pure (List.forall_mem_cons.2 ⟨hvalue, hvalues⟩)

theorem Evaluators.evalBlock (hr : c.Evaluators code recur recur') (hf : c.region.frames f)
    {last : Value} (hlast : c.region.Has last) {es : List Expr} (hes : ∀ e ∈ es, code e) :
    c.Coupled (Eval.evalBlock recur f last es) (Eval.evalBlock recur' f last es)
      c.region.Has := by
  induction es generalizing last with
  | nil => exact .pure hlast
  | cons e es ih =>
    obtain ⟨he, hes⟩ := List.forall_mem_cons.1 hes
    exact .bind (hr e f he hf) fun value hvalue => ih hvalue hes

namespace Lawful

variable (hl : c.Lawful)

include hl

theorem fail (error : EvalError) : c.Coupled (Eval.fail error : Eval α) (Eval.fail error) P :=
  .throw (hl.shared _ trivial (by simp))

theorem enter {outer : FrameId} (ho : c.region.frames outer) {bindings : Bindings Value}
    (hv : ∀ binding ∈ bindings, c.region.Has binding.2) :
    c.Coupled (Eval.enter outer bindings) (Eval.enter outer bindings) c.region.frames := by
  refine .withHeap fun h h' hh => ⟨hl.indistinct.size hh.resembles, ⟨?_, ?_⟩, ?_⟩
  · exact hl.indistinct.extended hh.resembles outer bindings
  · exact Region.closed_defineAll (Region.closed_newFrame hh.closed ho) _ hv
  · exact hh.closed.newFrames _ (Nat.le_refl _)

theorem applied (operator : Operator) (arguments : List Value) :
    c.Coupled (do
      let h ← Eval.heap
      Eval.ofExcept (operator.apply h arguments)) (do
      let h ← Eval.heap
      Eval.ofExcept (operator.apply h arguments)) c.region.Has := by
  refine .heap fun h h' hh => ?_
  rw [hl.indistinct.apply hh.resembles]
  cases ha : operator.apply h arguments with
  | ok value =>
    obtain ⟨d, rfl⟩ := Operator.exists_number_of_apply ha
    exact .pure trivial
  | error failure =>
    refine .throw (hl.shared failure (Operator.ofEvaluation_of_apply ha) ?_)
    rcases Operator.apply_error ha with rfl | ⟨error, rfl⟩ <;> simp

theorem setMember {o : ObjectId} (name : String) {value : Value} (hv : c.region.Has value) :
    c.Coupled (do
      Eval.modifyHeap (·.setMember o name value)
      return value) (do
      Eval.modifyHeap (·.setMember o name value)
      return value) c.region.Has :=
  .bind (.modifyHeap fun _ _ hh => ⟨hl.indistinct.setMember hh.resembles o name value,
    Region.closed_setMember hh.closed o name hv⟩) fun _ _ => .pure hv

/-- A body is evaluated in a new frame inside the region. -/
theorem inside (hr : c.Evaluators code recur recur') {body : Expr} (hbody : code body)
    {outer : FrameId} (ho : c.region.frames outer) {bindings : Bindings Value}
    (hv : ∀ binding ∈ bindings, c.region.Has binding.2) :
    c.Coupled (do
      let f ← Eval.enter outer bindings
      recur body f) (do
      let f ← Eval.enter outer bindings
      recur' body f) c.region.Has :=
  .bind (hl.enter ho hv) fun f hf => hr body f hbody hf

theorem invoke (hr : c.Evaluators code recur recur') (hb : ∀ e, c.bodies e → code e)
    {function : Function} (hfunction : c.region.Holds c.bodies function.code)
    {receiver? : Option Value} (hreceiver : ∀ v ∈ receiver?, c.region.Has v)
    {arguments : List Value} (hargs : ∀ v ∈ arguments, c.region.Has v) :
    c.Coupled (Eval.invoke recur function receiver? arguments)
      (Eval.invoke recur' function receiver? arguments) c.region.Has := by
  have hzip : ∀ parameters : List String, ∀ binding ∈ parameters.zip arguments,
      c.region.Has binding.2 := fun _ binding h => hargs _ (List.of_mem_zip h).2
  unfold Eval.invoke
  cases hcode : function.code with
  | operator operator => exact hl.applied operator arguments
  | closure parameters body frame =>
    rw [hcode] at hfunction
    simp only
    split
    · exact hl.inside hr (hb body (hfunction.body body rfl)) (hfunction.captured frame rfl)
        (hzip parameters)
    · exact hl.fail _
  | getPrototype owner =>
    rw [hcode] at hfunction
    cases arguments with
    | nil =>
      refine .heap fun h h' hh => ?_
      rw [hl.indistinct.member? hh.resembles]
      refine .pure ?_
      cases hm : h.member? owner prototypeName with
      | none => trivial
      | some value => exact hh.closed.has_member? (hfunction.owner owner rfl) hm
    | cons => exact hl.fail _
  | setPrototype owner | setField owner _ =>
    rcases arguments with _ | ⟨value, _ | ⟨_, _⟩⟩
    · exact hl.fail _
    · exact hl.setMember _ (hargs value (by simp))
    · exact hl.fail _
  | getField owner field =>
    rw [hcode] at hfunction
    cases arguments with
    | nil =>
      refine .heap fun h h' hh => ?_
      rw [hl.indistinct.member? hh.resembles, hl.indistinct.text hh.resembles]
      cases hm : h.member? owner field with
      | none => exact .throw (hl.shared _ trivial (by simp))
      | some value => exact .pure (hh.closed.has_member? (hfunction.owner owner rfl) hm)
    | cons => exact hl.fail _
  | isInstance owner =>
    rcases arguments with _ | ⟨prototype, _ | ⟨_, _⟩⟩
    · exact hl.fail _
    · refine .heap fun h h' hh => ?_
      rw [hl.indistinct.isInstance hh.resembles]
      exact .pure trivial
    · exact hl.fail _
  | method parameters body owner =>
    rw [hcode] at hfunction
    simp only
    split
    · refine .heap fun h h' hh => ?_
      rw [hl.indistinct.frameOf? hh.resembles]
      refine hl.inside hr (hb body (hfunction.body body rfl))
        (hh.closed.frames_frameOf? (hfunction.owner owner rfl)) ?_
      refine List.forall_mem_cons.2 ⟨?_, hzip parameters⟩
      cases hthis : receiver? with
      | none => exact hfunction.owner owner rfl
      | some receiver => exact hreceiver receiver hthis
    · exact hl.fail _

/-- A call of a function of the region, its arguments still to be
evaluated. -/
theorem arguments (hr : c.Evaluators code recur recur') (hb : ∀ e, c.bodies e → code e)
    (hf : c.region.frames f) {function : Function}
    (hfunction : c.region.Holds c.bodies function.code) {receiver? : Option Value}
    (hreceiver : ∀ v ∈ receiver?, c.region.Has v) {arguments : List Expr}
    (hargs : ∀ e ∈ arguments, code e) :
    c.Coupled (do
      let values ← Eval.evalAll recur f arguments
      Eval.invoke recur function receiver? values) (do
      let values ← Eval.evalAll recur' f arguments
      Eval.invoke recur' function receiver? values) c.region.Has :=
  .bind (hr.evalAll hf hargs) fun _ hvalues => hl.invoke hr hb hfunction hreceiver hvalues

theorem call (hr : c.Evaluators code recur recur') (hb : ∀ e, c.bodies e → code e)
    (hf : c.region.frames f) {name : String} (hname : c.names name) {arguments : List Expr}
    (hargs : ∀ e ∈ arguments, code e) :
    c.Coupled (Eval.call recur f name arguments) (Eval.call recur' f name arguments)
      c.region.Has := by
  refine .heap fun h h' hh => ?_
  rw [hl.indistinct.resolve? hh.resembles f hname]
  cases hv : h.scopes.resolve? f name with
  | none => exact hl.fail _
  | some value =>
    simp only [hl.indistinct.asFunction? hh.resembles, hl.indistinct.text hh.resembles,
      hl.indistinct.kindName hh.resembles]
    cases hfunction : h.asFunction? value with
    | none => exact hl.fail _
    | some function =>
      exact hl.arguments hr hb hf
        (hh.closed.holds_asFunction? (hh.closed.has_resolve? hf hv) hfunction) (by simp) hargs

theorem lookup {o : ObjectId} (ho : c.region.objects o) {name : String} (hname : c.names name) :
    c.Coupled (Eval.lookup o name) (Eval.lookup o name)
      fun member? => ∀ v ∈ member?, c.region.Has v := by
  refine .heap fun h h' hh => ?_
  have hfound : ∀ v ∈ h.lookup? o name, c.region.Has v := fun v hv => hh.closed.has_lookup? ho hv
  simp only [hl.indistinct.holder? hh.resembles, hl.indistinct.lookup? hh.resembles o hname,
    hl.indistinct.text hh.resembles]
  split
  · split
    · exact .pure hfound
    · exact .bind (.note _) fun _ _ => .pure hfound
  · exact .pure hfound

theorem send (hr : c.Evaluators code recur recur') (hb : ∀ e, c.bodies e → code e)
    (hf : c.region.frames f) {name : String} (hname : c.names name) {receiver : Expr}
    (hreceiver : code receiver) {arguments : List Expr} (hargs : ∀ e ∈ arguments, code e) :
    c.Coupled (Eval.send recur f name receiver arguments)
      (Eval.send recur' f name receiver arguments) c.region.Has := by
  refine .bind (hr receiver f hreceiver hf) fun target htarget => ?_
  cases target with
  | object o =>
    refine .bind (hl.lookup htarget hname) fun member? hmember => .heap fun h h' hh => ?_
    simp only [hl.indistinct.asFunction? hh.resembles, hl.indistinct.text hh.resembles]
    cases member? with
    | none => exact hl.fail _
    | some member =>
      cases hfunction : h.asFunction? member with
      | none => simp only [hfunction]; exact hl.fail _
      | some function =>
        simp only [hfunction]
        have hheld := hh.closed.holds_asFunction? (hmember member rfl) hfunction
        refine hl.arguments hr hb hf hheld ?_ hargs
        intro v hv
        obtain rfl := Option.some.inj hv
        exact htarget
  | number _ | atom _ | null | function _ =>
    refine .heap fun h h' hh => ?_
    rw [hl.indistinct.text hh.resembles]
    exact hl.fail _

theorem defineMembers (hr : c.Evaluators code recur recur') (hf : c.region.frames f)
    {o : ObjectId} (ho : c.region.objects o) {members : List Member}
    (hmembers : ∀ member ∈ members, member.Within code ∧ member.Keeps c.bodies) :
    c.Coupled (Eval.defineMembers recur f o members) (Eval.defineMembers recur' f o members)
      fun _ => True := by
  induction members with
  | nil => exact .pure trivial
  | cons member members ih =>
    obtain ⟨⟨hwithin, hkeeps⟩, hrest⟩ := List.forall_mem_cons.1 hmembers
    cases member with
    | field name value =>
      refine .bind (hr value f hwithin.2 hf) fun v hv => .bind (.modifyHeap ?_) fun _ _ => ih hrest
      exact fun h h' hh => ⟨hl.indistinct.defineField hh.resembles o name v,
        Region.closed_defineField hh.closed ho name hv⟩
    | method name parameters body =>
      refine .bind (.modifyHeap ?_) fun _ _ => ih hrest
      exact fun h h' hh => ⟨hl.indistinct.defineMember hh.resembles o name _,
        Region.closed_defineMember hh.closed o name (Region.holds_method ho hkeeps)⟩

/-- Binding the value of an expression in the frame it was evaluated in. -/
theorem bound (hr : c.Evaluators code recur recur') (hf : c.region.frames f) {name : String}
    (hname : c.names name) {e : Expr} (he : code e) :
    c.Coupled (do
      let value ← recur e f
      Eval.modifyHeap (·.define f name value)
      return value) (do
      let value ← recur' e f
      Eval.modifyHeap (·.define f name value)
      return value) c.region.Has :=
  .bind (hr e f he hf) fun value hvalue =>
    .bind (.modifyHeap fun _ _ hh => ⟨hl.indistinct.define hh.resembles f value hname,
      Region.closed_define hh.closed f name hvalue⟩) fun _ _ => .pure hvalue

theorem evalForm (hr : c.Evaluators code recur recur') (hb : ∀ e, c.bodies e → code e)
    (hf : c.region.frames f) {form : Form} (hform : form.Within code)
    (hasks : form.Asks c.names) (hkeeps : form.Keeps c.bodies) :
    c.Coupled (Eval.evalForm recur f form) (Eval.evalForm recur' f form) c.region.Has := by
  cases form with
  | block body =>
    refine .bind (hl.enter hf (by simp)) fun inner hinner => ?_
    have hnull : c.region.Has .null := trivial
    exact hr.evalBlock hinner hnull hform
  | defineVariable name value =>
    refine .heap fun h h' hh => ?_
    rw [hl.indistinct.contains hh.resembles f hasks]
    split
    · exact hl.fail _
    · exact hl.bound hr hf hasks hform
  | defineFunction name parameters body =>
    refine .heap fun h h' hh => ?_
    rw [hl.indistinct.contains hh.resembles f hasks]
    split
    · exact hl.fail _
    · have hdefine : c.Coupled
          (Eval.withHeap (·.defineFunction f name (.closure parameters body f)))
          (Eval.withHeap (·.defineFunction f name (.closure parameters body f)))
          c.region.functions := by
        refine .withHeap fun h h' hh => ⟨?_, ⟨?_, ?_⟩, ?_⟩
        · exact congrArg Array.size (hl.indistinct.functions hh.resembles)
        · exact hl.indistinct.defineFunction hh.resembles f hasks _
        · exact Region.closed_defineFunction hh.closed f name (Region.holds_closure hf hkeeps)
        · exact hh.closed.newFunctions _ (Nat.le_refl _)
      exact .bind hdefine fun id hid => .bind (.note _) fun _ _ => .pure hid
  | assign name value =>
    refine .heap fun h h' hh => ?_
    rw [hl.indistinct.resolve? hh.resembles f hasks]
    split
    · exact hl.fail _
    · exact hl.bound hr hf hasks hform
  | object name members =>
    have hnew : c.Coupled (Eval.withHeap (·.newObject name f))
        (Eval.withHeap (·.newObject name f)) c.region.objects := by
      refine .withHeap fun h h' hh => ⟨?_, ⟨?_, ?_⟩, ?_⟩
      · rw [fst_newObject, fst_newObject, hl.indistinct.objects hh.resembles]
      · exact hl.indistinct.newObject hh.resembles name f
      · exact Region.closed_newObject hh.closed name hf
      · exact hh.closed.newObjects _ (Nat.le_refl _)
    refine .bind hnew fun o ho => .bind (hl.defineMembers hr hf ho ?_) fun _ _ => .pure ho
    exact fun member hmember => ⟨hform member hmember, hkeeps member hmember⟩
  | send name receiver arguments => exact hl.send hr hb hf hasks hform.1 hform.2
  | call name arguments => exact hl.call hr hb hf hasks hform

/-- One level of evaluation: two evaluators are coupled when those for the
nested evaluations are. -/
theorem step (hr : c.Evaluators code recur recur') (hb : ∀ e, c.bodies e → code e)
    (hf : c.region.frames f) {e : Expr} (hvariable : ∀ name, e = .variable name → c.names name)
    (hform : ∀ name arguments form, e = .form name arguments →
      Form.classify name arguments = .ok form →
        form.Within code ∧ form.Asks c.names ∧ form.Keeps c.bodies) :
    c.Coupled (Eval.step recur e f) (Eval.step recur' e f) c.region.Has := by
  cases e with
  | number value => exact .pure trivial
  | atom name => exact .pure trivial
  | form name arguments =>
    simp only [Eval.step]
    cases hclass : Form.classify name arguments with
    | error fault => exact hl.fail _
    | ok form =>
      obtain ⟨hwithin, hasks, hkeeps⟩ := hform name arguments form rfl hclass
      exact hl.evalForm hr hb hf hwithin hasks hkeeps
  | foreign text => exact .throw (hl.shared _ trivial (by simp))
  | _ name =>
    -- a variable
    refine .heap fun h h' hh => ?_
    rw [hl.indistinct.resolve? hh.resembles f (hvariable name rfl)]
    cases hv : h.scopes.resolve? f name with
    | some value => exact .pure (hh.closed.has_resolve? hf hv)
    | none => exact hl.fail _

end Lawful

end Coupling

end PrototypeLisp
