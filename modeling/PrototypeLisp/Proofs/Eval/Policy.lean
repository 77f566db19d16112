/-
PrototypeLisp.Proofs.Eval.Policy — what evaluation keeps at every moment.

A policy is a region of the heap that refers to nothing outside, a property of
heaps, the names that may be bound in each frame, and the moments that excuse
a computation. A computation abides by the policy when it works with values of
the region only, with no function that is still to be made, and has the
property at every moment it passes and when it ends (`Throughout`), unless one
of these moments excuses it. A definition that is not admitted has to be
excused by the moment at which it ends. The frame of the computation may be
any frame of the region, also that of an object.

What the operations of the heap must keep is stated once, for the five
operations that all others are made of (`Policy.Lawful`). From it one lemma
for each function of the evaluator follows, and by induction on the allowance
evaluation abides by the policy (`Policy.Lawful.watch`).
-/
import PrototypeLisp.Proofs.Eval.Soundness
import PrototypeLisp.Proofs.Heap.Seclusion

namespace PrototypeLisp

/-! ## A property at every moment -/

namespace Watched

variable {α β : Type} {x : Watched α} {y : α → Watched β} {s t : Store} {ms : List Moment}

theorem bind_of_ok {a : α} (hx : x s = (ms, .ok a t)) :
    (x >>= y) s = (ms ++ (y a t).1, (y a t).2) := by
  simp [Bind.bind, hx]

theorem bind_of_error {failure : Failure} (hx : x s = (ms, .error failure t)) :
    (x >>= y) s = (ms, .error failure t) := by
  simp [Bind.bind, hx]

theorem after_of_ok {a : α} (hx : x s = (ms, .ok a t)) : x.erase.after s = t := by
  simp [erase, Eval.after, hx]

theorem after_of_error {failure : Failure} (hx : x s = (ms, .error failure t)) :
    x.erase.after s = t := by
  simp [erase, Eval.after, hx]

theorem subset_bind (x : Watched α) (y : α → Watched β) (s : Store) :
    (x s).1 ⊆ ((x >>= y) s).1 := by
  cases hxs : x s with
  | mk ms result =>
    cases result with
    | ok a t => simp [bind_of_ok hxs]
    | error failure t => simp [bind_of_error hxs]

/-- A computation that goes on ends where its continuation ends. -/
theorem after_bind_of_ok {a : α} (hx : x s = (ms, .ok a t)) :
    (x >>= y).erase.after s = (y a).erase.after t := by
  simp only [erase, Eval.after, bind_of_ok hx]

end Watched

/-- Every moment that the computation passes from `s`, and its end, have the
property `I`; a value that it ends in has the property `P`. -/
structure Throughout {α : Type} (I : Heap → Prop) (P : α → Store → Prop) (x : Watched α)
    (s : Store) : Prop where
  moments : ∀ m ∈ (x s).1, I m.store.heap
  after : I (x.erase.after s).heap
  value : ∀ a t, (x s).2 = .ok a t → P a t

namespace Throughout

variable {α β : Type} {I : Heap → Prop} {P : α → Store → Prop} {Q : β → Store → Prop} {s : Store}

/-- A computation that passes no moment. -/
theorem lift {x : Eval α} (hafter : I (x.after s).heap) (hvalue : ∀ a t, x s = .ok a t → P a t) :
    Throughout I P (.lift x) s where
  moments m hm := by simp [Watched.lift] at hm
  after := hafter
  value := hvalue

theorem pure {a : α} (hs : I s.heap) (ha : P a s) : Throughout I P (Pure.pure a) s := by
  refine lift (x := Pure.pure a) hs ?_
  intro b t hb
  obtain ⟨rfl, rfl⟩ : a = b ∧ s = t := by simpa using hb
  exact ha

theorem mark {moment : Store → Moment} {P : Unit → Store → Prop} (hm : (moment s).store = s)
    (hs : I s.heap) (hP : P () s) : Throughout I P (.mark moment) s where
  moments m hm' := by
    obtain rfl := List.mem_singleton.1 hm'
    rw [hm]
    exact hs
  after := hs
  value a t ht := by
    obtain rfl : s = t := by simpa [Watched.mark] using ht
    exact hP

theorem of_ok {x : Watched α} {ms : List Moment} {a : α} {t : Store} (hx : Throughout I P x s)
    (hxs : x s = (ms, .ok a t)) : I t.heap ∧ P a t := by
  have hafter := hx.after
  rw [Watched.after_of_ok hxs] at hafter
  exact ⟨hafter, hx.value a t (by rw [hxs])⟩

/-- After a failure nothing more is done. -/
theorem bind_of_error {x : Watched α} {y : α → Watched β} {ms : List Moment}
    {failure : Failure} {t : Store} (hx : Throughout I P x s)
    (hxs : x s = (ms, .error failure t)) : Throughout I Q (x >>= y) s := by
  have hbind := Watched.bind_of_error (y := y) hxs
  refine ⟨?_, ?_, ?_⟩
  · intro m hm
    rw [hbind] at hm
    exact hx.moments m (by rwa [hxs])
  · rw [Watched.after_of_error hbind, ← Watched.after_of_error hxs]
    exact hx.after
  · intro b u hb
    simp [hbind] at hb

/-- After a value the rest is done. -/
theorem bind_of_ok {x : Watched α} {y : α → Watched β} {ms : List Moment} {a : α} {t : Store}
    (hx : Throughout I P x s) (hxs : x s = (ms, .ok a t)) (hy : Throughout I Q (y a) t) :
    Throughout I Q (x >>= y) s := by
  refine ⟨?_, ?_, ?_⟩
  · intro m hm
    rw [Watched.bind_of_ok hxs] at hm
    rcases List.mem_append.1 hm with hm | hm
    · exact hx.moments m (by rwa [hxs])
    · exact hy.moments m hm
  · rw [Watched.after_bind_of_ok hxs]
    exact hy.after
  · intro b u hb
    rw [Watched.bind_of_ok hxs] at hb
    exact hy.value b u hb

/-- One computation after the other. -/
theorem bind {x : Watched α} {y : α → Watched β} (hx : Throughout I P x s)
    (hy : ∀ a t, I t.heap → P a t → Throughout I Q (y a) t) : Throughout I Q (x >>= y) s := by
  cases hxs : x s with
  | mk ms result =>
    cases result with
    | error failure t => exact hx.bind_of_error hxs
    | ok a t =>
      obtain ⟨ht, hP⟩ := hx.of_ok hxs
      exact hx.bind_of_ok hxs (hy a t ht hP)

/-- The moments before and after a computation. -/
theorem between {x : Watched α} {first last : Store → Moment} (hfirst : (first s).store = s)
    (hlast : ∀ t, (last t).store = t) (hs : I s.heap) (hx : Throughout I P x s) :
    Throughout I P (.between first last x) s where
  moments m hm := by
    simp only [Watched.between, List.cons_append, List.mem_cons, List.mem_append,
      List.not_mem_nil, or_false] at hm
    rcases hm with rfl | hm | rfl
    · rwa [hfirst]
    · exact hx.moments m hm
    · rw [hlast]
      exact hx.after
  after := hx.after
  value := hx.value

theorem imp {J : Heap → Prop} {P' : α → Store → Prop} {x : Watched α} (hx : Throughout I P x s)
    (hI : ∀ h, I h → J h) (hP : ∀ a t, P a t → P' a t) : Throughout J P' x s where
  moments m hm := hI _ (hx.moments m hm)
  after := hI _ hx.after
  value a t ht := hP a t (hx.value a t ht)

end Throughout

/-! ## Policies -/

/-- The name that a form binds in the frame it stands in. -/
def Form.binds? : Form → Option String
  | .defineVariable name _ | .defineFunction name _ _ | .assign name _ => some name
  | .block _ | .object _ _ | .send _ _ _ | .call _ _ => none

/-- An expression that binds a name in the frame it is evaluated in: a
definition or an assignment. -/
def Expr.Binds (e : Expr) (name : String) : Prop :=
  ∃ head arguments form, e = .form head arguments ∧ Form.classify head arguments = .ok form ∧
    form.binds? = some name

/-- What evaluation is to keep. -/
structure Policy where
  /-- The part of the heap that computations work with. -/
  region : Region
  /-- The property that heaps are to have. -/
  keeps : Heap → Prop
  /-- The names that may be bound in a frame. -/
  admits : FrameId → String → Prop
  /-- The moments after which nothing more is asked. -/
  excuses : Moment → Prop

namespace Policy

/-- A value of the region; if it is a function, it is among the first `n`. -/
structure Has (p : Policy) (n : Nat) (v : Value) : Prop where
  region : p.region.Has v
  made : ∀ id, v = .function id → id < n

theorem Has.mono {p : Policy} {n k : Nat} {v : Value} (hv : p.Has n v) (hle : n ≤ k) :
    p.Has k v where
  region := hv.region
  made id hid := Nat.lt_of_lt_of_le (hv.made id hid) hle

/-- A heap with the property, with a closed region and at least `n`
functions. -/
structure Holds (p : Policy) (n : Nat) (h : Heap) : Prop where
  closed : p.region.Closed (fun _ => True) h
  backed : h.Backed
  made : n ≤ h.functions.size
  kept : p.keeps h

namespace Holds

variable {p : Policy} {n : Nat} {h : Heap}

theorem mono {k : Nat} (hh : p.Holds n h) (hle : k ≤ n) : p.Holds k h :=
  { hh with made := Nat.le_trans hle hh.made }

/-- The heap has all the functions it has. -/
theorem all (hh : p.Holds n h) : p.Holds h.functions.size h :=
  { hh with made := Nat.le_refl _ }

/-- What is bound in a frame has been made. -/
theorem has (hh : p.Holds n h) {f : FrameId} {name : String} {v : Value} (hv : p.region.Has v)
    (hown : h.scopes.own? f name = some v) : p.Has h.functions.size v where
  region := hv
  made id hid := hh.backed f name id (hid ▸ hown)

theorem has_resolve? (hh : p.Holds n h) {f : FrameId} (hf : p.region.frames f) {name : String}
    {v : Value} (hv : h.scopes.resolve? f name = some v) : p.Has h.functions.size v := by
  obtain ⟨g, -, hown⟩ := Option.bind_eq_some_iff.1 hv
  exact hh.has (hh.closed.has_resolve? hf hv) hown

theorem has_member? (hh : p.Holds n h) {o : ObjectId} (ho : p.region.objects o) {name : String}
    {v : Value} (hv : h.member? o name = some v) : p.Has h.functions.size v := by
  obtain ⟨g, -, hown⟩ := Option.bind_eq_some_iff.1 hv
  exact hh.has (hh.closed.has_member? ho hv) hown

theorem has_lookup? (hh : p.Holds n h) {o : ObjectId} (ho : p.region.objects o) {name : String}
    {v : Value} (hv : h.lookup? o name = some v) : p.Has h.functions.size v := by
  refine ⟨hh.closed.has_lookup? ho hv, ?_⟩
  rintro id rfl
  unfold Heap.lookup? at hv
  split at hv
  · obtain ⟨g, -, hown⟩ := Option.bind_eq_some_iff.1 hv
    exact hh.backed g name id hown
  · obtain ⟨f, -, hresolve⟩ := Option.bind_eq_some_iff.1 hv
    obtain ⟨g, -, hown⟩ := Option.bind_eq_some_iff.1 hresolve
    exact hh.backed g name id hown

end Holds

/-- A policy that the operations of the heap keep. -/
structure Lawful (p : Policy) : Prop where
  extended : ∀ {n h outer} bindings, p.Holds n h → p.region.frames outer →
    p.keeps (h.extended outer bindings)
  define : ∀ {n h f name} value, p.Holds n h → p.region.frames f → p.admits f name →
    p.keeps (h.define f name value)
  setMember : ∀ {n h o} name value, p.Holds n h → p.region.objects o →
    p.keeps (h.setMember o name value)
  newFunction : ∀ {n h} name code, p.Holds n h → p.keeps (h.newFunction name code).2
  allocate : ∀ {n h} name outer, p.Holds n h → p.keeps (h.allocate name outer)
  /-- A definition that is not admitted is excused when it ends. -/
  excused : ∀ {n h f name e u} value, p.Holds n h → ¬ p.admits f name → e.Binds name →
    u.heap = h.define f name value → p.excuses (.ended e f u)

/-- One of the moments excuses. -/
def Excused (p : Policy) (ms : List Moment) : Prop :=
  ∃ m ∈ ms, p.excuses m

theorem Excused.mono {p : Policy} {ms ms' : List Moment} (h : p.Excused ms) (hsub : ms ⊆ ms') :
    p.Excused ms' := by
  obtain ⟨m, hm, hexcuses⟩ := h
  exact ⟨m, hsub hm, hexcuses⟩

/-- From every heap that the policy holds of, the policy goes on to hold, and
a value that the computation ends in has the property `P`, given how many
functions there are by then; unless a moment excuses the computation or its
last store does. -/
def Abides {α : Type} (p : Policy) (n : Nat) (last : Store → Prop) (P : Nat → α → Prop)
    (x : Watched α) : Prop :=
  ∀ s, p.Holds n s.heap → p.Excused (x s).1 ∨ last (x.erase.after s) ∨
    Throughout (p.Holds n) (fun a t => P t.heap.functions.size a) x s

/-- Every evaluation in a frame of the region abides by the policy. -/
def Evaluates (p : Policy) (recur : Watcher) : Prop :=
  ∀ e f n, p.region.frames f → p.Abides n (fun _ => False) p.Has (recur e f)

namespace Abides

variable {α β : Type} {p : Policy} {n : Nat} {last : Store → Prop} {P : Nat → α → Prop}
  {Q : Nat → β → Prop}

theorem lift {x : Eval α} (hx : ∀ s, p.Holds n s.heap → p.Holds n (x.after s).heap ∧
    ∀ a t, x s = .ok a t → P t.heap.functions.size a) : p.Abides n last P (.lift x) := by
  intro s hs
  exact .inr (.inr (.lift (hx s hs).1 (hx s hs).2))

theorem pure {a : α} (ha : ∀ k, n ≤ k → P k a) : p.Abides n last P (Pure.pure a) := by
  intro s hs
  exact .inr (.inr (.pure hs (ha _ hs.made)))

theorem throw (failure : Failure) :
    p.Abides n last P (.lift (MonadExcept.throw failure : Eval α)) :=
  lift fun _ hs => ⟨hs, fun _ _ h => by cases h⟩

theorem fail (error : EvalError) : p.Abides n last P (.lift (Eval.fail error)) :=
  throw (.eval error)

/-- A computation may go on by what it sees of the heap. -/
theorem heap {y : Heap → Watched β}
    (hy : ∀ h, n ≤ h.functions.size → p.Holds h.functions.size h →
      p.Abides h.functions.size last Q (y h)) :
    p.Abides n last Q (.lift Eval.heap >>= y) := by
  intro s hs
  rcases hy s.heap hs.made hs.all s hs.all with hexcused | hlast | hthrough
  · exact .inl hexcused
  · exact .inr (.inl hlast)
  · refine .inr (.inr ⟨fun m hm => ?_, ?_, hthrough.value⟩)
    · exact (hthrough.moments m hm).mono hs.made
    · exact hthrough.after.mono hs.made

/-- A change of the heap that the policy allows. -/
theorem withHeap {change : Heap → α × Heap}
    (hchange : ∀ h, p.Holds n h → p.Holds n (change h).2 ∧
      P (change h).2.functions.size (change h).1) :
    p.Abides n last P (.lift (Eval.withHeap change)) := by
  refine lift fun s hs => ⟨(hchange s.heap hs).1, ?_⟩
  intro a t ht
  cases ht
  exact (hchange s.heap hs).2

theorem modifyHeap {change : Heap → Heap} (hchange : ∀ h, p.Holds n h → p.Holds n (change h)) :
    p.Abides n last (fun _ _ => True) (.lift (Eval.modifyHeap change)) :=
  lift fun s hs => ⟨hchange s.heap hs, fun _ _ _ => trivial⟩

theorem mark {moment : Store → Moment} (hm : ∀ s, (moment s).store = s) :
    p.Abides n last (fun _ _ => True) (.mark moment) := by
  intro s hs
  exact .inr (.inr (.mark (hm s) hs trivial))

/-- One computation after the other; only the second one may be excused by its
last store. -/
theorem bind {x : Watched α} {y : α → Watched β} (hx : p.Abides n (fun _ => False) P x)
    (hy : ∀ a k, n ≤ k → P k a → p.Abides k last Q (y a)) : p.Abides n last Q (x >>= y) := by
  intro s hs
  rcases hx s hs with hexcused | hfalse | hthrough
  · exact .inl (hexcused.mono (Watched.subset_bind x y s))
  · exact hfalse.elim
  · cases hxs : x s with
    | mk ms result =>
      cases result with
      | error failure t => exact .inr (.inr (hthrough.bind_of_error hxs))
      | ok a t =>
        obtain ⟨ht, hP⟩ := hthrough.of_ok hxs
        rcases hy a _ ht.made hP t ht.all with hexcused | hlast | hrest
        · refine .inl (hexcused.mono ?_)
          rw [Watched.bind_of_ok hxs]
          exact List.subset_append_right _ _
        · refine .inr (.inl ?_)
          rwa [Watched.after_bind_of_ok hxs]
        · refine .inr (.inr (hthrough.bind_of_ok hxs (hrest.imp ?_ fun _ _ h => h)))
          exact fun h hh => hh.mono ht.made

/-- The moments before and after a computation. The one after it may excuse
it. -/
theorem between {x : Watched α} {first final : Store → Moment}
    (hfirst : ∀ s, (first s).store = s) (hfinal : ∀ t, (final t).store = t)
    (hx : p.Abides n (fun t => p.excuses (final t)) P x) :
    p.Abides n (fun _ => False) P (.between first final x) := by
  intro s hs
  rcases hx s hs with ⟨m, hm, hexcuses⟩ | hlast | hthrough
  · exact .inl ⟨m, List.mem_cons_of_mem _ (List.mem_append_left _ hm), hexcuses⟩
  · exact .inl ⟨final (x.erase.after s), by simp [Watched.between], hlast⟩
  · exact .inr (.inr (.between (hfirst s) hfinal hs hthrough))

theorem weaken {x : Watched α} (hx : p.Abides n (fun _ => False) P x) : p.Abides n last P x := by
  intro s hs
  rcases hx s hs with hexcused | hfalse | hthrough
  · exact .inl hexcused
  · exact hfalse.elim
  · exact .inr (.inr hthrough)

end Abides

end Policy

/-! ## Operations of the heap -/

namespace Policy

namespace Lawful

variable {p : Policy} (hl : p.Lawful) {n : Nat} {h : Heap}

include hl

theorem holds_extended (hh : p.Holds n h) {outer : FrameId} (ho : p.region.frames outer)
    {bindings : Bindings Value} (hv : ∀ binding ∈ bindings, p.Has n binding.2) :
    p.Holds n (h.extended outer bindings) where
  closed := Region.closed_defineAll (Region.closed_newFrame hh.closed ho) _
    fun binding hb => (hv binding hb).region
  backed := (hh.backed.newFrame (some outer)).defineAll _
    fun binding hb => ((hv binding hb).mono hh.made).made
  made := hh.made
  kept := hl.extended bindings hh ho

theorem holds_define (hh : p.Holds n h) {f : FrameId} (hf : p.region.frames f) {name : String}
    (hname : p.admits f name) {value : Value} (hv : p.Has n value) :
    p.Holds n (h.define f name value) where
  closed := Region.closed_define hh.closed f name hv.region
  backed := hh.backed.define f name (hv.mono hh.made).made
  made := hh.made
  kept := hl.define value hh hf hname

theorem holds_setMember (hh : p.Holds n h) {o : ObjectId} (ho : p.region.objects o)
    (name : String) {value : Value} (hv : p.Has n value) :
    p.Holds n (h.setMember o name value) where
  closed := Region.closed_setMember hh.closed o name hv.region
  backed := hh.backed.setMember o name (hv.mono hh.made).made
  made := by simpa using hh.made
  kept := hl.setMember name value hh ho

/-- A new function makes one more. -/
theorem holds_newFunction (hh : p.Holds n h) (name : String) {code : Code}
    (hcode : p.region.Holds (fun _ => True) code) :
    p.Holds (h.functions.size + 1) (h.newFunction name code).2 where
  closed := Region.closed_newFunction hh.closed name hcode
  backed := hh.backed.newFunction name code
  made := by simp [Heap.newFunction]
  kept := hl.newFunction name code hh

theorem holds_allocate (hh : p.Holds n h) (name : Option String) {outer : FrameId}
    (ho : p.region.frames outer) : p.Holds n (h.allocate name outer) where
  closed := Region.closed_allocate hh.closed name ho
  backed := hh.backed.allocate name outer
  made := hh.made
  kept := hl.allocate name outer hh

theorem holds_defineMember (hh : p.Holds n h) {o : ObjectId} (ho : p.region.objects o)
    (name : String) {code : Code} (hcode : p.region.Holds (fun _ => True) code) :
    p.Holds n (h.defineMember o name code) := by
  have hid : p.Has (h.functions.size + 1) (.function h.functions.size) := by
    refine ⟨hh.closed.newFunctions _ (Nat.le_refl _), ?_⟩
    rintro id ⟨⟩
    exact Nat.lt_succ_self _
  rw [Heap.defineMember_eq]
  refine (hl.holds_setMember (hl.holds_newFunction hh name hcode) ho name hid).mono ?_
  exact Nat.le_succ_of_le hh.made

theorem holds_newObject (hh : p.Holds n h) (name : Option String) {outer : FrameId}
    (ho : p.region.frames outer) : p.Holds n (h.newObject name outer).2 := by
  have hnew : p.region.objects h.objects.size := hh.closed.newObjects _ (Nat.le_refl _)
  rw [Heap.newObject_eq]
  refine hl.holds_defineMember (hl.holds_defineMember (hl.holds_defineMember
    (hl.holds_allocate hh name ho) hnew _ ?_) hnew _ ?_) hnew _ ?_
  all_goals exact Region.holds_accessor hnew rfl rfl

theorem holds_defineField (hh : p.Holds n h) {o : ObjectId} (ho : p.region.objects o)
    (field : String) {value : Value} (hv : p.Has n value) :
    p.Holds n (h.defineField o field value) := by
  rw [Heap.defineField_eq]
  refine hl.holds_defineMember (hl.holds_defineMember (hl.holds_setMember hh ho field hv)
    ho _ ?_) ho _ ?_
  all_goals exact Region.holds_accessor ho rfl rfl

end Lawful

/-! ## The evaluator -/

/-- A value that is no function has been made. -/
theorem has_of_region {p : Policy} {n : Nat} {v : Value} (hv : p.region.Has v)
    (hplain : ∀ id, v ≠ .function id) : p.Has n v :=
  ⟨hv, fun id hid => absurd hid (hplain id)⟩

theorem Evaluates.evalAll {p : Policy} {recur : Watcher} (hr : p.Evaluates recur) {f : FrameId}
    (hf : p.region.frames f) (n : Nat) (es : List Expr) :
    p.Abides n (fun _ => False) (fun k values => ∀ v ∈ values, p.Has k v)
      (Watched.evalAll recur f es) := by
  induction es generalizing n with
  | nil => exact .pure (by simp)
  | cons e es ih =>
    refine .bind (hr e f n hf) fun value k _ hvalue => .bind (ih k) fun values k' hle hvalues => ?_
    refine .pure fun k'' hle' => List.forall_mem_cons.2 ⟨?_, ?_⟩
    · exact hvalue.mono (Nat.le_trans hle hle')
    · intro v hv
      exact (hvalues v hv).mono hle'

theorem Evaluates.evalBlock {p : Policy} {recur : Watcher} (hr : p.Evaluates recur) {f : FrameId}
    (hf : p.region.frames f) {n : Nat} {last : Value} (hlast : p.Has n last) (es : List Expr) :
    p.Abides n (fun _ => False) p.Has (Watched.evalBlock recur f last es) := by
  induction es generalizing n last with
  | nil => exact .pure fun k hle => hlast.mono hle
  | cons e es ih => exact .bind (hr e f n hf) fun value k _ hvalue => ih hvalue

/-- An operator gives a number. -/
theorem abides_applied (p : Policy) (n : Nat) (operator : Operator) (arguments : List Value) :
    p.Abides n (fun _ => False) p.Has (.applied operator arguments) := by
  refine .bind (.mark fun _ => rfl) fun _ k _ _ => .heap fun h _ hh => ?_
  cases ha : operator.apply h arguments with
  | ok value =>
    obtain ⟨d, rfl⟩ := Operator.exists_number_of_apply ha
    exact .pure (a := Value.number d) fun _ _ => has_of_region trivial (by simp)
  | error failure => exact .throw failure

/-- Looking a member up changes nothing but the events. -/
theorem abides_lookup {p : Policy} {o : ObjectId} (ho : p.region.objects o) (n : Nat)
    (name : String) :
    p.Abides n (fun _ => False) (fun k member? => ∀ v ∈ member?, p.Has k v)
      (.lift (Eval.lookup o name)) := by
  refine .lift fun s hs => ?_
  obtain ⟨events, hlookup⟩ := Eval.lookup_apply o name s
  constructor
  · simpa only [Eval.after, hlookup] using hs
  · intro member? t ht v hv
    obtain ⟨rfl, rfl⟩ : s.heap.lookup? o name = member? ∧ _ = t := by simpa [hlookup] using ht
    exact hs.has_lookup? ho hv

namespace Lawful

variable {p : Policy} (hl : p.Lawful) {recur : Watcher} {f : FrameId} {n : Nat}

include hl

/-- A computation in a new frame inside the region. -/
theorem inside {outer : FrameId} (ho : p.region.frames outer) {bindings : Bindings Value}
    (hv : ∀ binding ∈ bindings, p.Has n binding.2) {body : FrameId → Watched Value}
    (hbody : ∀ g k, p.region.frames g → p.Abides k (fun _ => False) p.Has (body g)) :
    p.Abides n (fun _ => False) p.Has (.inside outer bindings body) := by
  have henter : p.Abides n (fun _ => False) (fun _ => p.region.frames)
      (.lift (Eval.enter outer bindings)) := by
    refine .withHeap fun h hh => ⟨hl.holds_extended hh ho hv, ?_⟩
    exact hh.closed.newFrames _ (Nat.le_refl _)
  exact .bind henter fun g k _ hg => .between (fun _ => rfl) (fun _ => rfl) (hbody g k hg).weaken

/-- Setting the prototype or a field of an object of the region. -/
theorem assigned {o : ObjectId} (ho : p.region.objects o) (name : String) {value : Value}
    (hv : p.Has n value) :
    p.Abides n (fun _ => False) p.Has (.lift (do
      Eval.modifyHeap (·.setMember o name value)
      return value)) := by
  refine .lift fun s hs => ⟨hl.holds_setMember hs ho name hv, ?_⟩
  intro v t ht
  cases ht
  exact hv.mono (hl.holds_setMember hs ho name hv).made

/-- Code of an object without a body. -/
theorem accessor {function : Function}
    (hfunction : p.region.Holds (fun _ => True) function.code)
    (hbody : function.code.body? = none) (howner : function.code.owner?.isSome = true)
    (receiver? : Option Value) {arguments : List Value}
    (hargs : ∀ v ∈ arguments, p.Has n v) (recur' : Evaluator) :
    p.Abides n (fun _ => False) p.Has
      (.lift (Eval.invoke recur' function receiver? arguments)) := by
  unfold Eval.invoke
  cases hcode : function.code with
  | operator operator => simp [hcode, Code.owner?] at howner
  | closure parameters body frame => simp [hcode, Code.body?] at hbody
  | method parameters body owner => simp [hcode, Code.body?] at hbody
  | getPrototype owner =>
    rw [hcode] at hfunction
    cases arguments with
    | nil =>
      refine .lift fun s hs => ⟨hs, ?_⟩
      intro v t hv
      cases hv
      cases hm : s.heap.member? owner Heap.prototypeName with
      | none => exact has_of_region (v := Value.null) trivial (by simp)
      | some value => exact hs.has_member? (hfunction.owner owner rfl) hm
    | cons => exact .fail _
  | setPrototype owner | setField owner _ =>
    rw [hcode] at hfunction
    rcases arguments with _ | ⟨value, _ | ⟨_, _⟩⟩
    · exact .fail _
    · exact hl.assigned (hfunction.owner owner rfl) _ (hargs value (by simp))
    · exact .fail _
  | getField owner field =>
    rw [hcode] at hfunction
    cases arguments with
    | nil =>
      refine .lift fun s hs => ?_
      cases hm : s.heap.member? owner field with
      | none => exact ⟨by simpa [Eval.after, Eval.bind_apply, Eval.heap, hm] using hs,
          by simp [Eval.bind_apply, Eval.heap, hm]⟩
      | some value =>
        refine ⟨by simpa [Eval.after, Eval.bind_apply, Eval.heap, hm] using hs, ?_⟩
        intro v t hv
        obtain ⟨rfl, rfl⟩ : value = v ∧ s = t := by
          simpa [Eval.bind_apply, Eval.heap, hm] using hv
        exact hs.has_member? (hfunction.owner owner rfl) hm
    | cons => exact .fail _
  | isInstance owner =>
    rcases arguments with _ | ⟨prototype, _ | ⟨_, _⟩⟩
    · exact .fail _
    · refine .lift fun s hs => ⟨hs, ?_⟩
      intro v t hv
      cases hv
      exact has_of_region trivial (by simp [Value.ofBool])
    · exact .fail _

theorem invoke (hr : p.Evaluates recur) {function : Function}
    (hfunction : p.region.Holds (fun _ => True) function.code) {receiver? : Option Value}
    (hreceiver : ∀ v ∈ receiver?, p.Has n v) {arguments : List Value}
    (hargs : ∀ v ∈ arguments, p.Has n v) :
    p.Abides n (fun _ => False) p.Has (Watched.invoke recur function receiver? arguments) := by
  have hzip : ∀ parameters : List String, ∀ binding ∈ parameters.zip arguments,
      p.Has n binding.2 := fun _ binding h => hargs _ (List.of_mem_zip h).2
  unfold Watched.invoke
  cases hcode : function.code with
  | operator operator => exact p.abides_applied n operator arguments
  | closure parameters body frame =>
    rw [hcode] at hfunction
    simp only
    split
    · exact hl.inside (hfunction.captured frame rfl) (hzip parameters) fun g k hg => hr body g k hg
    · exact .fail _
  | method parameters body owner =>
    rw [hcode] at hfunction
    simp only
    split
    · refine .heap fun h hle hh => ?_
      refine hl.inside (hh.closed.frames_frameOf? (hfunction.owner owner rfl)) ?_
        fun g k hg => hr body g k hg
      refine List.forall_mem_cons.2 ⟨?_, fun binding hb => (hzip parameters binding hb).mono hle⟩
      cases hthis : receiver? with
      | none => exact has_of_region (v := .object owner) (hfunction.owner owner rfl) (by simp)
      | some receiver => exact (hreceiver receiver hthis).mono hle
    · exact .fail _
  | getPrototype _ | setPrototype _ | getField _ _ | setField _ _ | isInstance _ =>
    exact hl.accessor hfunction (by rw [hcode]; rfl) (by rw [hcode]; rfl) receiver? hargs _

/-- A call of a function of the region, its arguments still to be
evaluated. -/
theorem arguments (hr : p.Evaluates recur) (hf : p.region.frames f) {function : Function}
    (hfunction : p.region.Holds (fun _ => True) function.code) {receiver? : Option Value}
    (hreceiver : ∀ v ∈ receiver?, p.Has n v) (arguments : List Expr) :
    p.Abides n (fun _ => False) p.Has (do
      let values ← Watched.evalAll recur f arguments
      Watched.invoke recur function receiver? values) := by
  refine .bind (hr.evalAll hf n arguments) fun values k hle hvalues => ?_
  exact hl.invoke hr hfunction (fun v hv => (hreceiver v hv).mono hle) hvalues

theorem call (hr : p.Evaluates recur) (hf : p.region.frames f) (name : String)
    (arguments : List Expr) :
    p.Abides n (fun _ => False) p.Has (Watched.call recur f name arguments) := by
  refine .heap fun h _ hh => ?_
  cases hv : h.scopes.resolve? f name with
  | none => exact .fail _
  | some value =>
    cases hfunction : h.asFunction? value with
    | none => simp only [hfunction]; exact .fail _
    | some function =>
      simp only [hfunction]
      exact hl.arguments hr hf
        (hh.closed.holds_asFunction? (hh.closed.has_resolve? hf hv) hfunction) (by simp) arguments

theorem send (hr : p.Evaluates recur) (hf : p.region.frames f) (name : String) (receiver : Expr)
    (arguments : List Expr) :
    p.Abides n (fun _ => False) p.Has (Watched.send recur f name receiver arguments) := by
  refine .bind (hr receiver f n hf) fun target k _ htarget => ?_
  cases target with
  | object o =>
    refine .bind (abides_lookup htarget.region k name) fun member? k' hle hmember => ?_
    refine .heap fun h hle' hh => ?_
    cases member? with
    | none => exact .fail _
    | some member =>
      cases hfunction : h.asFunction? member with
      | none => simp only [hfunction]; exact .fail _
      | some function =>
        simp only [hfunction]
        have hheld := hh.closed.holds_asFunction? (hmember member rfl).region hfunction
        refine hl.arguments hr hf hheld ?_ arguments
        intro v hv
        obtain rfl := Option.some.inj hv
        exact htarget.mono (Nat.le_trans hle hle')
  | number _ | atom _ | null | function _ => exact .heap fun h _ hh => .fail _

theorem defineMembers (hr : p.Evaluates recur) (hf : p.region.frames f) {o : ObjectId}
    (ho : p.region.objects o) (members : List Member) :
    p.Abides n (fun _ => False) (fun _ _ => True) (Watched.defineMembers recur f o members) := by
  induction members generalizing n with
  | nil => exact .pure fun _ _ => trivial
  | cons member members ih =>
    cases member with
    | field name value =>
      refine .bind (hr value f n hf) fun v k _ hv => ?_
      refine .bind (P := fun _ _ => True) ?_ fun _ _ _ _ => ih
      refine .bind (.modifyHeap fun h hh => ?_) fun _ _ _ _ => .mark fun _ => rfl
      exact hl.holds_defineField hh ho name hv
    | method name parameters body =>
      refine .bind (.modifyHeap fun h hh => ?_) fun _ _ _ _ => ih
      exact hl.holds_defineMember hh ho name (Region.holds_method ho trivial)

/-- Binding a name in a frame of the region: what is not admitted is excused
when it ends. -/
theorem bound (hf : p.region.frames f) {e : Expr} {name : String} (hbinds : e.Binds name)
    {value : Value} (hv : p.Has n value) :
    p.Abides n (fun t => p.excuses (.ended e f t)) p.Has (do
      .lift (Eval.modifyHeap (·.define f name value))
      return value) := by
  intro s hs
  by_cases hname : p.admits f name
  · refine .inr (.inr (.bind (P := fun _ _ => True) ?_ fun _ t ht _ => .pure ht (hv.mono ht.made)))
    exact .lift (hl.holds_define hs hf hname hv) fun _ _ _ => trivial
  · exact .inr (.inl (hl.excused value hs hname hbinds rfl))

/-- The definition of a function. -/
theorem defined (hf : p.region.frames f) {e : Expr} {name : String} (hbinds : e.Binds name)
    (parameters : List String) (body : Expr) (recur' : Evaluator) :
    p.Abides n (fun t => p.excuses (.ended e f t)) p.Has
      (.lift (Eval.evalForm recur' f (.defineFunction name parameters body))) := by
  intro s hs
  have hcode : p.region.Holds (fun _ => True) (.closure parameters body f) :=
    Region.holds_closure hf trivial
  have hmade := hl.holds_newFunction hs name hcode
  have hid : p.Has (s.heap.functions.size + 1) (.function s.heap.functions.size) := by
    refine ⟨hs.closed.newFunctions _ (Nat.le_refl _), ?_⟩
    rintro id ⟨⟩
    exact Nat.lt_succ_self _
  simp only [Eval.evalForm]
  by_cases hbound : s.heap.scopes.contains f name = true
  · refine .inr (.inr (.lift ?_ ?_))
    · simpa [Eval.after, Eval.bind_apply, Eval.heap, hbound, Eval.fail] using hs
    · simp [Eval.bind_apply, Eval.heap, hbound, Eval.fail]
  · have hrun : ∀ α (x y : Eval α), (if s.heap.scopes.contains f name = true then x else y) = y :=
      fun _ _ _ => if_neg hbound
    by_cases hname : p.admits f name
    · have hholds := hl.holds_define hmade hf hname hid
      refine .inr (.inr (.lift ?_ ?_))
      · simp only [Eval.after, Eval.bind_apply, Eval.heap, hrun]
        exact hholds.mono (Nat.le_succ_of_le hs.made)
      · intro v t ht
        simp only [Eval.bind_apply, Eval.heap, hrun] at ht
        cases ht
        exact hid.mono hholds.made
    · refine .inr (.inl ?_)
      simp only [Watched.erase_lift, Eval.after, Eval.bind_apply, Eval.heap, hrun]
      exact hl.excused _ hmade hname hbinds rfl

theorem evalForm (hr : p.Evaluates recur) (hf : p.region.frames f) {e : Expr} {form : Form}
    (hbinds : ∀ name, form.binds? = some name → e.Binds name) :
    p.Abides n (fun t => p.excuses (.ended e f t)) p.Has (Watched.evalForm recur f form) := by
  cases form with
  | block body =>
    have hnull : ∀ k, p.Has k .null := fun k => has_of_region trivial (by simp)
    exact (hl.inside hf (by simp) fun g k hg => hr.evalBlock hg (hnull k) body).weaken
  | defineVariable name value | assign name value =>
    refine .heap fun h _ hh => ?_
    split
    · exact .fail _
    · exact .bind (hr value f _ hf) fun v k _ hv => hl.bound hf (hbinds name rfl) hv
  | defineFunction name parameters body => exact hl.defined hf (hbinds name rfl) parameters body _
  | object name members =>
    have hnew : p.Abides n (fun _ => False) (fun _ => p.region.objects)
        (.lift (Eval.withHeap (·.newObject name f))) := by
      refine .withHeap fun h hh => ⟨hl.holds_newObject hh name hf, ?_⟩
      exact hh.closed.newObjects _ (Nat.le_refl _)
    refine .bind hnew fun o k _ ho => .bind (hl.defineMembers hr hf ho members) fun _ _ _ _ => ?_
    exact .pure fun _ _ => has_of_region (v := .object o) ho (by simp)
  | send name receiver arguments => exact (hl.send hr hf name receiver arguments).weaken
  | call name arguments => exact (hl.call hr hf name arguments).weaken

/-- One level of evaluation. -/
theorem step (hr : p.Evaluates recur) (hf : p.region.frames f) (e : Expr) :
    p.Abides n (fun t => p.excuses (.ended e f t)) p.Has (Watched.step recur e f) := by
  cases e with
  | form name arguments =>
    simp only [Watched.step]
    cases hclass : Form.classify name arguments with
    | error fault => exact .fail _
    | ok form =>
      refine hl.evalForm hr hf fun bound hbound => ?_
      exact ⟨name, arguments, form, rfl, hclass, hbound⟩
  | number value =>
    exact .pure (a := Value.number value) fun _ _ => has_of_region trivial (by simp)
  | atom name => exact .pure (a := Value.atom name) fun _ _ => has_of_region trivial (by simp)
  | foreign text => exact .throw _
  | _ name =>
    -- a variable
    refine .lift fun s hs => ?_
    cases hv : s.heap.scopes.resolve? f name with
    | none =>
      exact ⟨by simpa [Eval.after, Eval.step, Eval.bind_apply, Eval.heap, hv, Eval.fail] using hs,
        by simp [Eval.step, Eval.bind_apply, Eval.heap, hv, Eval.fail]⟩
    | some value =>
      refine ⟨by simpa [Eval.after, Eval.step, Eval.bind_apply, Eval.heap, hv] using hs, ?_⟩
      intro v t ht
      obtain ⟨rfl, rfl⟩ : value = v ∧ s = t := by
        simpa [Eval.step, Eval.bind_apply, Eval.heap, hv] using ht
      exact hs.has_resolve? hf hv

/-- Evaluation abides by the policy, with any allowance. -/
theorem watch (limit : Nat) : p.Evaluates (watch limit) := by
  induction limit with
  | zero => exact fun _ _ _ _ => .throw .stackExhausted
  | succ limit ih =>
    exact fun e f n hf => .between (fun _ => rfl) (fun _ => rfl) (hl.step ih hf e)

end Lawful

end Policy

end PrototypeLisp
