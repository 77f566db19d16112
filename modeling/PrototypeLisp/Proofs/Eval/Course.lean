/-
PrototypeLisp.Proofs.Eval.Course — what holds all along a computation.

`Reaches` says what is known of a computation in a frame that started from one
store, has passed some moments and has got to another store: the heap has
changed within the realm of the computation, has kept everything that was
there at each moment, the frames of ended blocks and bodies are as they were
when these ended, and every field has been declared. `Course` is the same at
every moment on the way and at the end. Courses compose: one after the other
in a frame, and one inside a new frame.

`Meets` adds the outcome: a value with a property, or a failure that the
course accounts for. It has one rule for each way of putting watched
computations together.
-/
import PrototypeLisp.Proofs.Eval.Watch
import PrototypeLisp.Proofs.Heap.Change

namespace PrototypeLisp

open Heap

/-! ## Moments with their past -/

/-- Does a property of the moments passed and the store hold at each of these
moments, after those of the past? -/
def Along (P : List Moment → Store → Prop) (past : List Moment) : List Moment → Prop
  | [] => True
  | m :: ms => P (past ++ [m]) m.store ∧ Along P (past ++ [m]) ms

theorem along_append {P : List Moment → Store → Prop} {past xs ys : List Moment} :
    Along P past (xs ++ ys) ↔ Along P past xs ∧ Along P (past ++ xs) ys := by
  induction xs generalizing past with
  | nil => simp [Along]
  | cons m xs ih => simp [Along, ih, and_assoc]

theorem Along.imp {P Q : List Moment → Store → Prop} {past past' xs : List Moment}
    (hPQ : ∀ ms t, P (past ++ ms) t → Q (past' ++ ms) t) (hP : Along P past xs) :
    Along Q past' xs := by
  induction xs generalizing past past' with
  | nil => trivial
  | cons m xs ih =>
    refine ⟨hPQ [m] m.store hP.1, ih (fun ms t h => ?_) hP.2⟩
    rw [List.append_assoc] at h ⊢
    exact hPQ _ t h

/-! ## Where a computation has got to -/

/-- A computation in `f` started from `s`, has passed the moments `ms` and is
at `t`. It may write the frame `f`, what is new, and the objects from number
`k` on. -/
structure Reaches (code : Expr → Prop) (f : FrameId) (k : Nat) (s : Store)
    (ms : List Moment) (t : Store) : Prop where
  evolves : Evolves code (Realm.of f s.heap.scopes.size k) s.heap t.heap
  grown : ∀ m ∈ ms, m.store.heap.Grows t.heap
  begun : ∀ e g u, .begun e g u ∈ ms → t.heap.IsScope g
  opened : ∀ g u, .opened g u ∈ ms → t.heap.IsScope g
  closed : ∀ g u, .closed g u ∈ ms → s.heap.scopes.size ≤ g ∧ t.heap.IsScope g ∧
    t.heap.scopes.bindings g = u.heap.scopes.bindings g
  declared : ∀ o field, t.heap.DeclaresField o field →
    s.heap.DeclaresField o field ∨ ∃ u, .declared o field u ∈ ms

namespace Reaches

variable {code : Expr → Prop} {f g : FrameId} {k : Nat} {s t u : Store}
  {ms ms' : List Moment}

/-- A change that passes no moment. -/
theorem of_evolves (he : Evolves code (Realm.of f s.heap.scopes.size k) s.heap t.heap)
    (hd : ∀ o field, t.heap.DeclaresField o field → s.heap.DeclaresField o field) :
    Reaches code f k s [] t where
  evolves := he
  grown _ hm := by simp at hm
  begun _ _ _ hm := by simp at hm
  opened _ _ hm := by simp at hm
  closed _ _ hm := by simp at hm
  declared o field ht := .inl (hd o field ht)

theorem refl (code : Expr → Prop) (f : FrameId) (k : Nat) (s : Store) :
    Reaches code f k s [] s :=
  of_evolves (Evolves.refl _) fun _ _ hd => hd

/-- One more moment at the place reached. -/
theorem snoc (h : Reaches code f k s ms t) {m : Moment} (hm : m.store = t)
    (hbegun : ∀ e g u, m = .begun e g u → t.heap.IsScope g)
    (hopened : ∀ g u, m = .opened g u → t.heap.IsScope g)
    (hclosed : ∀ g u, m = .closed g u → s.heap.scopes.size ≤ g ∧ t.heap.IsScope g) :
    Reaches code f k s (ms ++ [m]) t where
  evolves := h.evolves
  grown m' hm' := by
    rcases List.mem_append.1 hm' with hm' | hm'
    · exact h.grown m' hm'
    · obtain rfl : m' = m := by simpa using hm'
      rw [hm]
      exact Grows.refl _
  begun e g u hm' := by
    rcases List.mem_append.1 hm' with hm' | hm'
    · exact h.begun e g u hm'
    · exact hbegun e g u (List.mem_singleton.1 hm').symm
  opened g u hm' := by
    rcases List.mem_append.1 hm' with hm' | hm'
    · exact h.opened g u hm'
    · exact hopened g u (List.mem_singleton.1 hm').symm
  closed g u hm' := by
    rcases List.mem_append.1 hm' with hm' | hm'
    · exact h.closed g u hm'
    · obtain rfl : Moment.closed g u = m := List.mem_singleton.1 hm'
      obtain ⟨hnew, hscope⟩ := hclosed g u rfl
      obtain rfl : u = t := hm
      exact ⟨hnew, hscope, rfl⟩
  declared o field ht := by
    rcases h.declared o field ht with hs | ⟨u, hu⟩
    · exact .inl hs
    · exact .inr ⟨u, List.mem_append_left _ hu⟩

/-- What comes next is a computation in the same frame, or in a new frame that
is not yet done with: the frames done with are outside its realm. -/
theorem append (hw : s.heap.WellFormed) (h₁ : Reaches code f k s ms t)
    (h₂ : Reaches code g k t ms' u) (hg : g = f ∨ s.heap.scopes.size ≤ g)
    (hopen : ∀ j v, .closed j v ∈ ms → j ≠ g) : Reaches code f k s (ms ++ ms') u := by
  have hgrow := h₁.evolves.grows
  have hgrow' := h₂.evolves.grows
  have hconfined := h₂.evolves.confined (h₁.evolves.wellFormed hw)
  exact {
    evolves := h₁.evolves.trans (h₂.evolves.mono (Realm.of_le_of hg hgrow.size_le))
    grown := fun m hm => by
      rcases List.mem_append.1 hm with hm | hm
      · exact (h₁.grown m hm).trans hgrow'
      · exact h₂.grown m hm
    begun := fun e j v hm => by
      rcases List.mem_append.1 hm with hm | hm
      · exact hgrow'.isScope (h₁.begun e j v hm)
      · exact h₂.begun e j v hm
    opened := fun j v hm => by
      rcases List.mem_append.1 hm with hm | hm
      · exact hgrow'.isScope (h₁.opened j v hm)
      · exact h₂.opened j v hm
    closed := fun j v hm => by
      rcases List.mem_append.1 hm with hm | hm
      · obtain ⟨hnew, hscope, hsame⟩ := h₁.closed j v hm
        have hout : ¬ (Realm.of g t.heap.scopes.size k).scopes j := by
          rintro (hj | hj)
          · exact hopen j v hm hj
          · exact absurd hscope.lt_size (Nat.not_lt_of_le hj)
        exact ⟨hnew, hgrow'.isScope hscope, (hconfined.scopes j hscope hout).trans hsame⟩
      · obtain ⟨hnew, hrest⟩ := h₂.closed j v hm
        exact ⟨Nat.le_trans hgrow.size_le hnew, hrest⟩
    declared := fun o field hu => by
      rcases h₂.declared o field hu with ht | ⟨v, hv⟩
      · rcases h₁.declared o field ht with hs | ⟨v, hv⟩
        · exact .inl hs
        · exact .inr ⟨v, List.mem_append_left _ hv⟩
      · exact .inr ⟨v, List.mem_append_right _ hv⟩ }

/-- In a frame that existed at the start, nothing done with is in the way. -/
theorem closed_ne (h : Reaches code f k s ms t) (hf : f < s.heap.scopes.size) (j : FrameId)
    (v : Store) (hm : .closed j v ∈ ms) : j ≠ f := by
  rintro rfl
  exact absurd hf (Nat.not_lt_of_le (h.closed j v hm).1)

end Reaches

/-! ## The whole way -/

/-- What `Reaches` says, at the end of a computation and at every moment on the
way. -/
structure Course (code : Expr → Prop) (f : FrameId) (k : Nat) (s : Store)
    (ms : List Moment) (t : Store) : Prop where
  reaches : Reaches code f k s ms t
  along : Along (Reaches code f k s) [] ms

namespace Course

variable {code : Expr → Prop} {f g : FrameId} {k : Nat} {s t u : Store}
  {ms ms' : List Moment}

/-- At a moment on the way, with the moments before it. -/
theorem at_moment {m : Moment} (h : Course code f k s (ms ++ m :: ms') t) :
    Reaches code f k s (ms ++ [m]) m.store := by
  have hrest := (along_append.1 h.along).2
  simpa using hrest.1

theorem of_reaches (h : Reaches code f k s [] t) : Course code f k s [] t :=
  ⟨h, trivial⟩

/-- One more moment at the place reached. -/
theorem snoc (h : Course code f k s ms t) {m : Moment} (hm : m.store = t)
    (hr : Reaches code f k s (ms ++ [m]) t) : Course code f k s (ms ++ [m]) t where
  reaches := hr
  along := by
    refine along_append.2 ⟨h.along, ?_, trivial⟩
    rw [hm]
    simpa using hr

theorem append (hw : s.heap.WellFormed) (h₁ : Course code f k s ms t)
    (h₂ : Course code g k t ms' u) (hg : g = f ∨ s.heap.scopes.size ≤ g)
    (hopen : ∀ j v, .closed j v ∈ ms → j ≠ g) : Course code f k s (ms ++ ms') u where
  reaches := h₁.reaches.append hw h₂.reaches hg hopen
  along := by
    refine along_append.2 ⟨h₁.along, ?_⟩
    refine h₂.along.imp fun ms'' v hv => ?_
    simpa using h₁.reaches.append hw hv hg hopen

/-- A computation in a new frame, from the moment the frame is made to the
moment it is done with. The frame around it does not matter. -/
theorem inside (hw : s.heap.WellFormed)
    (hnew : Evolves code (Realm.of f s.heap.scopes.size k) s.heap t.heap)
    (hd : ∀ o field, t.heap.DeclaresField o field → s.heap.DeclaresField o field)
    (hscope : t.heap.IsScope g) (hg : s.heap.scopes.size ≤ g)
    (h : Course code g k t ms u) :
    Course code f k s (.opened g t :: ms ++ [.closed g u]) u := by
  have hopened : Reaches code f k s [.opened g t] t := by
    refine (Reaches.of_evolves hnew hd).snoc rfl ?_ ?_ ?_
    · simp
    · rintro g' u' heq
      obtain ⟨rfl, -⟩ : g = g' ∧ t = u' := by simpa using heq
      exact hscope
    · simp
  have hinner : Course code f k s (.opened g t :: ms) u :=
    append hw ⟨hopened, hopened, trivial⟩ h (.inr hg) (by simp)
  refine hinner.snoc rfl (hinner.reaches.snoc rfl (by simp) (by simp) ?_)
  rintro g' u' heq
  obtain ⟨rfl, -⟩ : g = g' ∧ u = u' := by simpa using heq
  exact ⟨hg, h.reaches.evolves.grows.isScope hscope⟩

end Course

/-! ## Outcomes -/

/-- The failures that evaluation can end in after the moments `ms`: errors of
the language, an exhausted stack, an operator whose result overflows, and a
foreign piece among the admitted expressions. -/
inductive Explained (code : Expr → Prop) (ms : List Moment) : Failure → Prop where
  | eval (error : EvalError) : Explained code ms (.eval error)
  | stack : Explained code ms .stackExhausted
  | overflow {operator : Operator} {arguments : List Value} {u : Store}
      (hm : .applied operator arguments u ∈ ms)
      (ho : operator.apply u.heap arguments = .error .overflow) : Explained code ms .overflow
  | foreign {text : String} (hc : code (.foreign text)) :
      Explained code ms (.notAnExpression text)

theorem Explained.mono {code : Expr → Prop} {ms ms' : List Moment} {failure : Failure}
    (h : Explained code ms failure) (hsub : ms ⊆ ms') : Explained code ms' failure := by
  cases h with
  | eval error => exact .eval error
  | stack => exact .stack
  | overflow hm ho => exact .overflow (hsub hm) ho
  | foreign hc => exact .foreign hc

/-- The heaps from which a computation in `f` may start that writes the
objects from number `k` on. -/
structure Ready (code : Expr → Prop) (f : FrameId) (k : Nat) (h : Heap) : Prop where
  wellFormed : h.WellFormed
  bodies : Bodies code h
  scope : h.IsScope f
  objects_le : k ≤ h.objects.size

theorem Ready.evolves {code : Expr → Prop} {R : Realm} {f : FrameId} {k : Nat} {h h' : Heap}
    (hr : Ready code f k h) (he : Evolves code R h h') : Ready code f k h' where
  wellFormed := he.wellFormed hr.wellFormed
  bodies := he.bodies hr.bodies
  scope := he.grows.isScope hr.scope
  objects_le := Nat.le_trans hr.objects_le he.grows.objects_size_le

/-- A watched computation in `f` from `s` runs its course and ends in a value
with the property `Q`, or in an explained failure. -/
structure Meets {α : Type} (code : Expr → Prop) (f : FrameId) (k : Nat) (s : Store)
    (x : Watched α) (Q : α → Heap → Prop) : Prop where
  course : Course code f k s (x s).1 (x.erase.after s)
  value : ∀ a t, (x s).2 = .ok a t → Q a t.heap
  failure : ∀ failure t, (x s).2 = .error failure t → Explained code (x s).1 failure

namespace Meets

variable {α β : Type} {code : Expr → Prop} {f : FrameId} {k : Nat} {s : Store}
  {Q : α → Heap → Prop} {Q' : β → Heap → Prop}

theorem pure {a : α} (ha : Q a s.heap) : Meets code f k s (Pure.pure a) Q where
  course := .of_reaches (.refl code f k s)
  value b t hb := by
    obtain ⟨rfl, rfl⟩ : a = b ∧ s = t := by simpa [Pure.pure] using hb
    exact ha
  failure _ _ h := by simp [Pure.pure] at h

/-- A computation that passes no moment and ends in a value. -/
theorem lift_ok {x : Eval α} {a : α} {t : Store} (hx : x s = .ok a t)
    (he : Evolves code (Realm.of f s.heap.scopes.size k) s.heap t.heap)
    (hd : ∀ o field, t.heap.DeclaresField o field → s.heap.DeclaresField o field)
    (ha : Q a t.heap) : Meets code f k s (.lift x) Q where
  course := by
    have hafter : (Watched.lift x).erase.after s = t := by
      simp [Watched.erase_lift, Eval.after, hx]
    rw [hafter]
    exact .of_reaches (.of_evolves he hd)
  value b u hb := by
    obtain ⟨rfl, rfl⟩ : a = b ∧ t = u := by simpa [Watched.lift, hx] using hb
    exact ha
  failure _ _ h := by simp [Watched.lift, hx] at h

/-- A computation that changes nothing and ends in a failure. -/
theorem lift_error {x : Eval α} {failure : Failure} (hx : x s = .error failure s)
    (hf : Explained code [] failure) : Meets code f k s (.lift x) Q where
  course := by
    have hafter : (Watched.lift x).erase.after s = s := by
      simp [Watched.erase_lift, Eval.after, hx]
    rw [hafter]
    exact .of_reaches (.refl code f k s)
  value _ _ h := by simp [Watched.lift, hx] at h
  failure failure' t h := by
    obtain ⟨rfl, -⟩ : failure = failure' ∧ s = t := by simpa [Watched.lift, hx] using h
    exact hf

/-- A computation may start by looking at the heap. -/
theorem heap {y : Heap → Watched α} (hy : Meets code f k s (y s.heap) Q) :
    Meets code f k s (.lift Eval.heap >>= y) Q :=
  ⟨hy.course, hy.value, hy.failure⟩

theorem fail (error : EvalError) : Meets code f k s (.lift (Eval.fail error)) Q :=
  lift_error rfl (.eval error)

/-- One computation after the other in the same frame. -/
theorem bind {x : Watched α} {y : α → Watched β} (hs : Ready code f k s.heap)
    (hx : Meets code f k s x Q)
    (hy : ∀ a t, s.heap.Grows t.heap → Ready code f k t.heap → Q a t.heap →
      Meets code f k t (y a) Q') : Meets code f k s (x >>= y) Q' := by
  have hstart := hx.course
  cases hxs : x s with
  | mk ms result =>
    cases result with
    | ok a t =>
      have hafter : x.erase.after s = t := by simp [Watched.erase, Eval.after, hxs]
      have hbind : (x >>= y) s = (ms ++ (y a t).1, (y a t).2) := by
        simp [Bind.bind, hxs]
      have hafter' : (x >>= y).erase.after s = (y a).erase.after t := by
        simp only [Watched.erase, Eval.after, hbind]
      rw [hafter, hxs] at hstart
      have hnext := hy a t hstart.reaches.evolves.grows (hs.evolves hstart.reaches.evolves)
        (hx.value a t (by rw [hxs]))
      exact {
        course := by
          rw [hafter', hbind]
          exact hstart.append hs.wellFormed hnext.course (.inl rfl)
            (hstart.reaches.closed_ne hs.scope.lt_size)
        value := fun b u hb => by
          rw [hbind] at hb
          exact hnext.value b u hb
        failure := fun failure u hu => by
          rw [hbind] at hu ⊢
          exact (hnext.failure failure u hu).mono (List.subset_append_right _ _) }
    | error failure t =>
      have hafter : x.erase.after s = t := by simp [Watched.erase, Eval.after, hxs]
      have hbind : (x >>= y) s = (ms, .error failure t) := by simp [Bind.bind, hxs]
      have hafter' : (x >>= y).erase.after s = t := by
        simp [Watched.erase, Eval.after, hbind]
      rw [hafter, hxs] at hstart
      exact {
        course := by
          rw [hafter', hbind]
          exact hstart
        value := fun b u hb => by simp [hbind] at hb
        failure := fun failure' u hu => by
          rw [hbind] at hu ⊢
          obtain ⟨rfl, -⟩ : failure = failure' ∧ t = u := by simpa using hu
          have hfailure := hx.failure failure t (by rw [hxs])
          rwa [hxs] at hfailure }

/-- A computation that has the outcome of a nested one and passes at least its
moments. -/
theorem of_nested {x y : Watched α} {g : FrameId} {t : Store} (hx : Meets code g k t x Q)
    (hresult : (y s).2 = (x t).2) (hsub : (x t).1 ⊆ (y s).1)
    (hc : Course code f k s (y s).1 (y.erase.after s)) : Meets code f k s y Q where
  course := hc
  value a u hu := hx.value a u (hresult.symm.trans hu)
  failure failure u hu := (hx.failure failure u (hresult.symm.trans hu)).mono hsub

/-- The beginning and the end of an evaluation. -/
theorem evaluation {x : Watched α} (e : Expr) (hs : Ready code f k s.heap)
    (hx : Meets code f k s x Q) :
    Meets code f k s (.between (.begun e f) (.ended e f) x) Q := by
  have hbegun : Reaches code f k s [.begun e f s] s := by
    refine (Reaches.refl code f k s).snoc rfl ?_ (by simp) (by simp)
    rintro e' g u heq
    obtain ⟨-, rfl, -⟩ : e = e' ∧ f = g ∧ s = u := by simpa using heq
    exact hs.scope
  have hrest : Course code f k s (.begun e f s :: (x s).1) (x.erase.after s) :=
    Course.append hs.wellFormed ⟨hbegun, hbegun, trivial⟩ hx.course (.inl rfl) (by simp)
  refine hx.of_nested rfl ?_ ?_
  · intro m hm
    exact List.mem_cons_of_mem _ (List.mem_append_left _ hm)
  · exact hrest.snoc rfl (hrest.reaches.snoc rfl (by simp) (by simp) (by simp))

end Meets

/-! ## New frames -/

/-- Binding allocated values in a scope of the realm. -/
theorem evolves_defineAll {code : Expr → Prop} {R : Realm} {h : Heap} {f : FrameId}
    (hR : R.scopes f) (hf : h.IsScope f) {bindings : Bindings Value}
    (hv : ∀ binding ∈ bindings, h.Allocated binding.2) :
    Evolves code R h { h with scopes := h.scopes.defineAll f bindings } := by
  induction bindings generalizing h with
  | nil => exact Evolves.refl h
  | cons binding bindings ih =>
    have hgrow := grows_define h f binding.1 binding.2
    have hfirst : Change code R h (h.define f binding.1 binding.2) :=
      .bind hR hf (hv binding (by simp))
    refine (Evolves.single hfirst).trans (ih (hgrow.isScope hf) ?_)
    intro other hother
    exact hgrow.allocated (hv other (List.mem_cons_of_mem _ hother))

/-- The heap with a new frame inside `outer` that holds the given bindings. -/
def Heap.extended (h : Heap) (outer : FrameId) (bindings : Bindings Value) : Heap :=
  let h' := (h.newFrame (some outer)).2
  { h' with scopes := h'.scopes.defineAll h.scopes.size bindings }

theorem Scopes.size_defineAll {α : Type} (s : Scopes α) (f : FrameId) (bindings : Bindings α) :
    (s.defineAll f bindings).size = s.size := by
  induction bindings generalizing s with
  | nil => rfl
  | cons binding bindings ih => exact (ih _).trans (s.size_define f binding.1 binding.2)

theorem Scopes.bindings_defineAll_of_ne {α : Type} (s : Scopes α) {f g : FrameId} (hg : g ≠ f)
    (bindings : Bindings α) : (s.defineAll f bindings).bindings g = s.bindings g := by
  induction bindings generalizing s with
  | nil => rfl
  | cons binding bindings ih =>
    exact (ih _).trans (s.bindings_define_of_ne hg binding.1 binding.2)

@[simp] theorem Heap.size_scopes_extended (h : Heap) (outer : FrameId)
    (bindings : Bindings Value) : (h.extended outer bindings).scopes.size = h.scopes.size + 1 := by
  rw [extended, Scopes.size_defineAll, size_scopes_newFrame]

/-- The other frames keep their bindings. -/
theorem Heap.bindings_extended (h : Heap) (outer : FrameId) (bindings : Bindings Value)
    {f : FrameId} (hf : f < h.scopes.size) :
    (h.extended outer bindings).scopes.bindings f = h.scopes.bindings f := by
  rw [extended, Scopes.bindings_defineAll_of_ne _ (Nat.ne_of_lt hf), bindings_scopes_newFrame]

theorem evolves_extended {code : Expr → Prop} {R : Realm} {h : Heap} (hw : h.WellFormed)
    {outer : FrameId} (ho : outer < h.scopes.size) (hR : R.scopes h.scopes.size)
    {bindings : Bindings Value} (hv : ∀ binding ∈ bindings, h.Allocated binding.2) :
    Evolves code R h (h.extended outer bindings) :=
  (Evolves.single (.frame ho hR)).trans
    (evolves_defineAll hR (isScope_newFrame hw _) fun binding hb => hv binding hb)

theorem isScope_extended {h : Heap} (hw : h.WellFormed) {outer : FrameId}
    {bindings : Bindings Value} (hv : ∀ binding ∈ bindings, h.Allocated binding.2) :
    (h.extended outer bindings).IsScope h.scopes.size := by
  have hR : (Realm.of h.scopes.size 0 0).scopes h.scopes.size := Or.inl rfl
  have hnew := isScope_newFrame hw (some outer)
  have hrest : Evolves (fun _ => True) (Realm.of h.scopes.size 0 0)
      (h.newFrame (some outer)).2 (h.extended outer bindings) :=
    evolves_defineAll hR hnew fun binding hb => hv binding hb
  exact hrest.grows.isScope hnew

/-- A computation in a new frame, whatever frame it counts for. -/
theorem Meets.inside {code : Expr → Prop} {f : FrameId} {k : Nat} {s : Store}
    {Q : Value → Heap → Prop} {body : FrameId → Watched Value} {outer : FrameId}
    {bindings : Bindings Value} (hw : s.heap.WellFormed) (hb : Bodies code s.heap)
    (hk : k ≤ s.heap.objects.size) (ho : outer < s.heap.scopes.size)
    (hv : ∀ binding ∈ bindings, s.heap.Allocated binding.2)
    (hbody : ∀ t, Ready code s.heap.scopes.size k t.heap →
      Meets code s.heap.scopes.size k t (body s.heap.scopes.size) Q) :
    Meets code f k s (.inside outer bindings body) Q := by
  have hR : (Realm.of f s.heap.scopes.size k).scopes s.heap.scopes.size :=
    Or.inr (Nat.le_refl _)
  have hnew : Evolves code (Realm.of f s.heap.scopes.size k) s.heap
      (s.heap.extended outer bindings) := evolves_extended hw ho hR hv
  have hscope : (s.heap.extended outer bindings).IsScope s.heap.scopes.size :=
    isScope_extended hw hv
  have hinner := hbody { s with heap := s.heap.extended outer bindings }
    ⟨hnew.wellFormed hw, hnew.bodies hb, hscope,
      Nat.le_trans hk hnew.grows.objects_size_le⟩
  -- a new frame and its bindings declare no field
  have hd : ∀ o field, (s.heap.extended outer bindings).DeclaresField o field →
      s.heap.DeclaresField o field := fun _ _ hfield => hfield
  refine hinner.of_nested rfl ?_ (Course.inside hw hnew hd hscope (Nat.le_refl _) hinner.course)
  intro m hm
  exact List.mem_cons_of_mem _ (List.mem_append_left _ hm)

end PrototypeLisp
