/-
PrototypeLisp.Proofs.Eval.Soundness — evaluation keeps to its course.

One lemma for each function of the evaluator says that it meets its course
from every heap that is ready for it, provided that the evaluator it is given
does so for what is nested inside. By induction on the allowance, evaluation
itself does (`sound_watch`): whatever it ends in, it has changed the heap only
by the changes that are open to a computation in its frame.

The lemmas are about code from a set `code` of expressions that is closed
under parts. With every expression in the set they say what holds in general;
with the expressions that the reader can give they also exclude failures.
-/
import PrototypeLisp.Proofs.Eval.Course
import PrototypeLisp.Proofs.Form.Parts

namespace PrototypeLisp

open Heap

/-- Every evaluation of an expression from the set meets its course, and gives
a value that refers to something. -/
def Sound (code : Expr → Prop) (recur : Watcher) : Prop :=
  ∀ e f k s, code e → Ready code f k s.heap →
    Meets code f k s (recur e f) fun v h => h.Allocated v

section

variable {code : Expr → Prop} {recur : Watcher} {f : FrameId} {k : Nat} {s : Store}

/-! ## Calls -/

theorem meets_evalAll (hr : Sound code recur) {es : List Expr} (hes : ∀ e ∈ es, code e)
    (hs : Ready code f k s.heap) :
    Meets code f k s (Watched.evalAll recur f es) fun vs h => ∀ v ∈ vs, h.Allocated v := by
  induction es generalizing s with
  | nil => exact .pure (by simp)
  | cons e es ih =>
    refine .bind hs (hr e f k s (hes e (by simp)) hs) fun value t _ ht hvalue => ?_
    refine .bind ht (ih (fun e he => hes e (List.mem_cons_of_mem _ he)) ht) ?_
    intro values u hgrow _ hvalues
    refine .pure fun v hv => ?_
    rcases List.mem_cons.1 hv with rfl | hv
    · exact hgrow.allocated hvalue
    · exact hvalues v hv

/-- An operator gives a number. -/
theorem allocated_of_apply {h h' : Heap} {operator : Operator} {arguments : List Value}
    {value : Value} (ha : operator.apply h arguments = .ok value) : h'.Allocated value := by
  obtain ⟨d, rfl⟩ := Operator.exists_number_of_apply ha
  trivial

/-- An operator gives a number and changes nothing; the moment of its
application accounts for an overflow. -/
theorem meets_applied (operator : Operator) (arguments : List Value) :
    Meets code f k s (.applied operator arguments) fun v h => h.Allocated v := by
  have hmoment : Reaches code f k s [.applied operator arguments s] s :=
    (Reaches.refl code f k s).snoc rfl (by simp) (by simp) (by simp)
  have hrun : Watched.applied operator arguments s = ([.applied operator arguments s],
      Eval.ofExcept (operator.apply s.heap arguments) s) := rfl
  have hafter : (Watched.applied operator arguments).erase.after s = s := by
    simp only [Watched.erase, Eval.after, hrun]
    cases operator.apply s.heap arguments <;> rfl
  refine ⟨?_, ?_, ?_⟩
  · rw [hafter, hrun]
    exact ⟨hmoment, hmoment, trivial⟩
  · intro v t hv
    rw [hrun] at hv
    cases ha : operator.apply s.heap arguments with
    | error failure => simp [ha, Eval.ofExcept] at hv
    | ok value =>
      obtain ⟨rfl, -⟩ : value = v ∧ s = t := by simpa [ha, Eval.ofExcept] using hv
      exact allocated_of_apply ha
  · intro failure t hf
    rw [hrun] at hf ⊢
    cases ha : operator.apply s.heap arguments with
    | ok value => simp [ha, Eval.ofExcept] at hf
    | error failure' =>
      obtain ⟨rfl, -⟩ : failure' = failure ∧ s = t := by simpa [ha, Eval.ofExcept] using hf
      rcases Operator.apply_error ha with rfl | ⟨error, rfl⟩
      · exact .overflow (by simp) ha
      · exact .eval error

/-- A function on the heap, called with allocated arguments and for an
allocated receiver. -/
structure Callable (h : Heap) (function : Function) (receiver? : Option Value)
    (arguments : List Value) : Prop where
  function : ∃ id : FunctionId, h.functions[id]? = some function
  receiver : ∀ v ∈ receiver?, h.Allocated v
  arguments : ∀ v ∈ arguments, h.Allocated v

/-- The bindings of parameters are allocated when the arguments are. -/
theorem allocated_zip {h : Heap} {parameters : List String} {arguments : List Value}
    (ha : ∀ v ∈ arguments, h.Allocated v) :
    ∀ binding ∈ parameters.zip arguments, h.Allocated binding.2 := by
  rintro ⟨name, value⟩ hb
  exact ha value (List.of_mem_zip hb).2

/-- Setting the prototype or a declared field. -/
theorem meets_setMember {o : ObjectId} (ho : o < s.heap.objects.size) {name : String}
    {value : Value} (hname : name = prototypeName ∨ s.heap.DeclaresField o name)
    (hv : s.heap.Allocated value) :
    Meets code f k s (.lift (do
      Eval.modifyHeap (·.setMember o name value)
      return value)) fun v h => h.Allocated v := by
  refine .lift_ok rfl (Evolves.single (.set hname ho hv)) ?_ ?_
  · exact fun _ _ hd => declaresField_setMember hd
  · exact (grows_setMember _ _ _ _).allocated hv

/-- Code of an object without a body: accessors of the prototype and of
fields, and the test for a prototype. -/
theorem meets_accessor (hs : Ready code f k s.heap) {function : Function}
    {receiver? : Option Value} {arguments : List Value} {o : ObjectId}
    (hc : Callable s.heap function receiver? arguments)
    (howner : function.code.owner? = some o) (hbody : function.code.body? = none)
    (recur' : Evaluator) :
    Meets code f k s (.lift (Eval.invoke recur' function receiver? arguments))
      fun v h => h.Allocated v := by
  obtain ⟨id, hid⟩ := hc.function
  have ho := hs.wellFormed.owner_lt hid howner
  unfold Eval.invoke
  cases hcode : function.code with
  | operator operator => simp [hcode, Code.owner?] at howner
  | closure parameters body frame => simp [hcode, Code.body?] at hbody
  | method parameters body owner => simp [hcode, Code.body?] at hbody
  | getPrototype owner =>
    cases arguments with
    | nil =>
      refine .lift_ok rfl (Evolves.refl _) (fun _ _ hd => hd) ?_
      cases hm : s.heap.member? owner prototypeName with
      | none => trivial
      | some value => exact hs.wellFormed.member?_allocated hm
    | cons => exact .fail _
  | setPrototype owner =>
    obtain rfl : owner = o := by simpa [hcode, Code.owner?] using howner
    rcases arguments with _ | ⟨value, _ | ⟨_, _⟩⟩
    · exact .fail _
    · exact meets_setMember ho (.inl rfl) (hc.arguments value (by simp))
    · exact .fail _
  | getField owner field =>
    cases arguments with
    | nil =>
      -- the field of an accessor is bound, so it cannot be missing
      obtain ⟨-, hsome⟩ := hs.wellFormed.fields id function owner field hid
        (by rw [hcode]; rfl) (by rw [hcode]; rfl)
      obtain ⟨value, hvalue⟩ := Option.isSome_iff_exists.1 hsome
      refine .lift_ok (a := value) (t := s) ?_ (Evolves.refl _) (fun _ _ hd => hd)
        (hs.wellFormed.member?_allocated hvalue)
      simp [Eval.bind_apply, Eval.heap, hvalue]
    | cons => exact .fail _
  | setField owner field =>
    obtain rfl : owner = o := by simpa [hcode, Code.owner?] using howner
    rcases arguments with _ | ⟨value, _ | ⟨_, _⟩⟩
    · exact .fail _
    · exact meets_setMember ho (.inr ⟨id, function, hid, hcode⟩) (hc.arguments value (by simp))
    · exact .fail _
  | isInstance owner =>
    rcases arguments with _ | ⟨prototype, _ | ⟨_, _⟩⟩
    · exact .fail _
    · exact .lift_ok rfl (Evolves.refl _) (fun _ _ hd => hd) trivial
    · exact .fail _

/-- Every call of a function on the heap meets its course. The frame it counts
for does not matter: a body is evaluated in a frame of its own. -/
theorem meets_invoke (hr : Sound code recur) (hs : Ready code f k s.heap)
    {function : Function} {receiver? : Option Value} {arguments : List Value}
    (hc : Callable s.heap function receiver? arguments) :
    Meets code f k s (Watched.invoke recur function receiver? arguments)
      fun v h => h.Allocated v := by
  obtain ⟨id, hid⟩ := hc.function
  unfold Watched.invoke
  cases hcode : function.code with
  | operator operator => exact meets_applied operator arguments
  | closure parameters body frame =>
    have hscope := hs.wellFormed.captured id function frame hid (by rw [hcode]; rfl)
    have hbody := hs.bodies id function body hid (by rw [hcode]; rfl)
    simp only
    split
    · exact .inside hs.wellFormed hs.bodies hs.objects_le hscope.lt_size
        (allocated_zip hc.arguments) fun t ht => hr body _ k t hbody ht
    · exact .fail _
  | method parameters body owner =>
    have ho := hs.wellFormed.owner_lt hid (by rw [hcode]; rfl)
    have hbody := hs.bodies id function body hid (by rw [hcode]; rfl)
    obtain ⟨frame, hframe⟩ := (s.heap.frameOf?_isSome_iff owner).2 ho
    simp only
    split
    · refine .heap (.inside hs.wellFormed hs.bodies hs.objects_le ?_ ?_ fun t ht =>
        hr body _ k t hbody ht)
      · rw [hframe]
        exact hs.wellFormed.frames owner frame hframe
      · rintro binding hb
        rcases List.mem_cons.1 hb with rfl | hb
        · cases hreceiver : receiver? with
          | none => exact ho
          | some receiver => exact hc.receiver receiver hreceiver
        · exact allocated_zip hc.arguments binding hb
    · exact .fail _
  | getPrototype owner | setPrototype owner | getField owner _ | setField owner _
  | isInstance owner =>
    exact meets_accessor hs hc (by rw [hcode]; rfl) (by rw [hcode]; rfl) _

/-- A function found before its arguments are evaluated is still there after
them. -/
theorem meets_arguments (hr : Sound code recur) (hs : Ready code f k s.heap)
    {arguments : List Expr} (hargs : ∀ e ∈ arguments, code e) {value : Value}
    {function : Function} (hfunction : s.heap.asFunction? value = some function)
    {receiver? : Option Value} (hreceiver : ∀ v ∈ receiver?, s.heap.Allocated v) :
    Meets code f k s (do
      let values ← Watched.evalAll recur f arguments
      Watched.invoke recur function receiver? values) fun v h => h.Allocated v := by
  refine .bind hs (meets_evalAll hr hargs hs) fun values t hgrow ht hvalues => ?_
  refine meets_invoke hr ht ⟨?_, fun v hv => hgrow.allocated (hreceiver v hv), hvalues⟩
  cases value with
  | function id => exact ⟨id, hgrow.functions id function hfunction⟩
  | number _ | atom _ | null | object _ => simp [asFunction?] at hfunction

theorem meets_call (hr : Sound code recur) (hs : Ready code f k s.heap) (name : String)
    {arguments : List Expr} (hargs : ∀ e ∈ arguments, code e) :
    Meets code f k s (Watched.call recur f name arguments) fun v h => h.Allocated v := by
  refine .heap ?_
  cases s.heap.scopes.resolve? f name with
  | none => exact .fail _
  | some value =>
    cases hfunction : s.heap.asFunction? value with
    | none => simp only [hfunction]; exact .fail _
    | some function =>
      simp only [hfunction]
      exact meets_arguments hr hs hargs hfunction (by simp)

/-- Looking a member up changes nothing but the events. -/
theorem Eval.lookup_apply (o : ObjectId) (name : String) (s : Store) :
    ∃ events, Eval.lookup o name s =
      .ok (s.heap.lookup? o name) { s with events := events } := by
  simp only [Eval.lookup, Eval.bind_apply, Eval.heap]
  cases s.heap.holder? o name with
  | none => exact ⟨_, rfl⟩
  | some holder =>
    by_cases hholder : holder = o
    · simp only [hholder, if_true]
      exact ⟨_, rfl⟩
    · simp only [hholder, if_false]
      exact ⟨_, rfl⟩

theorem meets_lookup (o : ObjectId) (name : String) :
    Meets code f k s (.lift (Eval.lookup o name)) fun _ _ => True := by
  obtain ⟨events, hevents⟩ := Eval.lookup_apply o name s
  exact .lift_ok hevents (Evolves.refl _) (fun _ _ hd => hd) trivial

theorem meets_send (hr : Sound code recur) (hs : Ready code f k s.heap) (name : String)
    {receiver : Expr} (hreceiver : code receiver) {arguments : List Expr}
    (hargs : ∀ e ∈ arguments, code e) :
    Meets code f k s (Watched.send recur f name receiver arguments)
      fun v h => h.Allocated v := by
  refine .bind hs (hr receiver f k s hreceiver hs) fun target t _ ht htarget => ?_
  cases target with
  | object o =>
    refine .bind ht (meets_lookup o name) fun member? u hgrow hu _ => .heap ?_
    cases member? with
    | none => exact .fail _
    | some member =>
      cases hfunction : u.heap.asFunction? member with
      | none => simp only [hfunction]; exact .fail _
      | some function =>
        simp only [hfunction]
        refine meets_arguments hr hu hargs hfunction ?_
        intro v hv
        obtain rfl : .object o = v := by simpa using hv
        exact hgrow.allocated htarget
  | number _ | atom _ | null | function _ => exact .heap (.fail _)

/-! ## Forms -/

theorem meets_evalBlock (hr : Sound code recur) (hs : Ready code f k s.heap) {last : Value}
    (hlast : s.heap.Allocated last) {es : List Expr} (hes : ∀ e ∈ es, code e) :
    Meets code f k s (Watched.evalBlock recur f last es) fun v h => h.Allocated v := by
  induction es generalizing s last with
  | nil => exact .pure hlast
  | cons e es ih =>
    refine .bind hs (hr e f k s (hes e (by simp)) hs) fun value t _ ht hvalue => ?_
    exact ih ht hvalue fun e he => hes e (List.mem_cons_of_mem _ he)

/-- Binding the value of an expression in the frame it was evaluated in. -/
theorem meets_bind (hr : Sound code recur) (hs : Ready code f k s.heap) (name : String)
    {e : Expr} (he : code e) :
    Meets code f k s (do
      let value ← recur e f
      .lift (Eval.modifyHeap (·.define f name value))
      return value) fun v h => h.Allocated v := by
  refine .bind hs (hr e f k s he hs) fun value t _ ht hvalue => ?_
  have hR : (Realm.of f t.heap.scopes.size k).scopes f := Or.inl rfl
  have hdefine : Meets code f k t (.lift (Eval.modifyHeap (·.define f name value)))
      fun _ h => h.Allocated value :=
    .lift_ok rfl (Evolves.single (.bind hR ht.scope hvalue)) (fun _ _ hd => hd)
      ((grows_define _ _ _ _).allocated hvalue)
  exact .bind ht hdefine fun _ u _ _ hu => .pure hu

/-- The moment of a declaration accounts for the new field. -/
theorem reaches_declared {o : ObjectId} {field : String} {value : Value} {t : Store}
    (ht : t.heap = s.heap.defineField o field value)
    (hc : Change code (Realm.of f s.heap.scopes.size k) s.heap t.heap) :
    Reaches code f k s [.declared o field t] t where
  evolves := Evolves.single hc
  grown m hm := by
    obtain rfl := List.mem_singleton.1 hm
    exact Grows.refl _
  begun _ _ _ hm := by simp at hm
  opened _ _ hm := by simp at hm
  closed _ _ hm := by simp at hm
  declared p other hd := by
    rw [ht] at hd
    rcases declaresField_defineField hd with hd | ⟨rfl, rfl⟩
    · exact .inl hd
    · exact .inr ⟨t, List.mem_singleton.2 rfl⟩

/-- Declaring a field of a new object. -/
theorem meets_declare {o : ObjectId} (hk : k ≤ o) (ho : o < s.heap.objects.size)
    {field : String} (hname : isMethodName field = false) {value : Value}
    (hv : s.heap.Allocated value) :
    Meets code f k s (.declare o field value) fun _ _ => True := by
  have hR : (Realm.of f s.heap.scopes.size k).objects o := hk
  have hchange : Change code (Realm.of f s.heap.scopes.size k) s.heap
      (s.heap.defineField o field value) := .field hR ho hname hv
  have hmoment := reaches_declared (t := ⟨s.heap.defineField o field value, s.events⟩) rfl hchange
  exact ⟨⟨hmoment, hmoment, trivial⟩, fun _ _ _ => trivial, fun _ _ h => by cases h⟩

theorem meets_defineMembers (hr : Sound code recur) (hs : Ready code f k s.heap) {o : ObjectId}
    (hk : k ≤ o) (ho : o < s.heap.objects.size) {members : List Member}
    (hm : ∀ member ∈ members, member.Within code) :
    Meets code f k s (Watched.defineMembers recur f o members)
      fun _ h => o < h.objects.size := by
  induction members generalizing s with
  | nil => exact .pure ho
  | cons member members ih =>
    have hfirst := hm member (by simp)
    have hrest : ∀ member ∈ members, member.Within code :=
      fun member h => hm member (List.mem_cons_of_mem _ h)
    cases member with
    | field name value =>
      obtain ⟨hname, hvalue⟩ := hfirst
      refine .bind hs (hr value f k s hvalue hs) fun v t hgrow ht hv => ?_
      have hot := Nat.lt_of_lt_of_le ho hgrow.objects_size_le
      refine .bind ht (meets_declare hk hot hname hv) fun _ u hgrow' hu _ => ?_
      exact ih hu (Nat.lt_of_lt_of_le hot hgrow'.objects_size_le) hrest
    | method name parameters body =>
      obtain ⟨hname, hbody⟩ := hfirst
      have hR : (Realm.of f s.heap.scopes.size k).objects o := hk
      have hmethod : Meets code f k s (.lift (Eval.modifyHeap
          (·.defineMember o name (.method parameters body o)))) fun _ _ => True := by
        refine .lift_ok rfl (Evolves.single (.method hR ho hname hbody)) ?_ trivial
        intro p field hd
        exact (declaresField_defineMember hd).resolve_right (by simp)
      refine .bind hs hmethod fun _ t hgrow ht _ => ?_
      exact ih ht (Nat.lt_of_lt_of_le ho hgrow.objects_size_le) hrest

/-- A block meets its course in the frame it makes, so the frame it counts for
does not matter. -/
theorem meets_block (hr : Sound code recur) {g : FrameId} (hs : Ready code g k s.heap)
    {body : List Expr} (hbody : ∀ e ∈ body, code e) (f : FrameId) :
    Meets code f k s (Watched.evalForm recur g (.block body)) fun v h => h.Allocated v := by
  refine .inside hs.wellFormed hs.bodies hs.objects_le hs.scope.lt_size (by simp) ?_
  intro t ht
  have hnull : t.heap.Allocated .null := trivial
  exact meets_evalBlock hr ht hnull hbody

/-- Every form meets its course. -/
theorem meets_evalForm (hr : Sound code recur) (hs : Ready code f k s.heap) {form : Form}
    (hform : form.Within code) :
    Meets code f k s (Watched.evalForm recur f form) fun v h => h.Allocated v := by
  cases form with
  | block body => exact meets_block hr hs hform f
  | defineVariable name value =>
    refine .heap ?_
    split
    · exact .fail _
    · exact meets_bind hr hs name hform
  | defineFunction name parameters body =>
    have hR : (Realm.of f s.heap.scopes.size k).scopes f := Or.inl rfl
    have hchange : Change code (Realm.of f s.heap.scopes.size k) s.heap
        (s.heap.defineFunction f name (.closure parameters body f)).2 :=
      .function hR hs.scope hform
    have hrun : Eval.evalForm (fun _ _ => throw .stackExhausted) f
        (.defineFunction name parameters body) s =
          if s.heap.scopes.contains f name then .error (.eval (.redefinition name)) s
          else .ok (.function s.heap.functions.size)
            ⟨(s.heap.defineFunction f name (.closure parameters body f)).2,
              .functionDefined name parameters.length :: s.events⟩ := by
      simp only [Eval.evalForm, Eval.bind_apply, Eval.heap]
      split <;> rfl
    unfold Watched.evalForm
    split at hrun
    · exact .lift_error hrun (.eval _)
    · refine .lift_ok hrun (Evolves.single hchange) ?_ ?_
      · exact fun _ _ hd => (declaresField_newFunction hd).resolve_right (by simp)
      · exact allocated_defineFunction _ _ _ _
  | assign name value =>
    refine .heap ?_
    split
    · exact .fail _
    · exact meets_bind hr hs name hform
  | object name members =>
    have hR : (Realm.of f s.heap.scopes.size k).objects s.heap.objects.size := hs.objects_le
    have hnew : Meets code f k s (.lift (Eval.withHeap (·.newObject name f)))
        fun o h => k ≤ o ∧ o < h.objects.size :=
      .lift_ok rfl (Evolves.single (.object hs.scope.lt_size hR))
        (fun _ _ hd => declaresField_newObject hd) ⟨hs.objects_le, allocated_newObject _ _ _⟩
    refine .bind hs hnew fun o t _ ht ho => ?_
    refine .bind ht (meets_defineMembers hr ht ho.1 ho.2 hform) fun _ u _ _ hu => ?_
    exact .pure hu
  | send name receiver arguments => exact meets_send hr hs name hform.1 hform.2
  | call name arguments => exact meets_call hr hs name hform

end

/-! ## Evaluation -/

/-- One level of evaluation is sound when everything nested inside is. -/
theorem sound_step {code : Expr → Prop} (hc : PartsClosed code) {recur : Watcher}
    (hr : Sound code recur) : Sound code (Watched.step recur) := by
  intro e f k s he hs
  cases e with
  | form name arguments =>
    simp only [Watched.step]
    cases hform : Form.classify name arguments with
    | ok form => exact meets_evalForm hr hs (Form.within_classify hc (hc _ _ he) hform)
    | error fault => exact .fail _
  | number value => exact .lift_ok rfl (Evolves.refl _) (fun _ _ hd => hd) trivial
  | atom name => exact .lift_ok rfl (Evolves.refl _) (fun _ _ hd => hd) trivial
  | foreign text => exact .lift_error rfl (.foreign he)
  | _ name =>
    -- a variable
    cases hvalue : s.heap.scopes.resolve? f name with
    | some value =>
      refine .lift_ok (a := value) (t := s) ?_ (Evolves.refl _) (fun _ _ hd => hd)
        (hs.wellFormed.resolve?_allocated hvalue)
      simp [Eval.step, Eval.bind_apply, Eval.heap, hvalue]
    | none =>
      refine .lift_error ?_ (.eval (.undefinedVariable name))
      simp [Eval.step, Eval.bind_apply, Eval.heap, hvalue, Eval.fail]

/-- Evaluation is sound. -/
theorem sound_watch {code : Expr → Prop} (hc : PartsClosed code) (limit : Nat) :
    Sound code (watch limit) := by
  induction limit with
  | zero =>
    intro e f k s _ _
    exact .lift_error rfl .stack
  | succ limit ih =>
    intro e f k s he hs
    exact .evaluation e hs (sound_step hc ih e f k s he hs)

end PrototypeLisp
