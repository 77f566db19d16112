/-
PrototypeLisp.Proofs.Session.Construction — objects while they are built.

An object literal allocates its object first and evaluates the member values
after that, in the frame around the literal. Any code may run in between: calls,
closures, setters of other objects, further literals. None of it can get at
the object: from outside it sees only what is outside (`Policy.outside`), and
what the literal adds to the object stays in the object's own frame. So the
object is secluded from its allocation to the end of the literal, in whatever
the literal ends.
-/
import PrototypeLisp.Proofs.Eval.Policy
import PrototypeLisp.Proofs.Session.Delegation

namespace PrototypeLisp

open Heap

/-! ## Computations outside an object -/

/-- Stay outside the object and leave its frame as it was. -/
def Policy.outside (h₀ : Heap) (o : ObjectId) (g : FrameId) : Policy where
  region := h₀.outside o g
  keeps := Untouched o g h₀
  admits _ _ := True
  excuses _ := False

/-- The frame of the object is not new, is not the frame of another object and
is not a frame of the region. -/
theorem Policy.lawful_outside (h₀ : Heap) (o : ObjectId) (g : FrameId) :
    (outside h₀ o g).Lawful where
  extended {_ h _} bindings hh _ := {
    frame := hh.kept.frame
    lt_size := by
      rw [size_scopes_extended]
      exact Nat.lt_succ_of_lt hh.kept.lt_size
    bindings := (bindings_extended h _ bindings hh.kept.lt_size).trans hh.kept.bindings
    functions := hh.kept.functions }
  define {_ h f name} value hh hf _ := {
    frame := hh.kept.frame
    lt_size := by
      rw [size_scopes_define]
      exact hh.kept.lt_size
    bindings := (h.scopes.bindings_define_of_ne (Ne.symm hf) name value).trans hh.kept.bindings
    functions := hh.kept.functions }
  setMember {_ h p} name value hh hp := by
    cases hframe : h.frameOf? p with
    | none =>
      have hsame : h.setMember p name value = h := by simp only [setMember, hframe]
      rw [hsame]
      exact hh.kept
    | some f =>
      have hf : f ≠ g := hh.closed.members p f hp hframe
      rw [setMember_eq_define hframe]
      exact {
        frame := hh.kept.frame
        lt_size := by
          rw [size_scopes_define]
          exact hh.kept.lt_size
        bindings := (h.scopes.bindings_define_of_ne (Ne.symm hf) name value).trans
          hh.kept.bindings
        functions := hh.kept.functions }
  newFunction {_ h} name code hh :=
    { hh.kept with
      functions := fun id function hid =>
        (grows_newFunction h name code).functions id function (hh.kept.functions id function hid) }
  allocate {_ h} name outer hh := {
    frame := by
      have ho : o < h.objects.size := (h.frameOf?_isSome_iff o).1 ⟨g, hh.kept.frame⟩
      rw [frameOf?_allocate, if_neg (Nat.ne_of_lt ho)]
      exact hh.kept.frame
    lt_size := by
      show g < (h.newFrame (some outer)).2.scopes.size
      rw [size_scopes_newFrame]
      exact Nat.lt_succ_of_lt hh.kept.lt_size
    bindings := (bindings_scopes_newFrame h (some outer) g).trans hh.kept.bindings
    functions := hh.kept.functions }
  excused _ _ hadmits _ _ := absurd trivial hadmits

/-- Evaluation in another frame leaves a sealed object sealed and its frame as
it was, at every moment; a value it gives has been made. -/
theorem Heap.Sealed.watch {t : Store} {o : ObjectId} {g : FrameId} (hs : t.heap.Sealed o g)
    {E : FrameId} (hE : E ≠ g) (limit : Nat) (e : Expr) :
    Throughout (fun h => h.Sealed o g ∧ Untouched o g t.heap h)
      (fun v u => ∀ id, v = .function id → id < u.heap.functions.size)
      (PrototypeLisp.watch limit e E) t := by
  have hholds : (Policy.outside t.heap o g).Holds 0 t.heap :=
    ⟨hs.closed, hs.backed, Nat.zero_le _, hs.frame, hs.lt_size, rfl, fun _ _ hid => hid⟩
  rcases (Policy.lawful_outside t.heap o g).watch limit e E 0 hE t hholds with
    ⟨_, _, hfalse⟩ | hfalse | hthrough
  · exact hfalse.elim
  · exact hfalse.elim
  · refine hthrough.imp ?_ ?_
    · intro h hh
      exact ⟨sealed_of_closed hh.closed hh.kept hh.backed, hh.kept⟩
    · intro v u hv
      exact hv.made

/-! ## Giving an object its members -/

/-- An object stays sealed while it gets its members. -/
theorem sealed_defineMembers {o : ObjectId} {g E : FrameId} (hE : E ≠ g) (limit : Nat)
    (members : List Member) {t : Store} (hs : t.heap.Sealed o g) :
    Throughout (fun h => h.Sealed o g) (fun _ _ => True)
      (Watched.defineMembers (watch limit) E o members) t := by
  induction members generalizing t with
  | nil => exact .pure hs trivial
  | cons member members ih =>
    cases member with
    | field name value =>
      have hvalue := (hs.watch hE limit value).imp (fun _ hh => hh.1) fun _ _ hv => hv
      refine hvalue.bind fun v u hu hv => ?_
      have hdeclare : Throughout (fun h => h.Sealed o g) (fun _ _ => True)
          (.declare o name v) u := by
        refine .bind (P := fun _ _ => True) ?_ fun _ w hw _ => .mark rfl hw trivial
        exact .lift (hu.defineField name hv) fun _ _ _ => trivial
      exact hdeclare.bind fun _ w hw _ => ih hw
    | method name parameters body =>
      refine .bind (P := fun _ _ => True) ?_ fun _ w hw _ => ih hw
      exact .lift (hs.defineMember name rfl) fun _ _ _ => trivial

theorem eraser_watch (limit : Nat) : Watched.eraser (watch limit) = eval limit := by
  funext e f
  exact erase_watch limit e f

/-- The store in which an object literal has allocated its object. -/
def allocated (name : Option String) (E : FrameId) (s : Store) : Store :=
  { s with heap := (s.heap.newObject name E).2 }

/-! ## Object literals -/

/-- The object of a literal, evaluated in `E` from `s`, is secluded while it is
built. Its number and that of its frame are the next ones of `s`. -/
structure BuiltInSeclusion (limit : Nat) (arguments : List Expr) (name : Option String)
    (members : List Member) (E : FrameId) (s : Store) : Prop where
  /-- At every moment of the evaluation after its beginning. -/
  throughout : ∃ ms, (watch (limit + 1) (.form "object" arguments) E s).1 =
      .begun (.form "object" arguments) E s :: ms ∧
    ∀ m ∈ ms, m.store.heap.Secluded s.heap.objects.size s.heap.scopes.size
  /-- After its allocation, after every member, and when the value of the next
  member has failed. -/
  piecemeal : ∀ before, before <+: members →
    ((Eval.defineMembers (eval limit) E s.heap.objects.size before).after
      (allocated name E s)).heap.Secluded s.heap.objects.size s.heap.scopes.size
  /-- After a failure. -/
  failed : ∀ failure t, eval (limit + 1) (.form "object" arguments) E s = .error failure t →
    t.heap.Secluded s.heap.objects.size s.heap.scopes.size
  /-- When it is returned. -/
  returned : ∀ v t, eval (limit + 1) (.form "object" arguments) E s = .ok v t →
    v = .object s.heap.objects.size ∧ t.heap.Secluded s.heap.objects.size s.heap.scopes.size

/-- No partially built object can be observed, whatever the member values do
and in whatever the literal ends. -/
theorem object_secluded_while_built {s : Store} (h : Visited s) {E : FrameId}
    (hE : E < s.heap.scopes.size) {arguments : List Expr} {name : Option String}
    {members : List Member} (hclass : Form.classify "object" arguments = .ok (.object name members))
    (limit : Nat) : BuiltInSeclusion limit arguments name members E s := by
  have hne : E ≠ s.heap.scopes.size := Nat.ne_of_lt hE
  have hstart : (allocated name E s).heap.Sealed s.heap.objects.size s.heap.scopes.size :=
    sealed_newObject h.wellFormed name E
  -- what the literal does once its object is allocated
  let rest : Watched Value := do
    Watched.defineMembers (watch limit) E s.heap.objects.size members
    return .object s.heap.objects.size
  have hrest : Throughout (fun h => h.Sealed s.heap.objects.size s.heap.scopes.size)
      (fun v _ => v = .object s.heap.objects.size) rest (allocated name E s) :=
    (sealed_defineMembers hne limit members hstart).bind fun _ t ht _ => .pure ht rfl
  have hstep : Watched.step (watch limit) (.form "object" arguments) E s =
      rest (allocated name E s) := by
    simp only [Watched.step, hclass]
    rfl
  have hafter : (Watched.step (watch limit) (.form "object" arguments) E).erase.after s =
      rest.erase.after (allocated name E s) := by
    simp only [Watched.erase, Eval.after, hstep]
  have heval : eval (limit + 1) (.form "object" arguments) E s =
      rest.erase (allocated name E s) := by
    rw [← erase_watch]
    show (Watched.step (watch limit) (.form "object" arguments) E s).2 = _
    rw [hstep]
    rfl
  refine ⟨⟨_, rfl, ?_⟩, ?_, ?_, ?_⟩
  · intro m hm
    rcases List.mem_append.1 hm with hm | hm
    · rw [hstep] at hm
      exact (hrest.moments m hm).secluded
    · obtain rfl := List.mem_singleton.1 hm
      rw [hafter]
      exact hrest.after.secluded
  · intro before _
    have hbefore := (sealed_defineMembers hne limit before hstart).after
    rw [Watched.erase_defineMembers, eraser_watch] at hbefore
    exact hbefore.secluded
  · intro failure t ht
    have hend := hrest.after
    rw [Eval.after, ← heval, ht] at hend
    exact hend.secluded
  · intro v t hv
    have hend := hrest.after
    rw [Eval.after, ← heval, hv] at hend
    exact ⟨hrest.value v t (heval.symm.trans hv), hend.secluded⟩

/-- The members of `(object ((.m) this) (x 1) (y missing))`. -/
def failingMembers : List Expr :=
  [.form "" [.form ".m" [], .variable "this"], .form "x" [.number (.ofNat 1)],
    .form "y" [.variable "missing"]]

/-- In a new session the last member of the literal fails. The object has a
field by then, and nothing refers to it. -/
theorem object_secluded_while_built_failing :
    (match eval 3 (.form "object" failingMembers) root Session.initial with
      | .ok _ _ => none
      | .error failure _ => failure.kind?) = some .undefinedVariable ∧
    ((eval 3 (.form "object" failingMembers) root).after Session.initial).heap.member? 1 "x" =
      some (.number (.ofNat 1)) ∧
    ((eval 3 (.form "object" failingMembers) root).after Session.initial).heap.Secluded 1 2 := by
  have hvisited : Visited Session.initial := .reached (.between .fresh)
  have hclass : Form.classify "object" failingMembers = .ok (.object none
      [.method ".m" [] (.variable "this"), .field "x" (.number (.ofNat 1)),
        .field "y" (.variable "missing")]) := rfl
  have hbuilt := object_secluded_while_built hvisited wellFormed_initial.root.lt_size hclass 2
  have hkind : (match eval 3 (.form "object" failingMembers) root Session.initial with
      | .ok _ _ => none
      | .error failure _ => failure.kind?) = some .undefinedVariable := by decide +kernel
  refine ⟨hkind, by decide +kernel, ?_⟩
  cases hrun : eval 3 (.form "object" failingMembers) root Session.initial with
  | ok v t => simp [hrun] at hkind
  | error failure t =>
    simp only [Eval.after, hrun]
    exact hbuilt.failed failure t hrun

end PrototypeLisp
