/-
PrototypeLisp.Proofs.Session.Methods — where the body of a method starts.

A method runs when a message is dispatched to it, whether the receiver has it,
delegates it or finds it in the scopes around, or when its value is called
like a function (`Applied`). Its body starts in a new frame inside the frame of
the declaring object. The receiver is bound there first and the parameters
after it, so each parameter means its argument and every other name means what
it means to the declaring object. A parameter may have the name of the
receiver, and then it takes its place (`method_starts_iff`).
-/
import PrototypeLisp.Proofs.Form.Parts
import PrototypeLisp.Proofs.Scope.Overlay
import PrototypeLisp.Proofs.Session.Dispatch

namespace PrototypeLisp

open Heap

/-! ## Calls with values -/

/-- Evaluating the expression in `E` calls the function: callee and arguments
have been evaluated and led to the store `t`. The receiver is that of the
message; a function call has none. -/
inductive Applied (limit : Nat) (E : FrameId) (s : Store) (function : Function)
    (arguments : List Value) (t : Store) : Expr → Option Value → Prop where
  | sent {name : String} {receiver : Expr} {es : List Expr} {r : ObjectId} {u v : Store}
      (hname : isMethodName name = true) (hreceiver : eval limit receiver E s = .ok (.object r) u)
      (hfunction : Eval.dispatch (.object r) name u = .ok function v)
      (harguments : Eval.evalAll (eval limit) E es v = .ok arguments t) :
      Applied limit E s function arguments t (.form name (receiver :: es)) (some (.object r))
  | called {name : String} {es : List Expr} {value : Value}
      (hform : Form.classify name es = .ok (.call name es))
      (hvalue : s.heap.scopes.resolve? E name = some value)
      (hfunction : s.heap.asFunction? value = some function)
      (harguments : Eval.evalAll (eval limit) E es s = .ok arguments t) :
      Applied limit E s function arguments t (.form name es) none

/-- A function that a value refers to is on the heap. -/
theorem Heap.mem_functions_of_asFunction? {h : Heap} {value : Value} {function : Function}
    (hv : h.asFunction? value = some function) : ∃ id : FunctionId, h.functions[id]? = some function := by
  cases value with
  | function id => exact ⟨id, hv⟩
  | number _ | atom _ | null | object _ => cases hv

/-- A dispatch takes the function off the heap and changes the events at
most. -/
theorem Eval.dispatch_eq_ok {r : ObjectId} {name : String} {function : Function} {s t : Store}
    (h : Eval.dispatch (.object r) name s = .ok function t) :
    t.heap = s.heap ∧ ∃ id : FunctionId, s.heap.functions[id]? = some function := by
  obtain ⟨events, hrun⟩ := Eval.dispatch_apply r name s
  rw [hrun] at h
  cases hmember : s.heap.lookup? r name with
  | none => simp [hmember, Eval.fail] at h
  | some member =>
    cases hfunction : s.heap.asFunction? member with
    | none => simp [hmember, hfunction, Eval.fail] at h
    | some found =>
      obtain ⟨rfl, rfl⟩ : found = function ∧ ⟨s.heap, events⟩ = t := by
        simpa [hmember, hfunction] using h
      exact ⟨rfl, Heap.mem_functions_of_asFunction? hfunction⟩

theorem grows_eval {s t : Store} (hw : s.heap.WellFormed) {E : FrameId} (hE : s.heap.IsScope E)
    {limit : Nat} {e : Expr} {v : Value} (h : eval limit e E s = .ok v t) :
    t.heap.WellFormed ∧ s.heap.Grows t.heap := by
  have hevolves := evolves_eval partsClosed_true (ready_of_wellFormed hw hE (Nat.zero_le _)) limit
    (e := e) trivial
  rw [Eval.after, h] at hevolves
  exact ⟨hevolves.wellFormed hw, hevolves.grows⟩

theorem grows_evalAll {s t : Store} (hw : s.heap.WellFormed) {E : FrameId}
    (hE : s.heap.IsScope E) {limit : Nat} {es : List Expr} {vs : List Value}
    (h : Eval.evalAll (eval limit) E es s = .ok vs t) :
    t.heap.WellFormed ∧ s.heap.Grows t.heap := by
  induction es generalizing s vs with
  | nil =>
    obtain ⟨-, rfl⟩ : [] = vs ∧ s = t := by simpa [Eval.evalAll] using h
    exact ⟨hw, Grows.refl _⟩
  | cons e es ih =>
    simp only [Eval.evalAll, Eval.bind_apply] at h
    cases hfirst : eval limit e E s with
    | error failure u => simp [hfirst] at h
    | ok v u =>
      rw [hfirst] at h
      obtain ⟨hwu, hgrow⟩ := grows_eval hw hE hfirst
      cases hrest : Eval.evalAll (eval limit) E es u with
      | error failure w => simp [hrest] at h
      | ok rest w =>
        obtain ⟨-, rfl⟩ : v :: rest = vs ∧ w = t := by simpa [hrest] using h
        obtain ⟨hwt, hrest⟩ := ih hwu (hgrow.isScope hE) hrest
        exact ⟨hwt, hgrow.trans hrest⟩

namespace Applied

variable {limit : Nat} {E : FrameId} {s t : Store} {function : Function} {arguments : List Value}
  {e : Expr} {receiver? : Option Value}

/-- What is left to do is the call itself. -/
theorem eval_eq (h : Applied limit E s function arguments t e receiver?) :
    eval (limit + 1) e E s = Eval.invoke (eval limit) function receiver? arguments t := by
  cases h with
  | @sent name receiver es _ _ _ hname hreceiver hfunction harguments =>
    have hsend : eval (limit + 1) (.form name (receiver :: es)) E =
        Eval.send (eval limit) E name receiver es := by
      simp only [eval, Eval.step, Form.classify_send hname, Eval.evalForm]
    rw [hsend, Eval.send_eq]
    simp only [Eval.bind_apply, hreceiver, hfunction, harguments]
  | called hform hvalue hfunction harguments =>
    simp only [eval, Eval.step, hform, Eval.evalForm, Eval.call, Eval.bind_apply, Eval.heap,
      hvalue, hfunction, harguments]

/-- The heap is in order when the call is made, and has the function. -/
theorem wellFormed (h : Applied limit E s function arguments t e receiver?)
    (hw : s.heap.WellFormed) (hE : s.heap.IsScope E) :
    t.heap.WellFormed ∧ ∃ id : FunctionId, t.heap.functions[id]? = some function := by
  cases h with
  | @sent _ _ _ _ u v _ hreceiver hfunction harguments =>
    obtain ⟨hwu, hgrow⟩ := grows_eval hw hE hreceiver
    obtain ⟨hheap, id, hid⟩ := Eval.dispatch_eq_ok hfunction
    rw [← hheap] at hwu hgrow hid
    obtain ⟨hwt, hrest⟩ := grows_evalAll hwu (hgrow.isScope hE) harguments
    exact ⟨hwt, id, hrest.functions id function hid⟩
  | called _ _ hfunction harguments =>
    obtain ⟨id, hid⟩ := Heap.mem_functions_of_asFunction? hfunction
    obtain ⟨hwt, hgrow⟩ := grows_evalAll hw hE harguments
    exact ⟨hwt, id, hgrow.functions id function hid⟩

end Applied

/-! ## The start of a body -/

/-- The body of a method of `o` starts in the frame `f` of the store `u`, when
the method is called in the store `t`. -/
structure BodyStarts (t : Store) (o : ObjectId) (parameters : List String)
    (arguments : List Value) (f g : FrameId) (u : Store) : Prop where
  /-- The frame of the declaring object. -/
  owner : t.heap.frameOf? o = some g
  /-- The frame of the call is new and lies inside it. -/
  fresh : t.heap.scopes.size ≤ f ∧ u.heap.scopes.outer? f = some g
  /-- Every parameter means the argument at its place. -/
  bound : List.Forall₂ (fun parameter argument =>
    u.heap.scopes.resolve? f parameter = some argument) parameters arguments
  /-- Every other name means what it means to the declaring object. -/
  others : ∀ name, name ≠ Eval.receiverName → name ∉ parameters →
    u.heap.scopes.resolve? f name = u.heap.scopes.resolve? g name
  /-- To the declaring object names mean what they meant before the call. -/
  around : ∀ name, u.heap.scopes.resolve? g name = t.heap.scopes.resolve? g name

section

variable {t : Store} {o : ObjectId} {g : FrameId} (hw : t.heap.WellFormed)
  (hg : t.heap.frameOf? o = some g) {parameters : List String} {arguments : List Value}
  (hlength : arguments.length = parameters.length) (hnodup : parameters.Nodup) (self : Value)

/-- The heap in which the body of a method starts. -/
def Heap.started (h : Heap) (g : FrameId) (self : Value) (parameters : List String)
    (arguments : List Value) : Heap :=
  h.extended g ((Eval.receiverName, self) :: parameters.zip arguments)

include hg hlength in
/-- With as many arguments as parameters a method runs its body. -/
theorem Eval.invoke_method (recur : Evaluator) (name : String) (body : Expr)
    (receiver? : Option Value) :
    Eval.invoke recur ⟨name, .method parameters body o⟩ receiver? arguments t =
      recur body t.heap.scopes.size
        { t with heap := t.heap.started g (receiver?.getD (.object o)) parameters arguments } := by
  simp only [Eval.invoke, hlength, if_true, Eval.bind_apply, Eval.heap, hg, Option.getD_some]
  rfl

include hw hg in
/-- The receiver is bound before the parameters. -/
theorem resolve?_started (name : String) :
    (t.heap.started g self parameters arguments).scopes.resolve? t.heap.scopes.size name =
      ((Bindings.overlay [(Eval.receiverName, self)] (parameters.zip arguments)).get? name).or
        (t.heap.scopes.resolve? g name) :=
  resolve?_extended t.heap (hw.frames o g hg) _ name

include hw hg hlength hnodup in
theorem bodyStarts_started : BodyStarts t o parameters arguments t.heap.scopes.size g
    { t with heap := t.heap.started g self parameters arguments } where
  owner := hg
  fresh := ⟨Nat.le_refl _, by
    rw [started, outer?_extended t.heap (hw.frames o g hg), if_pos rfl]⟩
  bound := by
    refine (Bindings.forall₂_get?_overlay [(Eval.receiverName, self)] hlength hnodup).imp ?_
    intro parameter argument hget
    rw [resolve?_started hw hg self, hget, Option.some_or]
  others name hname hparameter := by
    have hget : (Bindings.overlay [(Eval.receiverName, self)]
        (parameters.zip arguments)).get? name = none := by
      rw [Bindings.get?_overlay_of_not_mem (by rwa [Bindings.names_zip hlength]),
        Bindings.get?_cons, if_neg hname, Bindings.get?_nil]
    rw [resolve?_started hw hg self, hget, Option.none_or, started,
      resolve?_extended_of_lt t.heap (hw.frames o g hg) _ (hw.frames o g hg)]
  around name := resolve?_extended_of_lt t.heap (hw.frames o g hg) _ (hw.frames o g hg) name

include hw hg hlength hnodup in
/-- The receiver keeps its name unless a parameter takes it for something
else. -/
theorem resolve?_receiverName_iff :
    (t.heap.started g self parameters arguments).scopes.resolve? t.heap.scopes.size
        Eval.receiverName = some self ↔
      ∀ v, (Eval.receiverName, v) ∈ parameters.zip arguments → v = self := by
  rw [resolve?_started hw hg self]
  by_cases hparameter : Eval.receiverName ∈ parameters
  · have hnames := Bindings.names_zip hlength
    have hget : ∀ v, (Eval.receiverName, v) ∈ parameters.zip arguments →
        (Bindings.overlay [(Eval.receiverName, self)] (parameters.zip arguments)).get?
          Eval.receiverName = some v :=
      fun v hv => Bindings.get?_overlay_of_mem (by rwa [hnames]) hv
    rw [← hnames] at hparameter
    obtain ⟨⟨name, v⟩, hv, rfl⟩ := List.mem_map.1 hparameter
    constructor
    · intro heq w hmem
      rw [hget w hmem, Option.some_or] at heq
      exact Option.some.inj heq
    · intro hall
      rw [hget v hv, Option.some_or, hall v hv]
  · refine iff_of_true ?_ fun v hv => absurd (List.of_mem_zip hv).1 hparameter
    rw [Bindings.get?_overlay_of_not_mem (by rwa [Bindings.names_zip hlength]),
      Bindings.get?_cons, if_pos rfl, Option.some_or]

end

/-- The body of a method starts with its parameters bound as declared, and
with the receiver under its name, whatever way the method was reached, exactly
when no parameter of that name was given something else. Without a receiver the
declaring object stands in for it. -/
theorem method_starts_iff {s t : Store} (h : Visited s) {E : FrameId} (hE : s.heap.IsScope E)
    {member : Expr} {name : String} {parameters : List String} {body : Expr}
    (hmember : Form.ofMember member = .ok (.method name parameters body)) {o : ObjectId}
    {limit : Nat} {e : Expr} {receiver? : Option Value} {arguments : List Value}
    (happlied : Applied limit E s ⟨name, .method parameters body o⟩ arguments t e receiver?)
    (hlength : arguments.length = parameters.length) :
    ∃ f g u, eval (limit + 1) e E s = eval limit body f u ∧
      BodyStarts t o parameters arguments f g u ∧
      (u.heap.scopes.resolve? f Eval.receiverName = some (receiver?.getD (.object o)) ↔
        ∀ v, (Eval.receiverName, v) ∈ parameters.zip arguments →
          v = receiver?.getD (.object o)) := by
  obtain ⟨hw, id, hid⟩ := happlied.wellFormed h.wellFormed hE
  obtain ⟨g, hg⟩ := (t.heap.frameOf?_isSome_iff o).2 (hw.owner_lt hid rfl)
  have hnodup := Form.nodup_of_ofMember hmember
  exact ⟨t.heap.scopes.size, g,
    { t with heap := t.heap.started g (receiver?.getD (.object o)) parameters arguments },
    happlied.eval_eq.trans (Eval.invoke_method hg hlength _ _ _ _),
    bodyStarts_started hw hg hlength hnodup _, resolve?_receiverName_iff hw hg hlength hnodup _⟩

/-! ## A method that answers with its receiver -/

/-- A message to a variable, with arguments that change nothing. -/
theorem applied_of_lookup? (limit : Nat) {E : FrameId} {s : Store} {x name : String}
    {r : ObjectId} {value : Value} {function : Function} (es : List Expr)
    {arguments : List Value} (hname : isMethodName name = true)
    (hx : s.heap.scopes.resolve? E x = some (.object r))
    (hmember : s.heap.lookup? r name = some value)
    (hfunction : s.heap.asFunction? value = some function)
    (harguments : ∀ t, Eval.evalAll (eval (limit + 1)) E es t = .ok arguments t) :
    ∃ t, Applied (limit + 1) E s function arguments t (.form name (.variable x :: es))
      (some (.object r)) := by
  obtain ⟨events, hrun⟩ := Eval.dispatch_apply r name s
  simp only [hmember, hfunction, Eval.pure_apply] at hrun
  exact ⟨{ s with events := events }, .sent hname (eval_variable hx) hrun (harguments _)⟩

/-- The store after expressions have been evaluated in a new session. -/
def storeAfter (es : List Expr) : Store :=
  es.foldl (fun s e => (eval 9 e root).after s) Session.initial

theorem visited_storeAfter (es : List Expr) : Visited (storeAfter es) := by
  have hfoldl : ∀ s, Visited s → Visited (es.foldl (fun s e => (eval 9 e root).after s) s) := by
    induction es with
    | nil => exact fun _ h => h
    | cons e es ih => exact fun _ h => ih _ (h.evaluated 9 e h.wellFormed.root)
  exact hfoldl _ (.reached (.between .fresh))

/-- `((.me parameter) this)` -/
def echoMember (parameter : String) : Expr :=
  .form "" [.form ".me" [.variable parameter], .variable "this"]

/-- What the first object of a session has under the name of this member. -/
def echoMethod (parameter : String) : Function :=
  ⟨".me", .method [parameter] (.variable "this") 1⟩

/-- Whether a function is this method, as a test that can be run. -/
def isEcho (parameter : String) : Function → Bool
  | ⟨name, .method [other] (.variable x) owner⟩ =>
    decide ((name, other, x, owner) = (".me", parameter, "this", 1))
  | _ => false

theorem eq_echoMethod {parameter : String} {function : Function}
    (h : isEcho parameter function = true) : function = echoMethod parameter := by
  unfold isEcho at h
  split at h
  · simp only [decide_eq_true_eq, Prod.mk.injEq] at h
    obtain ⟨rfl, rfl, rfl, rfl⟩ := h
    rfl
  · cases h

/-- After `(def o (object ((.me parameter) this) ((.make) (object)) ((.own) .me)))`,
`(def d (object (prototype o)))`, `(def i (.make o))` and `(def f (.own o))`: an
object with the method, one that delegates to it, one that has it in the scopes
around, and a name for the method itself. -/
def echoStore (parameter : String) : Store :=
  storeAfter [
    .form "def" [.variable "o", .form "object" [echoMember parameter,
      .form "" [.form ".make" [], .form "object" []],
      .form "" [.form ".own" [], .variable ".me"]]],
    .form "def" [.variable "d", .form "object" [.form "prototype" [.variable "o"]]],
    .form "def" [.variable "i", .form ".make" [.variable "o"]],
    .form "def" [.variable "f", .form ".own" [.variable "o"]]]

theorem visited_echoStore (parameter : String) : Visited (echoStore parameter) :=
  visited_storeAfter _

theorem asFunction?_echoStore {parameter : String} (h : parameter ∈ ["x", "this"]) :
    (echoStore parameter).heap.asFunction? (.function 10) = some (echoMethod parameter) := by
  have hcheck : ∀ parameter ∈ ["x", "this"],
      ((echoStore parameter).heap.asFunction? (.function 10)).any (isEcho parameter) = true := by
    decide +kernel
  obtain ⟨function, hfunction, hecho⟩ := (Option.any_eq_true _ _).1 (hcheck parameter h)
  rw [hfunction, eq_echoMethod hecho]

/-- Whether the receiver has the method, delegates it or finds it in the scopes
around, the body starts with the receiver; called by its other name the method
starts with the declaring object. -/
theorem method_starts_iff_echo :
    Visited (echoStore "x") ∧ (echoStore "x").heap.IsScope root ∧
    Form.ofMember (echoMember "x") = .ok (.method ".me" ["x"] (.variable "this")) ∧
    (echoStore "x").heap.prototypeChain 2 = [2, 1] ∧
    (echoStore "x").heap.prototypeChain 3 = [3] ∧
    (echoStore "x").heap.member? 3 ".me" = none ∧
    (∀ x r, (x, r) ∈ [("o", 1), ("d", 2), ("i", 3)] → ∃ t f g u,
      Applied 9 root (echoStore "x") (echoMethod "x") [.atom "a"] t
        (.form ".me" [.variable x, .atom "a"]) (some (.object r)) ∧
      BodyStarts t 1 ["x"] [.atom "a"] f g u ∧
      u.heap.scopes.resolve? f "this" = some (.object r)) ∧
    ∃ t f g u, Applied 9 root (echoStore "x") (echoMethod "x") [.atom "a"] t
        (.form "f" [.atom "a"]) none ∧
      BodyStarts t 1 ["x"] [.atom "a"] f g u ∧
      u.heap.scopes.resolve? f "this" = some (.object 1) := by
  have hvisited := visited_echoStore "x"
  have hroot := hvisited.wellFormed.root
  have hmember : Form.ofMember (echoMember "x") = .ok (.method ".me" ["x"] (.variable "this")) :=
    rfl
  have hmethod := asFunction?_echoStore (List.mem_cons_self : "x" ∈ ["x", "this"])
  have hother : ∀ v : Value, (Eval.receiverName, v) ∉ ["x"].zip [Value.atom "a"] :=
    fun v hv => absurd (List.of_mem_zip hv).1 (by decide)
  refine ⟨hvisited, hroot, hmember, by decide +kernel, by decide +kernel, by decide +kernel,
    ?_, ?_⟩
  · intro x r hmem
    have hall : ∀ pair ∈ [("o", 1), ("d", 2), ("i", 3)],
        (echoStore "x").heap.scopes.resolve? root pair.1 = some (.object pair.2) ∧
          (echoStore "x").heap.lookup? pair.2 ".me" = some (.function 10) := by decide +kernel
    obtain ⟨hx, hlookup⟩ := hall (x, r) hmem
    obtain ⟨t, happlied⟩ := applied_of_lookup? 8 [.atom "a"] rfl hx hlookup hmethod fun _ => rfl
    obtain ⟨f, g, u, -, hstarts, hiff⟩ := method_starts_iff hvisited hroot hmember happlied rfl
    exact ⟨t, f, g, u, happlied, hstarts, hiff.2 fun v hv => absurd hv (hother v)⟩
  · have hf : (echoStore "x").heap.scopes.resolve? root "f" = some (.function 10) := by
      decide +kernel
    have happlied : Applied 9 root (echoStore "x") (echoMethod "x") [.atom "a"] (echoStore "x")
        (.form "f" [.atom "a"]) none := .called rfl hf hmethod rfl
    obtain ⟨f, g, u, -, hstarts, hiff⟩ := method_starts_iff hvisited hroot hmember happlied rfl
    exact ⟨_, f, g, u, happlied, hstarts, hiff.2 fun v hv => absurd hv (hother v)⟩

/-- A parameter `this` is accepted, and in `(.me o 5)` the body starts with 5 in
the place of the receiver and evaluates to it. -/
theorem not_started_shadowed :
    Form.ofMember (echoMember "this") = .ok (.method ".me" ["this"] (.variable "this")) ∧
    ∃ t f g u, Applied 9 root (echoStore "this") (echoMethod "this") [.number (.ofNat 5)] t
        (.form ".me" [.variable "o", .number (.ofNat 5)]) (some (.object 1)) ∧
      BodyStarts t 1 ["this"] [.number (.ofNat 5)] f g u ∧
      u.heap.scopes.resolve? f "this" ≠ some (.object 1) ∧
      eval 10 (.form ".me" [.variable "o", .number (.ofNat 5)]) root (echoStore "this") =
        .ok (.number (.ofNat 5)) u := by
  have hw := (visited_echoStore "this").wellFormed
  have hmethod := asFunction?_echoStore (by decide : "this" ∈ ["x", "this"])
  have ho : (echoStore "this").heap.scopes.resolve? root "o" = some (.object 1) := by
    decide +kernel
  have hlookup : (echoStore "this").heap.lookup? 1 ".me" = some (.function 10) := by
    decide +kernel
  obtain ⟨t, happlied⟩ :=
    applied_of_lookup? 8 [.number (.ofNat 5)] rfl ho hlookup hmethod fun _ => rfl
  obtain ⟨hw, id, hid⟩ := happlied.wellFormed hw hw.root
  obtain ⟨g, hg⟩ := (t.heap.frameOf?_isSome_iff 1).2 (hw.owner_lt hid rfl)
  have hlength : [Value.number (.ofNat 5)].length = ["this"].length := rfl
  have hstarts := bodyStarts_started hw hg hlength (by decide) (.object 1)
  obtain ⟨hthis, -⟩ := List.forall₂_cons.1 hstarts.bound
  refine ⟨rfl, t, _, g, _, happlied, hstarts, ?_, ?_⟩
  · rw [hthis]
    decide
  · rw [happlied.eval_eq, echoMethod, Eval.invoke_method hg hlength]
    exact eval_variable hthis

end PrototypeLisp
