/-
PrototypeLisp.Proofs.Form.Names — which names a form asks for.

Evaluating a form asks the frame it stands in for a name, or binds one there,
only if the form itself spells that name (`asks_classify`): as a name that is
defined or assigned, as the function of a call, or as the member of a method
call. The names that come with fields and with method calls are made up and
looked up elsewhere. A form that makes a function or a method keeps an
expression of its own as the body (`keeps_of_within`).
-/
import PrototypeLisp.Proofs.Form.Parts

namespace PrototypeLisp

/-! ## Names spelled in an expression -/

namespace Expr

mutual

/-- The names that an expression spells: variables and the heads of forms, at
any depth. -/
def names : Expr → List String
  | .number _ | .atom _ | .foreign _ => []
  | .variable name => [name]
  | .form name arguments => name :: namesAll arguments

/-- The names that expressions spell. -/
def namesAll : List Expr → List String
  | [] => []
  | e :: es => e.names ++ namesAll es

end

theorem mem_namesAll {name : String} {es : List Expr} :
    name ∈ namesAll es ↔ ∃ e ∈ es, name ∈ e.names := by
  induction es with
  | nil => simp [namesAll]
  | cons e es ih => simp [namesAll, ih]

/-- The head of a form is one of its names. -/
theorem head_mem_names (name : String) (arguments : List Expr) :
    name ∈ (form name arguments).names := by
  simp [names]

/-- The names of an argument are names of the form. -/
theorem mem_names_of_mem {name head : String} {arguments : List Expr} {e : Expr}
    (he : e ∈ arguments) (hname : name ∈ e.names) : name ∈ (form head arguments).names := by
  rw [names]
  exact List.mem_cons_of_mem _ (mem_namesAll.2 ⟨e, he, hname⟩)

/-- The expressions that do not spell a name. -/
theorem partsClosed_not_mem_names (name : String) : PartsClosed fun e => name ∉ e.names :=
  fun _ _ hform _ he hname => hform (mem_names_of_mem he hname)

end Expr

/-! ## Names that a form asks for -/

/-- A member of an object whose body, if it is a method, is one of the given
ones. -/
def Member.Keeps (bodies : Expr → Prop) : Member → Prop
  | .field _ _ => True
  | .method _ _ body => bodies body

namespace Form

/-- A form that asks frames for the given names only. -/
def Asks (names : String → Prop) : Form → Prop
  | .defineVariable name _ | .defineFunction name _ _ | .assign name _ => names name
  | .send name _ _ | .call name _ => names name
  | .block _ | .object _ _ => True

/-- A form that makes functions and methods with the given bodies only. -/
def Keeps (bodies : Expr → Prop) : Form → Prop
  | .defineFunction _ _ body => bodies body
  | .object _ members => ∀ member ∈ members, member.Keeps bodies
  | _ => True

theorem Asks.imp {names names' : String → Prop} (hle : ∀ name, names name → names' name)
    {form : Form} (h : form.Asks names) : form.Asks names' := by
  cases form with
  | block _ => trivial
  | object _ _ => trivial
  | defineVariable | defineFunction | assign | send | call => exact hle _ h

theorem keeps_of_within {code : Expr → Prop} {form : Form} (h : form.Within code) :
    form.Keeps code := by
  cases form with
  | defineFunction name parameters body => exact h
  | object name members =>
    intro member hmember
    cases member with
    | field _ _ => trivial
    | method _ _ _ => exact (h _ hmember).2
  | _ => trivial

theorem asks_ofDefine {names : String → Prop} {arguments : List Expr} {form : Form}
    (hnames : ∀ e ∈ arguments, ∀ name ∈ e.names, names name)
    (h : ofDefine arguments = .ok form) : form.Asks names := by
  unfold ofDefine at h
  split at h
  · rename_i name value
    obtain rfl := Except.ok.inj h
    exact hnames (.variable name) (by simp) name (by simp [Expr.names])
  · rename_i name parameters body
    split at h
    · simp at h
    · split at h
      · simp at h
      · obtain rfl := Except.ok.inj h
        exact hnames (.form name parameters) (by simp) name (Expr.head_mem_names _ _)
  · simp at h
  · simp at h

theorem asks_ofAssign {names : String → Prop} {arguments : List Expr} {form : Form}
    (hnames : ∀ e ∈ arguments, ∀ name ∈ e.names, names name)
    (h : ofAssign arguments = .ok form) : form.Asks names := by
  unfold ofAssign at h
  split at h
  · rename_i name value
    obtain rfl := Except.ok.inj h
    exact hnames (.variable name) (by simp) name (by simp [Expr.names])
  · simp at h
  · simp at h

theorem asks_ofObject (names : String → Prop) {arguments : List Expr} {form : Form}
    (h : ofObject arguments = .ok form) : form.Asks names := by
  unfold ofObject at h
  split at h
  · obtain rfl := Except.ok.inj h
    trivial
  · obtain rfl := Except.ok.inj h
    trivial
  · split at h
    · simp at h
    · obtain rfl := Except.ok.inj h
      trivial

/-- A form asks for names that it spells. -/
theorem asks_classify {name : String} {arguments : List Expr} {form : Form}
    (h : classify name arguments = .ok form) :
    form.Asks (· ∈ (Expr.form name arguments).names) := by
  have hnames : ∀ e ∈ arguments, ∀ n ∈ e.names, n ∈ (Expr.form name arguments).names :=
    fun e he n hn => Expr.mem_names_of_mem he hn
  unfold classify at h
  split at h
  · obtain rfl := Except.ok.inj h
    trivial
  · split at h
    · exact asks_ofDefine hnames h
    · split at h
      · exact asks_ofAssign hnames h
      · split at h
        · exact asks_ofObject _ h
        · split at h
          · simp at h
          · split at h
            · cases arguments with
              | nil => simp [ofSend] at h
              | cons receiver rest =>
                obtain rfl := Except.ok.inj h
                exact Expr.head_mem_names _ _
            · obtain rfl := Except.ok.inj h
              exact Expr.head_mem_names _ _

end Form

end PrototypeLisp
