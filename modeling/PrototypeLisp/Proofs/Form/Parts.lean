/-
PrototypeLisp.Proofs.Form.Parts — where the expressions of a form come from.

Classification rearranges the arguments of a form and makes up no expression
of its own. So a set of expressions that is closed under parts has with a form
everything that evaluating the form evaluates or stores (`within_classify`).
The names of members come out sorted: a method has a dotted name, a field has
none. The parameters of a method are distinct.
-/
import PrototypeLisp.Form

namespace PrototypeLisp

/-- With a form, its arguments are in the set too. -/
def PartsClosed (code : Expr → Prop) : Prop :=
  ∀ name arguments, code (.form name arguments) → ∀ e ∈ arguments, code e

/-- A member of an object whose expression is in the set. Only methods have
dotted names. -/
def Member.Within (code : Expr → Prop) : Member → Prop
  | .field name value => isMethodName name = false ∧ code value
  | .method name _ body => isMethodName name = true ∧ code body

/-- A form whose expressions are in the set. -/
def Form.Within (code : Expr → Prop) : Form → Prop
  | .block body => ∀ e ∈ body, code e
  | .defineVariable _ value | .assign _ value => code value
  | .defineFunction _ _ body => code body
  | .object _ members => ∀ member ∈ members, member.Within code
  | .send _ receiver arguments => code receiver ∧ ∀ e ∈ arguments, code e
  | .call _ arguments => ∀ e ∈ arguments, code e

/-- The expression of a member. -/
def Member.part : Member → Expr
  | .field _ value => value
  | .method _ _ body => body

/-- The expressions that a form consists of. -/
def Form.parts : Form → List Expr
  | .block body => body
  | .defineVariable _ value | .assign _ value => [value]
  | .defineFunction _ _ body => [body]
  | .object _ members => members.map Member.part
  | .send _ receiver arguments => receiver :: arguments
  | .call _ arguments => arguments

/-- A form is within a set as soon as its expressions are. -/
theorem Form.Within.of_parts {code code' : Expr → Prop} {form : Form} (h : form.Within code)
    (hparts : ∀ e ∈ form.parts, code e → code' e) : form.Within code' := by
  cases form with
  | block body => exact fun e he => hparts e he (h e he)
  | defineVariable name value => exact hparts value (by simp [parts]) h
  | assign name value => exact hparts value (by simp [parts]) h
  | defineFunction name parameters body => exact hparts body (by simp [parts]) h
  | object name members =>
    intro member hmember
    have hpart : member.part ∈ (Form.object name members).parts :=
      List.mem_map.2 ⟨member, hmember, rfl⟩
    cases member with
    | field field value => exact ⟨(h _ hmember).1, hparts value hpart (h _ hmember).2⟩
    | method method parameters body =>
      exact ⟨(h _ hmember).1, hparts body hpart (h _ hmember).2⟩
  | send name receiver arguments =>
    exact ⟨hparts receiver (by simp [parts]) h.1,
      fun e he => hparts e (by simp [parts, he]) (h.2 e he)⟩
  | call name arguments => exact fun e he => hparts e he (h e he)

namespace Form

variable {code : Expr → Prop}

theorem within_ofDefine {arguments : List Expr} {form : Form}
    (hargs : ∀ e ∈ arguments, code e) (h : ofDefine arguments = .ok form) :
    form.Within code := by
  unfold ofDefine at h
  split at h
  · obtain rfl := Except.ok.inj h
    exact hargs _ (by simp)
  · split at h
    · simp at h
    · split at h
      · simp at h
      · obtain rfl := Except.ok.inj h
        exact hargs _ (by simp)
  · simp at h
  · simp at h

theorem within_ofAssign {arguments : List Expr} {form : Form}
    (hargs : ∀ e ∈ arguments, code e) (h : ofAssign arguments = .ok form) :
    form.Within code := by
  unfold ofAssign at h
  split at h
  · obtain rfl := Except.ok.inj h
    exact hargs _ (by simp)
  · simp at h
  · simp at h

theorem within_ofMethod {member : Expr} {parts : List Expr} {result : Member}
    (hparts : ∀ e ∈ parts, code e) (h : ofMethod member parts = .ok result) :
    result.Within code := by
  unfold ofMethod at h
  split at h
  · split at h
    · rename_i hname
      split at h
      · simp at h
      · obtain rfl := Except.ok.inj h
        exact ⟨hname, hparts _ (by simp)⟩
    · simp at h
  · simp at h
  · simp at h

theorem within_ofMember (hc : PartsClosed code) {e : Expr} {result : Member} (he : code e)
    (h : ofMember e = .ok result) : result.Within code := by
  unfold ofMember at h
  split at h
  · have hargs := hc _ _ he
    split at h
    · exact within_ofMethod hargs h
    · split at h
      · split at h
        · simp at h
        · rename_i hname
          obtain rfl := Except.ok.inj h
          exact ⟨by simpa using hname, hargs _ (by simp)⟩
      · simp at h
  · simp at h

theorem within_ofMembers (hc : PartsClosed code) {es : List Expr} {members : List Member}
    (hes : ∀ e ∈ es, code e) (h : ofMembers es = .ok members) :
    ∀ member ∈ members, member.Within code := by
  induction es generalizing members with
  | nil =>
    obtain rfl := Except.ok.inj h
    simp
  | cons e es ih =>
    simp only [ofMembers] at h
    cases hfirst : ofMember e with
    | error fault => simp [hfirst, bind, Except.bind] at h
    | ok first =>
      cases hrest : ofMembers es with
      | error fault => simp [hfirst, hrest, bind, Except.bind] at h
      | ok rest =>
        obtain rfl : first :: rest = members := by
          simpa [hfirst, hrest, bind, Except.bind, pure, Except.pure] using h
        intro member hmember
        rcases List.mem_cons.1 hmember with rfl | hmember
        · exact within_ofMember hc (hes e (by simp)) hfirst
        · exact ih (fun e he => hes e (List.mem_cons_of_mem _ he)) hrest member hmember

theorem within_ofObject (hc : PartsClosed code) {arguments : List Expr} {form : Form}
    (hargs : ∀ e ∈ arguments, code e) (h : ofObject arguments = .ok form) :
    form.Within code := by
  unfold ofObject at h
  split at h
  · obtain rfl := Except.ok.inj h
    simp [Within]
  · obtain rfl := Except.ok.inj h
    simp [Within]
  · split at h
    · simp at h
    · rename_i hmembers
      obtain rfl := Except.ok.inj h
      exact within_ofMembers hc hargs hmembers

theorem within_ofSend {name : String} {arguments : List Expr} {form : Form}
    (hargs : ∀ e ∈ arguments, code e) (h : ofSend name arguments = .ok form) :
    form.Within code := by
  cases arguments with
  | nil => simp [ofSend] at h
  | cons receiver rest =>
    obtain rfl := Except.ok.inj h
    exact ⟨hargs receiver (by simp), fun e he => hargs e (List.mem_cons_of_mem _ he)⟩

/-- Classification takes the expressions of a form from its arguments. -/
theorem within_classify (hc : PartsClosed code) {name : String} {arguments : List Expr}
    {form : Form} (hargs : ∀ e ∈ arguments, code e)
    (h : classify name arguments = .ok form) : form.Within code := by
  unfold classify at h
  split at h
  · obtain rfl := Except.ok.inj h
    exact hargs
  · split at h
    · exact within_ofDefine hargs h
    · split at h
      · exact within_ofAssign hargs h
      · split at h
        · exact within_ofObject hc hargs h
        · split at h
          · simp at h
          · split at h
            · exact within_ofSend hargs h
            · obtain rfl := Except.ok.inj h
              exact hargs

/-- The parameters of a declaration that is accepted are distinct. -/
theorem nodup_of_parameterNames {name : String} {arguments : List Expr}
    {parameters : List String} (h : parameterNames name arguments = .ok parameters) :
    parameters.Nodup := by
  unfold parameterNames at h
  split at h
  · cases h
  · split at h
    · rename_i hnodup
      obtain rfl := Except.ok.inj h
      exact hnodup
    · cases h

/-- So are those of a method that is accepted. -/
theorem nodup_of_ofMember {member : Expr} {name : String} {parameters : List String}
    {body : Expr} (h : ofMember member = .ok (.method name parameters body)) :
    parameters.Nodup := by
  unfold ofMember at h
  split at h
  · split at h
    · unfold ofMethod at h
      split at h
      · split at h
        · split at h
          · cases h
          · rename_i hparameters
            obtain ⟨-, rfl, -⟩ := Member.method.inj (Except.ok.inj h)
            exact nodup_of_parameterNames hparameters
        · cases h
      · cases h
      · cases h
    · split at h
      · split at h <;> cases h
      · cases h
  · cases h

end Form

end PrototypeLisp
