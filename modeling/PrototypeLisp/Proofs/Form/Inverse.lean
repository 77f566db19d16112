/-
PrototypeLisp.Proofs.Form.Inverse — what a form was made of.

A form keeps everything that its expression said: `Form.expr` writes the
expression again, and classification is its inverse. It accepts an expression
as a form exactly when the form is well shaped and the expression is the one
the form writes (`classify_eq_ok_iff`). Each function of the classification has
such an equivalence of its own, one inside the other. What evaluation relies on
without looking again, distinct parameters and sorted names, is what it means
to be well shaped.

An object is refused for one of its members exactly when that member writes no
well-shaped one.
-/
import PrototypeLisp.Error
import PrototypeLisp.Proofs.Form.Parts

namespace PrototypeLisp

/-! ## Forms as expressions -/

/-- The expression that a member is written as. -/
def Member.expr : Member → Expr
  | .field name value => .form name [value]
  | .method name parameters body => .form "" [.form name (parameters.map .variable), body]

/-- The expression that a form is written as. -/
def Form.expr : Form → Expr
  | .block body => .form "do" body
  | .defineVariable name value => .form "def" [.variable name, value]
  | .defineFunction name parameters body =>
    .form "def" [.form name (parameters.map .variable), body]
  | .assign name value => .form "set!" [.variable name, value]
  | .object (some name) _ => .form "object" [.variable name]
  | .object none members => .form "object" (members.map Member.expr)
  | .send name receiver arguments => .form name (receiver :: arguments)
  | .call name arguments => .form name arguments

/-! ## Well-shaped forms -/

/-- A field has a name without a dot, a method one with a dot and distinct
parameters. -/
def Member.WellShaped : Member → Prop
  | .field name _ => name ≠ "" ∧ isMethodName name = false
  | .method name parameters _ => isMethodName name = true ∧ parameters.Nodup

/-- The names that have a meaning of their own. -/
def Form.specialNames : List String :=
  ["do", "def", "set!", "object"]

/-- Parameters are distinct, an object has a name or members, and methods and
functions are called by names that mean nothing else. -/
def Form.WellShaped : Form → Prop
  | .block _ | .defineVariable _ _ | .assign _ _ => True
  | .defineFunction name parameters _ => name ≠ "" ∧ parameters.Nodup
  | .object name members =>
    (name.isSome = true → members = []) ∧ ∀ member ∈ members, member.WellShaped
  | .send name _ _ => isMethodName name = true
  | .call name _ => name ≠ "" ∧ isMethodName name = false ∧ name ∉ specialNames

namespace Form

/-! ## Parameters -/

theorem variableNames_map (names : List String) :
    variableNames (names.map .variable) = .ok names := by
  induction names with
  | nil => rfl
  | cons name names ih => simp [variableNames, ih, Except.map]

theorem eq_map_of_variableNames {es : List Expr} {names : List String}
    (h : variableNames es = .ok names) : es = names.map .variable := by
  induction es generalizing names with
  | nil =>
    obtain rfl := Except.ok.inj h
    rfl
  | cons e es ih =>
    cases e with
    | «variable» name =>
      cases hrest : variableNames es with
      | error fault => simp [variableNames, hrest, Except.map] at h
      | ok rest =>
        obtain rfl : name :: rest = names := by simpa [variableNames, hrest, Except.map] using h
        rw [ih hrest, List.map_cons]
    | number _ | atom _ | form _ _ | «foreign» _ => simp [variableNames] at h

/-- A parameter list is accepted when it consists of distinct names. -/
theorem parameterNames_eq_ok_iff {name : String} {es : List Expr} {parameters : List String} :
    parameterNames name es = .ok parameters ↔
      parameters.Nodup ∧ es = parameters.map .variable := by
  constructor
  · intro h
    refine ⟨nodup_of_parameterNames h, ?_⟩
    unfold parameterNames at h
    split at h
    · simp at h
    · rename_i names hnames
      split at h
      · obtain rfl := Except.ok.inj h
        exact eq_map_of_variableNames hnames
      · simp at h
  · rintro ⟨hnodup, rfl⟩
    simp [parameterNames, variableNames_map, hnodup]

/-! ## Definitions and assignments -/

theorem ofDefine_eq_ok_iff {arguments : List Expr} {form : Form} :
    ofDefine arguments = .ok form ↔
      (∃ name value, form = .defineVariable name value ∧ arguments = [.variable name, value]) ∨
        ∃ name parameters body, form = .defineFunction name parameters body ∧
          form.WellShaped ∧ arguments = [.form name (parameters.map .variable), body] := by
  constructor
  · intro h
    unfold ofDefine at h
    split at h
    · rename_i name value
      obtain rfl := Except.ok.inj h
      exact .inl ⟨name, value, rfl, rfl⟩
    · rename_i name es body
      split at h
      · simp at h
      · rename_i hname
        split at h
        · simp at h
        · rename_i parameters hparameters
          obtain rfl := Except.ok.inj h
          obtain ⟨hnodup, rfl⟩ := parameterNames_eq_ok_iff.1 hparameters
          exact .inr ⟨name, parameters, body, rfl, ⟨hname, hnodup⟩, rfl⟩
    · simp at h
    · simp at h
  · rintro (⟨name, value, rfl, rfl⟩ | ⟨name, parameters, body, rfl, ⟨hname, hnodup⟩, rfl⟩)
    · rfl
    · simp [ofDefine, hname, parameterNames_eq_ok_iff.2 ⟨hnodup, rfl⟩]

theorem ofAssign_eq_ok_iff {arguments : List Expr} {form : Form} :
    ofAssign arguments = .ok form ↔
      ∃ name value, form = .assign name value ∧ arguments = [.variable name, value] := by
  constructor
  · intro h
    unfold ofAssign at h
    split at h
    · rename_i name value
      obtain rfl := Except.ok.inj h
      exact ⟨name, value, rfl, rfl⟩
    · simp at h
    · simp at h
  · rintro ⟨name, value, rfl, rfl⟩
    rfl

/-! ## Objects -/

theorem ofMethod_eq_ok_iff {e : Expr} {parts : List Expr} {member : Member} :
    ofMethod e parts = .ok member ↔ ∃ name parameters body,
      member = .method name parameters body ∧ member.WellShaped ∧
        parts = [.form name (parameters.map .variable), body] := by
  constructor
  · intro h
    unfold ofMethod at h
    split at h
    · rename_i name es body
      split at h
      · rename_i hname
        split at h
        · simp at h
        · rename_i parameters hparameters
          obtain rfl := Except.ok.inj h
          obtain ⟨hnodup, rfl⟩ := parameterNames_eq_ok_iff.1 hparameters
          exact ⟨name, parameters, body, rfl, ⟨hname, hnodup⟩, rfl⟩
      · simp at h
    · simp at h
    · simp at h
  · rintro ⟨name, parameters, body, rfl, ⟨hname, hnodup⟩, rfl⟩
    simp [ofMethod, hname, parameterNames_eq_ok_iff.2 ⟨hnodup, rfl⟩]

/-- A member is accepted when it is well shaped and written as it is. -/
theorem ofMember_eq_ok_iff {e : Expr} {member : Member} :
    ofMember e = .ok member ↔ member.WellShaped ∧ member.expr = e := by
  constructor
  · intro h
    unfold ofMember at h
    split at h
    · rename_i name es
      split at h
      · rename_i hname
        obtain ⟨method, parameters, body, rfl, hshaped, rfl⟩ := ofMethod_eq_ok_iff.1 h
        exact ⟨hshaped, by rw [hname]; rfl⟩
      · rename_i hname
        split at h
        · rename_i value
          split at h
          · simp at h
          · rename_i hdot
            obtain rfl := Except.ok.inj h
            exact ⟨⟨hname, by simpa using hdot⟩, rfl⟩
        · simp at h
    · simp at h
  · rintro ⟨hshaped, rfl⟩
    cases member with
    | field name value =>
      obtain ⟨hname, hdot⟩ := hshaped
      simp [Member.expr, ofMember, hname, hdot]
    | method name parameters body =>
      have hmethod : ofMethod (Member.method name parameters body).expr
          [.form name (parameters.map .variable), body] = .ok (.method name parameters body) :=
        ofMethod_eq_ok_iff.2 ⟨name, parameters, body, rfl, hshaped, rfl⟩
      exact hmethod

/-- Does the expression write a well-shaped member? -/
def WritesMember (e : Expr) : Prop :=
  ∃ member : Member, member.WellShaped ∧ member.expr = e

theorem ofMembers_cons (e : Expr) (es : List Expr) : ofMembers (e :: es) =
    (ofMember e).bind fun member => (ofMembers es).map (member :: ·) := by
  rw [ofMembers]
  cases ofMember e with
  | error fault => rfl
  | ok member => cases ofMembers es <;> rfl

/-- Members are accepted one by one. -/
theorem ofMembers_eq_ok_iff {es : List Expr} {members : List Member} :
    ofMembers es = .ok members ↔
      (∀ member ∈ members, member.WellShaped) ∧ members.map Member.expr = es := by
  induction es generalizing members with
  | nil => cases members <;> simp [ofMembers]
  | cons e es ih =>
    rw [ofMembers_cons]
    cases members with
    | nil =>
      cases hfirst : ofMember e with
      | error fault => simp [Except.bind]
      | ok first => cases ofMembers es <;> simp [Except.bind, Except.map]
    | cons member members =>
      have hhead := @ofMember_eq_ok_iff e member
      have htail := @ih members
      rw [List.forall_mem_cons, List.map_cons, List.cons.injEq, and_and_and_comm, ← hhead,
        ← htail]
      cases hfirst : ofMember e with
      | error fault => simp [Except.bind]
      | ok first => cases hrest : ofMembers es <;> simp [Except.bind, Except.map]

/-- They are refused as soon as one of them is not well shaped. -/
theorem ofMembers_error_iff {es : List Expr} :
    (∃ fault, ofMembers es = .error fault) ↔ ∃ e ∈ es, ¬ WritesMember e := by
  induction es with
  | nil => simp [ofMembers]
  | cons e es ih =>
    have hwrites : WritesMember e ↔ ∃ member, ofMember e = .ok member := by
      simp only [WritesMember, ofMember_eq_ok_iff]
    simp only [List.mem_cons, exists_eq_or_imp]
    rw [ofMembers_cons, ← ih, hwrites]
    cases hfirst : ofMember e with
    | error fault => simp [Except.bind]
    | ok first => cases hrest : ofMembers es <;> simp [Except.bind, Except.map]

theorem ofObject_eq_ok_iff {arguments : List Expr} {form : Form} :
    ofObject arguments = .ok form ↔ form.WellShaped ∧
      ∃ name members, form = .object name members ∧ form.expr = .form "object" arguments := by
  constructor
  · intro h
    unfold ofObject at h
    split at h
    · obtain rfl := Except.ok.inj h
      exact ⟨by simp [WellShaped], none, [], rfl, rfl⟩
    · rename_i name
      obtain rfl := Except.ok.inj h
      exact ⟨by simp [WellShaped], some name, [], rfl, rfl⟩
    · split at h
      · simp at h
      · rename_i members hmembers
        obtain rfl := Except.ok.inj h
        obtain ⟨hshaped, hwritten⟩ := ofMembers_eq_ok_iff.1 hmembers
        exact ⟨⟨by simp, hshaped⟩, none, members, rfl, by rw [expr, hwritten]⟩
  · rintro ⟨hform, name, members, rfl, hwritten⟩
    obtain ⟨hnamed, hshaped⟩ := hform
    cases name with
    | some name =>
      obtain rfl := hnamed rfl
      obtain rfl : [.variable name] = arguments := by simpa [expr] using hwritten
      rfl
    | none =>
      obtain rfl : members.map Member.expr = arguments := by simpa [expr] using hwritten
      have hmembers : ofMembers (members.map Member.expr) = .ok members :=
        ofMembers_eq_ok_iff.2 ⟨hshaped, rfl⟩
      unfold ofObject
      split
      · simp_all
      · -- no member is written as a bare name
        rename_i name hname
        cases members with
        | nil => simp at hname
        | cons member members => cases member <;> simp [Member.expr] at hname
      · simp [hmembers]

theorem ofObject_error_iff {arguments : List Expr} :
    (∃ fault, ofObject arguments = .error fault) ↔ arguments ≠ [] ∧
      (∀ name, arguments ≠ [.variable name]) ∧ ∃ e ∈ arguments, ¬ WritesMember e := by
  unfold ofObject
  split
  · simp
  · simp
  · rename_i hsome hbare
    rw [← ofMembers_error_iff]
    cases ofMembers arguments with
    | error fault => simp_all
    | ok members => simp

/-! ## All forms -/

theorem isMethodName_of_special {name : String} (h : name ∈ specialNames) :
    isMethodName name = false := by
  simp only [specialNames, List.mem_cons, List.not_mem_nil, or_false] at h
  rcases h with rfl | rfl | rfl | rfl <;> decide

/-- A name that means nothing else calls a method or a function. -/
theorem classify_of_not_special {name : String} {arguments : List Expr}
    (hspecial : name ∉ specialNames) (hname : name ≠ "") : classify name arguments =
      if isMethodName name then ofSend name arguments else .ok (.call name arguments) := by
  simp only [specialNames, List.mem_cons, List.not_mem_nil, or_false, not_or] at hspecial
  simp [classify, hspecial, hname]

/-- Classification is the inverse of writing well-shaped forms. -/
theorem classify_eq_ok_iff {name : String} {arguments : List Expr} {form : Form} :
    classify name arguments = .ok form ↔
      form.WellShaped ∧ form.expr = .form name arguments := by
  constructor
  · intro h
    unfold classify at h
    split at h
    · rename_i hname
      obtain rfl := Except.ok.inj h
      exact ⟨trivial, by rw [hname]; rfl⟩
    · rename_i hdo
      split at h
      · rename_i hname
        subst hname
        rcases ofDefine_eq_ok_iff.1 h with
          ⟨name, value, rfl, rfl⟩ | ⟨name, parameters, body, rfl, hshaped, rfl⟩
        · exact ⟨trivial, rfl⟩
        · exact ⟨hshaped, rfl⟩
      · rename_i hdef
        split at h
        · rename_i hname
          subst hname
          obtain ⟨name, value, rfl, rfl⟩ := ofAssign_eq_ok_iff.1 h
          exact ⟨trivial, rfl⟩
        · rename_i hset
          split at h
          · rename_i hname
            subst hname
            obtain ⟨hshaped, -, -, -, hwritten⟩ := ofObject_eq_ok_iff.1 h
            exact ⟨hshaped, hwritten⟩
          · rename_i hobject
            split at h
            · simp at h
            · rename_i hname
              split at h
              · rename_i hdot
                cases arguments with
                | nil => simp [ofSend] at h
                | cons receiver arguments =>
                  obtain rfl := Except.ok.inj h
                  exact ⟨hdot, rfl⟩
              · rename_i hdot
                obtain rfl := Except.ok.inj h
                refine ⟨⟨hname, by simpa using hdot, ?_⟩, rfl⟩
                simp [specialNames, hdo, hdef, hset, hobject]
  · rintro ⟨hshaped, hwritten⟩
    cases form with
    | block body =>
      obtain ⟨rfl, rfl⟩ : "do" = name ∧ body = arguments := by simpa [expr] using hwritten
      rfl
    | defineVariable target value =>
      obtain ⟨rfl, rfl⟩ : "def" = name ∧ _ = arguments := by simpa [expr] using hwritten
      exact ofDefine_eq_ok_iff.2 (.inl ⟨_, _, rfl, rfl⟩)
    | defineFunction function parameters body =>
      obtain ⟨rfl, rfl⟩ : "def" = name ∧ _ = arguments := by simpa [expr] using hwritten
      exact ofDefine_eq_ok_iff.2 (.inr ⟨_, _, _, rfl, hshaped, rfl⟩)
    | assign target value =>
      obtain ⟨rfl, rfl⟩ : "set!" = name ∧ _ = arguments := by simpa [expr] using hwritten
      exact ofAssign_eq_ok_iff.2 ⟨_, _, rfl, rfl⟩
    | object object members =>
      have hobject : "object" = name := by
        cases object <;> exact (Expr.form.inj hwritten).1
      subst hobject
      exact ofObject_eq_ok_iff.2 ⟨hshaped, object, members, rfl, hwritten⟩
    | send method receiver rest =>
      obtain ⟨rfl, rfl⟩ : method = name ∧ receiver :: rest = arguments := by
        simpa [expr] using hwritten
      have hdot : isMethodName method = true := hshaped
      have hspecial : method ∉ specialNames := by
        intro hmem
        simp [isMethodName_of_special hmem] at hdot
      have hname : method ≠ "" := by
        rintro rfl
        simp [isMethodName] at hdot
      simp [classify_of_not_special hspecial hname, hdot, ofSend]
    | call function rest =>
      obtain ⟨rfl, rfl⟩ : function = name ∧ rest = arguments := by simpa [expr] using hwritten
      obtain ⟨hname, hdot, hspecial⟩ := hshaped
      simp [classify_of_not_special hspecial hname, hdot]

end Form

/-! ## Sameness -/

/-- Are two members the same, numbers being compared by value? -/
def Member.same : Member → Member → Bool
  | .field a v, .field b w => a == b && v.same w
  | .method a ps e, .method b qs f => a == b && ps == qs && e.same f
  | _, _ => false

/-- Are two lists of members the same, place by place? -/
def Member.sameAll : List Member → List Member → Bool
  | [], [] => true
  | a :: as, b :: bs => a.same b && sameAll as bs
  | _, _ => false

/-- Are two forms the same, numbers being compared by value? -/
def Form.same : Form → Form → Bool
  | .block as, .block bs => Expr.sameAll as bs
  | .defineVariable a v, .defineVariable b w => a == b && v.same w
  | .defineFunction a ps e, .defineFunction b qs f => a == b && ps == qs && e.same f
  | .assign a v, .assign b w => a == b && v.same w
  | .object a ms, .object b ns => a == b && Member.sameAll ms ns
  | .send a r as, .send b q bs => a == b && r.same q && Expr.sameAll as bs
  | .call a as, .call b bs => a == b && Expr.sameAll as bs
  | _, _ => false

theorem Expr.sameAll_variables (names : List String) :
    sameAll (names.map .variable) (names.map .variable) = true := by
  induction names with
  | nil => rfl
  | cons name names ih => simp [sameAll, same, ih]

theorem Member.same_expr {a b : Member} (h : a.same b = true) : a.expr.same b.expr = true := by
  cases a <;> cases b <;>
    simp_all [Member.same, Member.expr, Expr.same, Expr.sameAll, Expr.sameAll_variables]

theorem Member.sameAll_expr {as bs : List Member} (h : sameAll as bs = true) :
    Expr.sameAll (as.map expr) (bs.map expr) = true := by
  induction as generalizing bs with
  | nil => cases bs <;> simp_all [sameAll, Expr.sameAll]
  | cons a as ih =>
    cases bs with
    | nil => simp [sameAll] at h
    | cons b bs =>
      obtain ⟨hfirst, hrest⟩ : a.same b = true ∧ sameAll as bs = true := by
        simpa [sameAll] using h
      simp [Expr.sameAll, same_expr hfirst, ih hrest]

/-- Forms that are the same are written the same. -/
theorem Form.same_expr {a b : Form} (h : a.same b = true) : a.expr.same b.expr = true := by
  cases a with
  | object name members =>
    cases b with
    | object other others =>
      obtain ⟨rfl, hmembers⟩ : name = other ∧ Member.sameAll members others = true := by
        simpa [Form.same] using h
      cases name with
      | none => simp [expr, Expr.same, Member.sameAll_expr hmembers]
      | some name => simp [expr, Expr.same, Expr.sameAll]
    | _ => simp [Form.same] at h
  | _ =>
    cases b <;>
      simp_all [Form.same, expr, Expr.same, Expr.sameAll, Expr.sameAll_variables]

/-! ## Faults -/

theorem EvalError.kind_form_eq_iff {fault : FormFault} :
    (EvalError.form fault).kind = .invalidMemberDefinition ↔
      ∃ cause, fault = .member cause := by
  cases fault <;> simp [kind]

namespace Form

/-- Only an object can be refused for a member. -/
theorem eq_object_of_member {name : String} {arguments : List Expr} {cause : MemberFault}
    (h : classify name arguments = .error (.member cause)) : name = "object" := by
  refine Classical.byContradiction fun hobject => ?_
  unfold classify at h
  split at h
  · simp at h
  · split at h
    · unfold ofDefine at h
      split at h
      · simp at h
      · split at h
        · simp at h
        · split at h <;> simp at h
      · simp at h
      · simp at h
    · split at h
      · unfold ofAssign at h
        split at h <;> simp at h
      · split at h
        · simp at h
        · split at h
          · cases arguments <;> simp [ofSend] at h
          · simp at h

theorem exists_member_of_ofObject {arguments : List Expr} {fault : FormFault}
    (h : ofObject arguments = .error fault) : ∃ cause, fault = .member cause := by
  unfold ofObject at h
  split at h
  · simp at h
  · simp at h
  · split at h
    · rename_i cause hcause
      exact ⟨cause, by simpa using h.symm⟩
    · simp at h

/-- An object is refused for its members exactly when it has some and one of
them is not well shaped. -/
theorem invalidMember_iff {name : String} {arguments : List Expr} :
    (∃ fault, classify name arguments = .error fault ∧
        (EvalError.form fault).kind = .invalidMemberDefinition) ↔
      name = "object" ∧ arguments ≠ [] ∧ (∀ other, arguments ≠ [.variable other]) ∧
        ∃ e ∈ arguments, ¬ WritesMember e := by
  rw [← ofObject_error_iff]
  constructor
  · rintro ⟨fault, hfault, hkind⟩
    obtain ⟨cause, rfl⟩ := EvalError.kind_form_eq_iff.1 hkind
    obtain rfl := eq_object_of_member hfault
    exact ⟨rfl, _, hfault⟩
  · rintro ⟨rfl, fault, hfault⟩
    exact ⟨fault, hfault, EvalError.kind_form_eq_iff.2 (exists_member_of_ofObject hfault)⟩

/-! ## Nothing is lost -/

/-- Classification loses nothing. It gives the well-shaped forms, each for the
expression it is written as; forms that are the same come from expressions that
are the same; and it refuses an object for its members exactly when one of
them is not well shaped. -/
theorem classification_faithful :
    (∀ name arguments form, classify name arguments = .ok form ↔
      form.WellShaped ∧ form.expr = .form name arguments) ∧
    (∀ name arguments form name' arguments' form',
      classify name arguments = .ok form → classify name' arguments' = .ok form' →
        form.same form' = true →
          (Expr.form name arguments).same (.form name' arguments') = true) ∧
    ∀ name arguments,
      (∃ fault, classify name arguments = .error fault ∧
          (EvalError.form fault).kind = .invalidMemberDefinition) ↔
        name = "object" ∧ arguments ≠ [] ∧ (∀ other, arguments ≠ [.variable other]) ∧
          ∃ e ∈ arguments, ¬ WritesMember e := by
  refine ⟨fun _ _ _ => classify_eq_ok_iff, ?_, fun _ _ => invalidMember_iff⟩
  intro name arguments form name' arguments' form' h h' hsame
  rw [← (classify_eq_ok_iff.1 h).2, ← (classify_eq_ok_iff.1 h').2]
  exact same_expr hsame

/-- An object with a field and a method, both of which hold a number. -/
def counter (step : Decimal) : Form :=
  .object none [.field "count" (.number step),
    .method ".next" ["by"] (.form "+" [.variable "by", .number step])]

/-- Written with `1` and with `1.0` it is the same, as a form and as an
expression; with a parameter named twice it is refused. -/
theorem classification_faithful_counter :
    let written (step : Decimal) : List Expr :=
      [.form "count" [.number step], .form "" [.form ".next" [.variable "by"],
        .form "+" [.variable "by", .number step]]]
    let twice : Expr := .form "" [.form ".next" [.variable "by", .variable "by"], .variable "by"]
    classify "object" (written ⟨false, 1, 0⟩) = .ok (counter ⟨false, 1, 0⟩) ∧
      classify "object" (written ⟨false, 10, -1⟩) = .ok (counter ⟨false, 10, -1⟩) ∧
      (counter ⟨false, 1, 0⟩).same (counter ⟨false, 10, -1⟩) = true ∧
      (Expr.form "object" (written ⟨false, 1, 0⟩)).same
        (.form "object" (written ⟨false, 10, -1⟩)) = true ∧
      ¬ WritesMember twice := by
  intro written twice
  obtain ⟨hok, hsame, hrefused⟩ := classification_faithful
  have hshaped : ∀ step, (counter step).WellShaped := by
    intro step
    refine ⟨by simp, ?_⟩
    simp only [List.forall_mem_cons]
    exact ⟨⟨by decide, by decide⟩, ⟨by decide, by decide⟩, by simp⟩
  have hone := (hok "object" (written ⟨false, 1, 0⟩) (counter ⟨false, 1, 0⟩)).2 ⟨hshaped _, rfl⟩
  have htenths :=
    (hok "object" (written ⟨false, 10, -1⟩) (counter ⟨false, 10, -1⟩)).2 ⟨hshaped _, rfl⟩
  have hforms : (counter ⟨false, 1, 0⟩).same (counter ⟨false, 10, -1⟩) = true := by decide +kernel
  refine ⟨hone, htenths, hforms, hsame _ _ _ _ _ _ hone htenths hforms, ?_⟩
  have hfault : classify "object" [twice] = .error (.member (.parameters (.duplicate
      (.form ".next" [.variable "by", .variable "by"])))) := rfl
  obtain ⟨-, -, -, e, he, hnot⟩ := (hrefused "object" [twice]).1 ⟨_, hfault, rfl⟩
  rwa [List.mem_singleton.1 he] at hnot

end Form

end PrototypeLisp
