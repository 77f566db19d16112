/-
PrototypeLisp.Form — the meaning of a parenthesised form by its shape.

The reader gives one kind of tree to every parenthesised form. Classification
looks at its name and at the shapes of its arguments, leaves the arguments
themselves as they are, and gives one of seven forms: a block, the definition
of a variable or a function, an assignment, an object, a method call or a
function call. A special form or a member of a wrong shape is a fault.
-/
import PrototypeLisp.Expr.Basic

namespace PrototypeLisp

/-- A member of an object. -/
inductive Member where
  /-- `(name value)` -/
  | field (name : String) (value : Expr)
  /-- `((.name parameters…) body)` -/
  | method (name : String) (parameters : List String) (body : Expr)

/-- A form by its meaning. -/
inductive Form where
  /-- `(do expressions…)` -/
  | block (body : List Expr)
  /-- `(def name value)` -/
  | defineVariable (name : String) (value : Expr)
  /-- `(def (name parameters…) body)` -/
  | defineFunction (name : String) (parameters : List String) (body : Expr)
  /-- `(set! name value)` -/
  | assign (name : String) (value : Expr)
  /-- `(object)`, `(object Name)` or `(object members…)` -/
  | object (name : Option String) (members : List Member)
  /-- `(.name receiver arguments…)` -/
  | send (name : String) (receiver : Expr) (arguments : List Expr)
  /-- `(name arguments…)` -/
  | call (name : String) (arguments : List Expr)

/-- What is wrong with a parameter list. -/
inductive ParameterFault where
  /-- A parameter is not a name. -/
  | notAName (parameter declaration : Expr)
  /-- Two parameters have one name. -/
  | duplicate (declaration : Expr)

/-- What is wrong with a member of an object. -/
inductive MemberFault where
  /-- A field does not have exactly one value, or has the name of a method. -/
  | invalidField (member : Expr)
  /-- A method is not a declaration and a body. -/
  | invalidMethod (member : Expr)
  /-- A method's declaration is not a form with the name of a method. -/
  | invalidDeclaration (declaration : Expr)
  /-- A method's parameters are wrong. -/
  | parameters (fault : ParameterFault)
  /-- The member is not a form. -/
  | notAForm (member : Expr)

/-- What is wrong with a form. -/
inductive FormFault where
  /-- A definition does not have exactly two arguments. -/
  | defineArity
  /-- What is to be defined is neither a name nor a named form. -/
  | defineTarget (target : Expr)
  /-- A function's parameters are wrong. -/
  | parameters (fault : ParameterFault)
  /-- An assignment does not have exactly two arguments. -/
  | assignArity
  /-- What is to be assigned is not a name. -/
  | assignTarget (target : Expr)
  /-- A method call has no receiver. -/
  | missingReceiver (name : String)
  /-- A form without a name stands outside an object. -/
  | anonymous (form : Expr)
  /-- A member of an object is wrong. -/
  | member (fault : MemberFault)

/-- The text of a parameter fault. -/
def ParameterFault.message : ParameterFault → String
  | .notAName parameter declaration =>
    "Invalid parameter " ++ parameter.text ++ " in " ++ declaration.text ++ ", expected a name."
  | .duplicate declaration => "Duplicate parameter name in " ++ declaration.text ++ "."

/-- The text of a member fault. -/
def MemberFault.message : MemberFault → String
  | .invalidField member =>
    "Invalid field definition " ++ member.text ++ ", expected (<name> <value>)."
  | .invalidMethod member =>
    "Invalid method definition " ++ member.text ++ ", expected a declaration and a body."
  | .invalidDeclaration declaration =>
    "Invalid method declaration " ++ declaration.text ++ ", expected (<.name> [parameters])."
  | .parameters fault => fault.message
  | .notAForm member => "Invalid member definition " ++ member.text ++ "."

/-- The text of a form fault. -/
def FormFault.message : FormFault → String
  | .defineArity => "Builtin function def requires exactly 2 arguments."
  | .defineTarget target =>
    "Invalid variable/function form " ++ target.text ++ " for builtin function def."
  | .parameters fault => fault.message
  | .assignArity => "Builtin function set! requires exactly 2 arguments."
  | .assignTarget target =>
    "Invalid variable form " ++ target.text ++ " for builtin function set!."
  | .missingReceiver name => "Method call " ++ name ++ " requires a receiver."
  | .anonymous form =>
    "Anonymous form " ++ form.text ++ " is only valid as an object method declaration."
  | .member fault => fault.message

/-- The names of methods start with a dot. -/
def isMethodName (name : String) : Bool :=
  name.toList.head? == some '.'

namespace Form

/-- The names of variables, in order, or the first expression that is not
one. -/
def variableNames : List Expr → Except Expr (List String)
  | [] => .ok []
  | .variable name :: rest => (variableNames rest).map (name :: ·)
  | other :: _ => .error other

/-- The parameters that a declaration `(name parameters…)` lists: names, no
two of them equal. -/
def parameterNames (name : String) (arguments : List Expr) :
    Except ParameterFault (List String) :=
  match variableNames arguments with
  | .error parameter => .error (.notAName parameter (.form name arguments))
  | .ok names =>
    if names.Nodup then .ok names else .error (.duplicate (.form name arguments))

/-- Classify the arguments of `def`. -/
def ofDefine : List Expr → Except FormFault Form
  | [.variable name, value] => .ok (.defineVariable name value)
  | [.form name arguments, body] =>
    if name = "" then .error (.defineTarget (.form name arguments))
    else
      match parameterNames name arguments with
      | .error fault => .error (.parameters fault)
      | .ok parameters => .ok (.defineFunction name parameters body)
  | [target, _] => .error (.defineTarget target)
  | _ => .error .defineArity

/-- Classify the arguments of `set!`. -/
def ofAssign : List Expr → Except FormFault Form
  | [.variable name, value] => .ok (.assign name value)
  | [target, _] => .error (.assignTarget target)
  | _ => .error .assignArity

/-- Classify a method `((.name parameters…) body)` by its two parts. -/
def ofMethod (member : Expr) : List Expr → Except MemberFault Member
  | [.form name arguments, body] =>
    if isMethodName name then
      match parameterNames name arguments with
      | .error fault => .error (.parameters fault)
      | .ok parameters => .ok (.method name parameters body)
    else .error (.invalidDeclaration (.form name arguments))
  | [declaration, _] => .error (.invalidDeclaration declaration)
  | _ => .error (.invalidMethod member)

/-- Classify a member of an object. -/
def ofMember : Expr → Except MemberFault Member
  | .form name arguments =>
    if name = "" then ofMethod (.form name arguments) arguments
    else
      match arguments with
      | [value] =>
        if isMethodName name then .error (.invalidField (.form name arguments))
        else .ok (.field name value)
      | _ => .error (.invalidField (.form name arguments))
  | member => .error (.notAForm member)

/-- Classify the members of an object, up to the first fault. -/
def ofMembers : List Expr → Except MemberFault (List Member)
  | [] => .ok []
  | e :: es => do
    let member ← ofMember e
    let members ← ofMembers es
    return member :: members

/-- Classify the arguments of `object`. A single name names the object. -/
def ofObject : List Expr → Except FormFault Form
  | [] => .ok (.object none [])
  | [.variable name] => .ok (.object (some name) [])
  | arguments =>
    match ofMembers arguments with
    | .error fault => .error (.member fault)
    | .ok members => .ok (.object none members)

/-- Classify a method call. -/
def ofSend (name : String) : List Expr → Except FormFault Form
  | [] => .error (.missingReceiver name)
  | receiver :: arguments => .ok (.send name receiver arguments)

/-- Classify the form `(name arguments…)`. -/
def classify (name : String) (arguments : List Expr) : Except FormFault Form :=
  if name = "do" then .ok (.block arguments)
  else if name = "def" then ofDefine arguments
  else if name = "set!" then ofAssign arguments
  else if name = "object" then ofObject arguments
  else if name = "" then .error (.anonymous (.form name arguments))
  else if isMethodName name then ofSend name arguments
  else .ok (.call name arguments)

end Form

end PrototypeLisp
