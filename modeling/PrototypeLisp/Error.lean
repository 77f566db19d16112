/-
PrototypeLisp.Error — what can go wrong, and how it is told.

Causes are data: each carries what its message needs, with the texts of the
values in question already written out. `ErrorKind` is the hierarchy of kinds
that programs and users know by name. A failure of one of these kinds, an
exhausted stack and a file that cannot be read are reported to the user; any
other failure ends the session.
-/
import PrototypeLisp.Text.Quoted
import PrototypeLisp.Expr.Reader
import PrototypeLisp.Form

namespace PrototypeLisp

/-! ## Kinds -/

/-- The kinds of errors of the language. -/
inductive ErrorKind where
  /-- Any error of the language. -/
  | language
  /-- A text cannot be read. -/
  | parse
  /-- Evaluation failed. -/
  | evaluate
  | undefinedVariable
  | undefinedFunction
  | redefinition
  | arityMismatch
  | invalidForm
  | invalidMemberDefinition
  | methodNotFound
  | notAnObject
  | notInvokable
  | typeMismatch
  | divisionByZero
deriving DecidableEq

namespace ErrorKind

/-- The name of a kind. -/
def name : ErrorKind → String
  | .language => "ProtoLispError"
  | .parse => "ParseError"
  | .evaluate => "EvaluateError"
  | .undefinedVariable => "UndefinedVariable"
  | .undefinedFunction => "UndefinedFunction"
  | .redefinition => "Redefinition"
  | .arityMismatch => "ArityMismatch"
  | .invalidForm => "InvalidForm"
  | .invalidMemberDefinition => "InvalidMemberDefinition"
  | .methodNotFound => "MethodNotFound"
  | .notAnObject => "NotAnObject"
  | .notInvokable => "NotInvokable"
  | .typeMismatch => "TypeMismatch"
  | .divisionByZero => "DivisionByZero"

/-- All kinds. -/
def all : List ErrorKind :=
  [.language, .parse, .evaluate, .undefinedVariable, .undefinedFunction, .redefinition,
    .arityMismatch, .invalidForm, .invalidMemberDefinition, .methodNotFound, .notAnObject,
    .notInvokable, .typeMismatch, .divisionByZero]

/-- The kind of a name. -/
def ofName? (name : String) : Option ErrorKind :=
  all.find? fun kind => kind.name = name

/-- A kind and the kinds it belongs to, the narrowest first. -/
def ancestors : ErrorKind → List ErrorKind
  | .language => [.language]
  | .parse => [.parse, .language]
  | .evaluate => [.evaluate, .language]
  | kind => [kind, .evaluate, .language]

end ErrorKind

/-! ## Causes -/

/-- Why an evaluation failed. -/
inductive EvalError where
  /-- A variable is not bound. -/
  | undefinedVariable (name : String)
  /-- A called function is not bound. -/
  | undefinedFunction (name : String)
  /-- A definition names what its frame already binds. -/
  | redefinition (name : String)
  /-- A function got the wrong number of arguments. -/
  | functionArity (name : String) (expected received : Nat)
  /-- A method got the wrong number of arguments. -/
  | methodArity (name : String) (expected received : Nat)
  /-- An operator that needs an operand got none. -/
  | missingOperand (operator : String)
  /-- A form has the wrong shape. -/
  | form (fault : FormFault)
  /-- The receiver has no such method. -/
  | methodNotFound (method receiver : String)
  /-- The receiver is not an object. -/
  | notAnObject (method receiver : String)
  /-- A called value is not a function. -/
  | notInvokable (value kind : String)
  /-- A called member is not a function. -/
  | memberNotInvokable (member receiver : String)
  /-- An operand is not a number. -/
  | notANumber (argument operator : String)
  /-- A divisor is zero. -/
  | divisionByZero (dividend divisor : Decimal)

namespace EvalError

/-- The kind of an evaluation error. -/
def kind : EvalError → ErrorKind
  | .undefinedVariable _ => .undefinedVariable
  | .undefinedFunction _ => .undefinedFunction
  | .redefinition _ => .redefinition
  | .functionArity .. | .methodArity .. | .missingOperand _ => .arityMismatch
  | .form (.member _) => .invalidMemberDefinition
  | .form _ => .invalidForm
  | .methodNotFound .. => .methodNotFound
  | .notAnObject .. => .notAnObject
  | .notInvokable .. | .memberNotInvokable .. => .notInvokable
  | .notANumber .. => .typeMismatch
  | .divisionByZero .. => .divisionByZero

/-- The text of a complaint about the number of arguments. -/
def arityText (callee : String) (expected received : Nat) : String :=
  callee ++ " expects " ++ toString expected ++ " arguments, received " ++ toString received ++ "."

/-- The text of an evaluation error. -/
def message : EvalError → String
  | .undefinedVariable name => "Undefined variable " ++ name ++ "."
  | .undefinedFunction name => "Undefined function " ++ name ++ "."
  | .redefinition name => "Redefined identifier " ++ name ++ "."
  | .functionArity name expected received => arityText name expected received
  | .methodArity name expected received => arityText ("Method " ++ name) expected received
  | .missingOperand operator => operator ++ " requires at least 1 argument."
  | .form fault => fault.message
  | .methodNotFound method receiver => "Method " ++ method ++ " not found in " ++ receiver ++ "."
  | .notAnObject method receiver =>
    "Method " ++ method ++ " must be called on an object, received " ++ receiver ++ "."
  | .notInvokable value kind =>
    "RuntimeValue " ++ value ++ " (" ++ kind ++ ") is not an invokable function."
  | .memberNotInvokable member receiver =>
    "Member " ++ member ++ " of " ++ receiver ++ " is not an invokable function."
  | .notANumber argument operator =>
    "Invalid argument " ++ argument ++ " to " ++ operator ++ ", expected a number."
  | .divisionByZero dividend divisor =>
    "Division by zero: " ++ dividend.scientific ++ " / " ++ divisor.scientific ++ "."

end EvalError

/-- Why a file cannot be read. -/
inductive FileFault where
  | missing
  | notADirectory
  | isADirectory
deriving DecidableEq

/-- The text of a file fault, with its number. -/
def FileFault.message : FileFault → String
  | .missing => "[Errno 2] No such file or directory"
  | .notADirectory => "[Errno 20] Not a directory"
  | .isADirectory => "[Errno 21] Is a directory"

/-! ## Failures -/

/-- Why an operation of a session failed. -/
inductive Failure where
  /-- A text cannot be read. -/
  | read (error : ReadError)
  /-- An expression cannot be evaluated. -/
  | eval (error : EvalError)
  /-- A file cannot be read. -/
  | file (path : String) (fault : FileFault)
  /-- Evaluation is nested too deep. -/
  | stackExhausted
  /-- The result of an operator lies above the exponent range. -/
  | overflow
  /-- A field that has an accessor is no longer bound. -/
  | fieldVanished (field object : String)
  /-- A tree holds a piece that is no expression. -/
  | notAnExpression (text : String)
  /-- A file does not hold well-formed text. -/
  | undecodable

namespace Failure

/-- The kind of a failure, if it is an error of the language. -/
def kind? : Failure → Option ErrorKind
  | .read .numberOutOfRange | .read .tooDeep => none
  | .read _ => some .parse
  | .eval error => some error.kind
  | _ => none

/-- The text of a failure. -/
def message : Failure → String
  | .read error => error.message
  | .eval error => error.message
  | .file path fault => fault.message ++ ": " ++ Text.quote path
  | .stackExhausted => "maximum recursion depth exceeded"
  | .overflow => "Result above the exponent range"
  | .fieldVanished field object => "Field " ++ field ++ " vanished from " ++ object ++ "."
  | .notAnExpression text => "Cannot evaluate " ++ text ++ ", expected an AST node"
  | .undecodable => "Malformed UTF-8"

/-- The line that tells the user of a failure; `none` for a failure that ends
the session. -/
def report? (failure : Failure) : Option String :=
  match failure.kind?, failure with
  | some kind, _ => some ("error: " ++ kind.name ++ ": " ++ failure.message)
  | none, .read .tooDeep | none, .stackExhausted | none, .file _ _ =>
    some ("error: " ++ failure.message)
  | none, _ => none

end Failure

end PrototypeLisp
