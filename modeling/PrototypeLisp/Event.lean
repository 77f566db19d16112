/-
PrototypeLisp.Event — what a session notes down while it works.

Events are kept in order beside the heap and shown to a user who asks for the
most detailed log. No evaluation depends on them.
-/

namespace PrototypeLisp

/-- Something worth noting in the log. -/
inductive Event where
  /-- A file is about to be read. -/
  | loading (path : String)
  /-- A function was defined. -/
  | functionDefined (name : String) (parameterCount : Nat)
  /-- A member was found on a prototype of the receiver. -/
  | delegated (member receiver holder : String)
deriving DecidableEq

/-- The part of the program that an event comes from. -/
def Event.origin : Event → String
  | .loading _ => "protolisp.interpreter"
  | .functionDefined .. => "protolisp.evaluation.special_forms.def_form"
  | .delegated .. => "protolisp.evaluation.objects"

/-- What an event says. -/
def Event.message : Event → String
  | .loading path => "loading " ++ path
  | .functionDefined name parameterCount =>
    "defined function " ++ name ++ "/" ++ toString parameterCount
  | .delegated member receiver holder =>
    "member " ++ member ++ " of " ++ receiver ++ " delegated to " ++ holder

/-- The log line of an event. -/
def Event.line (e : Event) : String :=
  "DEBUG " ++ e.origin ++ ": " ++ e.message

end PrototypeLisp
