/-
PrototypeLisp.Session — evaluating texts against one root frame.

A session starts from a store whose root frame binds null, the operators and
the object `Object`. A text is read and evaluated one expression at a time, so
the expressions before a fault have taken effect. Definitions stay for the
texts that follow. The contents of a file are decoded as UTF-8 and its line
ends unified before they are evaluated like any other text.
-/
import PrototypeLisp.Eval

namespace PrototypeLisp.Session

/-- The store of a new session. -/
def initial : Store :=
  ⟨.initial, []⟩

/-- How deep evaluation and nested forms may go unless the user says less. -/
def defaultLimit : Nat :=
  4000

/-- Evaluate one expression in the root frame. -/
def evaluate (limit : Nat) (e : Expr) : Eval Value :=
  eval limit e Heap.root

/-- Read and evaluate expressions until the tokens end. The value is that of
the last expression, or `last` if there is none. -/
def evalTokens (limit : Nat) (last : Value) (tokens : List Token) : Eval Value :=
  match _h : Expr.read? limit tokens with
  | none => pure last
  | some (.error fault, _) => throw (.read fault)
  | some (.ok e, rest) => do
    let value ← evaluate limit e
    evalTokens limit value rest
termination_by tokens.length
decreasing_by exact Expr.length_lt_of_read? _h

/-- Evaluate every expression of a text; the value is that of the last one,
null if there is none. -/
def evalText (limit : Nat) (source : String) : Eval Value :=
  evalTokens limit .null (lex source)

/-- Read and evaluate expressions until the tokens end, for their effects
only. -/
def performTokens (limit : Nat) (tokens : List Token) : Eval Unit :=
  match _h : Expr.read? limit tokens with
  | none => pure ()
  | some (.error fault, _) => throw (.read fault)
  | some (.ok e, rest) => do
    let _ ← evaluate limit e
    performTokens limit rest
termination_by tokens.length
decreasing_by exact Expr.length_lt_of_read? _h

/-- Evaluate a text for its definitions only. -/
def evalPrelude (limit : Nat) (source : String) : Eval Unit :=
  performTokens limit (lex source)

/-! ## Files -/

/-- Read one character of a file whose line ends are being unified; the flag
says that the character before it was a carriage return. -/
def unifyStep (state : List Char × Bool) (c : Char) : List Char × Bool :=
  if c = '\r' then ('\n' :: state.1, true)
  else if c = '\n' ∧ state.2 then (state.1, false)
  else (c :: state.1, false)

/-- A carriage return with a line feed after it, and one that stands alone,
become a line feed. -/
def unifyLineEnds (cs : List Char) : List Char :=
  (cs.foldl unifyStep ([], false)).1.reverse

/-- The text that the bytes of a file spell. -/
def decode? (bytes : ByteArray) : Option String :=
  (String.fromUTF8? bytes).map fun text => String.ofList (unifyLineEnds text.toList)

/-- Evaluate the contents of a file. -/
def load (limit : Nat) (path : String) (contents : Except FileFault ByteArray) :
    Eval Value := do
  Eval.note (.loading path)
  match contents with
  | .error fault => throw (.file path fault)
  | .ok bytes =>
    match decode? bytes with
    | none => throw .undecodable
    | some text => evalText limit text

/-! ## From outside the language -/

/-- Call a function value. -/
def invoke (limit : Nat) (function : Function) (receiver? : Option Value)
    (arguments : List Value) : Eval Value :=
  Eval.invoke (eval limit) function receiver? arguments

/-- Remove a binding from the frame of an object. -/
def deleteMember (o : ObjectId) (name : String) : Eval Unit :=
  Eval.modifyHeap fun h =>
    match h.frameOf? o with
    | some f => { h with scopes := h.scopes.delete f name }
    | none => h

end PrototypeLisp.Session
