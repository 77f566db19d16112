/-
PrototypeLisp.Repl — the prompt loop.

Lines are collected until their parentheses balance and are then evaluated as
one text. The value is printed, an error of the language is reported and the
loop goes on; any other failure ends it. The loop is a function from lines to
output, so that it can be run on a whole text or fed line by line.
-/
import PrototypeLisp.Session

namespace PrototypeLisp

/-- A piece of output. -/
inductive Output where
  /-- Text for the standard output. -/
  | out (text : String)
  /-- Text for the standard error. -/
  | err (text : String)
deriving DecidableEq

/-- The log lines of the events noted so far, if they are to be shown. -/
def Store.log (verbose : Bool) (s : Store) : List Output :=
  if verbose then s.events.reverse.map fun event => .err (event.line ++ "\n") else []

/-- The store without its events. -/
def Store.quiet (s : Store) : Store :=
  { s with events := [] }

/-- The state of the prompt loop between two lines. -/
structure Repl where
  /-- The state of the session. -/
  store : Store
  /-- The lines of an unfinished input. -/
  pending : String

/-- What reading one line leads to. -/
structure Turn where
  /-- What is written. -/
  outputs : List Output
  /-- The state after the line. -/
  next : Repl
  /-- The failure that ends the loop. -/
  raised : Option Failure

namespace Repl

/-- The prompt before the next line. -/
def prompt (r : Repl) : String :=
  if r.pending = "" then "> " else ". "

/-- Evaluate a complete input. -/
def submit (limit : Nat) (verbose : Bool) (store : Store) (source : String) : Turn :=
  match Session.evalText limit source store with
  | .ok value store =>
    ⟨store.log verbose ++ [.out (store.heap.text value ++ "\n")], ⟨store.quiet, ""⟩, none⟩
  | .error failure store =>
    match failure.report? with
    | some line => ⟨store.log verbose ++ [.err (line ++ "\n")], ⟨store.quiet, ""⟩, none⟩
    | none => ⟨store.log verbose, ⟨store.quiet, ""⟩, some failure⟩

/-- Read one line. -/
def feed (limit : Nat) (verbose : Bool) (r : Repl) (line : String) : Turn :=
  let source := r.pending ++ line
  if 0 < depth source then ⟨[], ⟨r.store, source⟩, none⟩
  else if source.toList.all Text.isBlank then ⟨[], ⟨r.store, ""⟩, none⟩
  else submit limit verbose r.store source

/-- Read lines until they end or a failure ends the loop. -/
def run (limit : Nat) (verbose : Bool) (r : Repl) : List String → Turn
  | [] => ⟨[.out r.prompt, .out "\n"], r, none⟩
  | line :: lines =>
    let turn := r.feed limit verbose line
    match turn.raised with
    | some failure => ⟨.out r.prompt :: turn.outputs, turn.next, some failure⟩
    | none =>
      let rest := turn.next.run limit verbose lines
      ⟨.out r.prompt :: turn.outputs ++ rest.outputs, rest.next, rest.raised⟩

/-- The lines of a text, each with its line feed; `current` are the characters
of the line being read, latest first. -/
def linesFrom (current : List Char) : List Char → List String
  | [] => if current = [] then [] else [String.ofList current.reverse]
  | c :: cs =>
    if c = '\n' then String.ofList (c :: current).reverse :: linesFrom [] cs
    else linesFrom (c :: current) cs

/-- The lines of a text, each with its line feed. -/
def lines (text : String) : List String :=
  linesFrom [] text.toList

end Repl

end PrototypeLisp
