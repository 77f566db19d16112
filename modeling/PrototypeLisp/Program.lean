/-
PrototypeLisp.Program — the whole program as a function.

The arguments say what to do, the environment variables how. The files are
loaded one after the other into one session, those that the environment names
first; a failure that can be reported ends the program with exit code 1. Then
the prompt loop runs on the standard input, unless it is not wanted.
-/
import PrototypeLisp.CommandLine
import PrototypeLisp.Repl
import PrototypeLisp.Settings

namespace PrototypeLisp

namespace Program

/-- A failure that the program does not handle. -/
inductive Raised where
  | setting (fault : Settings.Fault)
  | failure (failure : Failure)

/-- How a run of the program went. -/
structure Outcome where
  /-- What was written, in order. -/
  outputs : List Output
  /-- The exit code, or the failure that ended the program. -/
  result : Except Raised Nat

/-- What the program works with once arguments and variables are understood. -/
structure Plan where
  /-- The files to load, in order. -/
  paths : List Path
  /-- Is the prompt loop left out? -/
  noRepl : Bool
  /-- How deep evaluation may go. -/
  limit : Nat
  /-- Are events shown? -/
  verbose : Bool

/-- The plan that arguments and environment variables amount to. -/
def Plan.of (files : List String) (noRepl : Bool) (environ : Environ) :
    Except Settings.Fault Plan := do
  let verbose := Settings.showsEvents (Settings.logLevel environ)
  let limit? ← Settings.recursionLimit environ
  return {
    paths := Settings.preludePaths environ ++ files.map Path.ofText
    noRepl := noRepl
    limit := min Session.defaultLimit (limit?.getD Session.defaultLimit)
    verbose := verbose }

/-- What loading a file leads to: more to do with a store, or the end of the
program. -/
structure Loaded where
  outputs : List Output
  next : Except (Except Raised Nat) Store

/-- Load one file. -/
def loadFile (plan : Plan) (store : Store) (path : Path)
    (contents : Except FileFault ByteArray) : Loaded :=
  match Session.load plan.limit path.text contents store with
  | .ok _ store => ⟨store.log plan.verbose, .ok store.quiet⟩
  | .error failure store =>
    match failure.report? with
    | some line => ⟨store.log plan.verbose ++ [.err (line ++ "\n")], .error (.ok 1)⟩
    | none => ⟨store.log plan.verbose, .error (.error (.failure failure))⟩

/-- Load files one after the other. -/
def loadFiles (plan : Plan) (files : Path → Except FileFault ByteArray) (store : Store) :
    List Path → Loaded
  | [] => ⟨[], .ok store⟩
  | path :: paths =>
    let loaded := loadFile plan store path (files path)
    match loaded.next with
    | .error result => ⟨loaded.outputs, .error result⟩
    | .ok store =>
      let rest := loadFiles plan files store paths
      ⟨loaded.outputs ++ rest.outputs, rest.next⟩

/-- Carry a plan out. -/
def execute (plan : Plan) (files : Path → Except FileFault ByteArray) (input : String) :
    Outcome :=
  let loaded := loadFiles plan files Session.initial plan.paths
  match loaded.next with
  | .error result => ⟨loaded.outputs, result⟩
  | .ok store =>
    if plan.noRepl then ⟨loaded.outputs, .ok 0⟩
    else
      let turn := Repl.run plan.limit plan.verbose ⟨store, ""⟩ (Repl.lines input)
      ⟨loaded.outputs ++ turn.outputs,
        match turn.raised with
        | some failure => .error (.failure failure)
        | none => .ok 0⟩

/-- Run the program on arguments, environment variables, files and the text of
the standard input. -/
def run (arguments : List String) (environ : Environ)
    (files : Path → Except FileFault ByteArray) (input : String) : Outcome :=
  match CommandLine.request arguments with
  | .help => ⟨[.out CommandLine.helpText], .ok 0⟩
  | .misuse message => ⟨[.err (CommandLine.misuseText message)], .ok 2⟩
  | .run arguments noRepl =>
    match Plan.of arguments noRepl environ with
    | .error fault => ⟨[], .error (.setting fault)⟩
    | .ok plan => execute plan files input

end Program

end PrototypeLisp
