/-
PrototypeLisp.Main — the program at the command line.

Reads arguments, environment variables, files and lines, and writes what
`Program` and `Repl` say. Nothing is decided here.
-/
import PrototypeLisp.Program

namespace PrototypeLisp.Main

/-- Write output as soon as it is known. -/
def write (outputs : List Output) : IO Unit := do
  let out ← IO.getStdout
  let err ← IO.getStderr
  for output in outputs do
    match output with
    | .out text => out.putStr text
    | .err text => err.putStr text
  out.flush
  err.flush

/-- The environment variables that count. -/
def readEnviron : IO Environ := do
  let keys := ["PROTOLISP_PRELUDE_PATH", "PROTOLISP_RECURSION_LIMIT", "PROTOLISP_LOG_LEVEL"]
  let values ← keys.mapM fun key => return (key, ← IO.getEnv key)
  return fun key => (values.lookup key).join

/-- The contents of a file. -/
def readContents (path : Path) : IO (Except FileFault ByteArray) := do
  try
    return .ok (← IO.FS.readBinFile path.text)
  catch error =>
    match error with
    | .noFileOrDirectory .. => return .error .missing
    | .inappropriateType _ code _ =>
      -- The system gives 21, or its negative, for a directory.
      return .error (if code = 21 ∨ code = 0 - 21 then .isADirectory else .notADirectory)
    | other => throw other

/-- Say which failure ends the program. -/
def complain (message : String) : IO UInt32 := do
  write [.err ("fatal: " ++ message ++ "\n")]
  return 1

/-- Run the prompt loop on the standard input. -/
partial def loop (plan : Program.Plan) (r : Repl) : IO UInt32 := do
  write [.out r.prompt]
  let line ← (← IO.getStdin).getLine
  if line.isEmpty then
    write [.out "\n"]
    return 0
  else
    let turn := r.feed plan.limit plan.verbose line
    write turn.outputs
    match turn.raised with
    | some failure => complain failure.message
    | none => loop plan turn.next

/-- Load files, then run the prompt loop if it is wanted. -/
def loadAndLoop (plan : Program.Plan) (store : Store) : List Path → IO UInt32
  | [] => if plan.noRepl then return 0 else loop plan ⟨store, ""⟩
  | path :: paths => do
    let loaded := Program.loadFile plan store path (← readContents path)
    write loaded.outputs
    match loaded.next with
    | .ok store => loadAndLoop plan store paths
    | .error (.ok code) => return code.toUInt32
    | .error (.error (.failure failure)) => complain failure.message
    | .error (.error (.setting fault)) => complain fault.message

/-- Run the program. -/
def start (arguments : List String) : IO UInt32 := do
  match CommandLine.request arguments with
  | .help =>
    write [.out CommandLine.helpText]
    return 0
  | .misuse message =>
    write [.err (CommandLine.misuseText message)]
    return 2
  | .run files noRepl =>
    match Program.Plan.of files noRepl (← readEnviron) with
    | .error fault => complain fault.message
    | .ok plan => loadAndLoop plan Session.initial plan.paths

end PrototypeLisp.Main

/-- The program at the command line. -/
def main (arguments : List String) : IO UInt32 :=
  PrototypeLisp.Main.start arguments
