/-
PrototypeLisp.CommandLine — what the arguments of the program ask for.

The program takes files and two switches: `-h` or `--help`, and `--no-repl`. A
switch with two dashes may be shortened to any beginning that fits only one of
them, short switches may be run together, and no switch takes a value. After
two dashes every argument is a file, and so is a lone dash, an argument that
looks like a negative number, and one that holds a space. The files must stand
together: a second group of them is not recognized.
-/
import PrototypeLisp.Text.Digit
import PrototypeLisp.Text.Quoted

namespace PrototypeLisp

/-- What the arguments ask for. -/
inductive Request where
  /-- Load files and, unless told otherwise, start the prompt loop. -/
  | run (files : List String) (noRepl : Bool)
  /-- Show the help text. -/
  | help
  /-- The arguments make no sense. -/
  | misuse (message : String)
deriving DecidableEq

namespace CommandLine

/-- The switches. -/
inductive Switch where
  | help
  | noRepl
deriving DecidableEq

/-- The long spelling of a switch. -/
def Switch.long : Switch → String
  | .help => "--help"
  | .noRepl => "--no-repl"

/-- All spellings of a switch, as messages show them. -/
def Switch.label : Switch → String
  | .help => "-h/--help"
  | .noRepl => "--no-repl"

/-- One argument by its meaning. -/
inductive Argument where
  /-- A file, or the two dashes before files. -/
  | operand (text : String)
  /-- A switch, and the value it was given, which it cannot take. -/
  | switch (switch : Switch) (value : Option String)
  /-- What looks like a switch and is none. -/
  | unknown (text : String)
deriving DecidableEq

/-- Does the argument look like a negative number: a dash and digits, with a
point that has a digit after it? A line feed at the end does not count. -/
def looksNegative (argument : List Char) : Bool :=
  let body := if argument.getLast? = some '\n' then argument.dropLast else argument
  match body with
  | '-' :: row =>
    match row.dropWhile Text.isDigit with
    | [] => row ≠ []
    | '.' :: fraction => fraction ≠ [] && fraction.all Text.isDigit
    | _ => false
  | _ => false

/-- The value that a cluster of short switches is given, which none can take.
A letter that is no switch ends the cluster. -/
def clusterValue? : List Char → Option (List Char)
  | 'h' :: '=' :: value => some value
  | 'h' :: rest => clusterValue? rest
  | '-' :: rest => some ('-' :: rest)
  | _ => none

/-- The name of a long switch and the value after the equals sign. -/
def splitValue (argument : List Char) : List Char × Option (List Char) :=
  match argument.dropWhile (· ≠ '=') with
  | [] => (argument, none)
  | _ :: value => (argument.takeWhile (· ≠ '='), some value)

/-- The switches that a name with two dashes may stand for. -/
def candidates (name : List Char) : List Switch :=
  let exact := [Switch.help, .noRepl].filter fun s => s.long.toList = name
  if exact = [] then [Switch.help, .noRepl].filter fun s => name.isPrefixOf s.long.toList
  else exact

/-- The meaning of one argument that stands before two dashes, or a complaint
that it may stand for several switches. -/
def classify (argument : String) : Except String Argument :=
  match argument.toList with
  | '-' :: '-' :: rest =>
    let (name, value) := splitValue ('-' :: '-' :: rest)
    match candidates name with
    | [switch] => .ok (.switch switch (value.map String.ofList))
    | [] => .ok (if ' ' ∈ rest then .operand argument else .unknown argument)
    | several =>
      .error ("ambiguous option: " ++ argument ++ " could match " ++
        ", ".intercalate (several.map Switch.long))
  | '-' :: 'h' :: rest =>
    .ok (.switch .help ((clusterValue? ('h' :: rest)).map String.ofList))
  | '-' :: c :: rest =>
    .ok (if looksNegative ('-' :: c :: rest) ∨ ' ' ∈ c :: rest then .operand argument
      else .unknown argument)
  | _ => .ok (.operand argument)

/-- The meanings of the arguments; those after two dashes are operands. -/
def classifyAll : List String → Except String (List Argument)
  | [] => .ok []
  | argument :: rest =>
    if argument = "--" then .ok ((argument :: rest).map .operand)
    else do
      let first ← classify argument
      let others ← classifyAll rest
      return first :: others

/-- What is known of the request after some arguments. -/
structure Progress where
  /-- The files, once their group has ended. -/
  files : Option (List String)
  /-- Was `--no-repl` given? -/
  noRepl : Bool
  /-- The arguments that are not recognized. -/
  extras : List String
  /-- The group of operands being read. -/
  group : List String

/-- End the group of operands being read: the first group names the files, the
two dashes left out. -/
def Progress.endGroup (p : Progress) : Progress :=
  match p.group, p.files with
  | [], _ => p
  | group, none => { p with files := some (group.erase "--"), group := [] }
  | group, some _ => { p with extras := p.extras ++ group, group := [] }

/-- Read the arguments one after the other. -/
def requestFrom (p : Progress) : List Argument → Request
  | [] =>
    let p := p.endGroup
    if p.extras = [] then .run (p.files.getD []) p.noRepl
    else .misuse ("unrecognized arguments: " ++ " ".intercalate p.extras)
  | .operand text :: rest => requestFrom { p with group := p.group ++ [text] } rest
  | .unknown text :: rest =>
    let p := p.endGroup
    requestFrom { p with extras := p.extras ++ [text] } rest
  | .switch switch (some value) :: _ =>
    .misuse ("argument " ++ switch.label ++ ": ignored explicit argument " ++ Text.quote value)
  | .switch .help none :: _ => .help
  | .switch .noRepl none :: rest => requestFrom { p.endGroup with noRepl := true } rest

/-- What the arguments ask for. -/
def request (arguments : List String) : Request :=
  match classifyAll arguments with
  | .error message => .misuse message
  | .ok arguments => requestFrom ⟨none, false, [], []⟩ arguments

/-! ## Texts -/

/-- How the program is called. -/
def usage : String :=
  "usage: protolisp [-h] [--no-repl] [files ...]\n"

/-- The help text. -/
def helpText : String :=
  usage ++
    "\nInterpreter for a small Lisp with prototype-based objects.\n" ++
    "\npositional arguments:\n" ++
    "  files       source files to evaluate before the prompt\n" ++
    "\noptions:\n" ++
    "  -h, --help  show this help message and exit\n" ++
    "  --no-repl   exit after evaluating the files\n"

/-- What is said about arguments that make no sense. -/
def misuseText (message : String) : String :=
  usage ++ "protolisp: error: " ++ message ++ "\n"

end CommandLine

end PrototypeLisp
