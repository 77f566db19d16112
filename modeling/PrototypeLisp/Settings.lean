/-
PrototypeLisp.Settings — what environment variables set.

Three variables count: a list of files to load first, a limit on how deep
evaluation may go, and a log level. A variable that is empty counts as unset,
except that an empty log level is an unknown one, which means the default.
-/
import PrototypeLisp.Text.Blank
import PrototypeLisp.Text.Digit
import PrototypeLisp.Text.Quoted
import PrototypeLisp.Path

namespace PrototypeLisp

open Text

/-- The values of the environment variables. -/
abbrev Environ := String → Option String

namespace Settings

/-- The value of a variable that is set and not empty. -/
def nonempty? (environ : Environ) (key : String) : Option String :=
  (environ key).filter (· ≠ "")

/-! ## Files to load first -/

/-- The files to load first: paths between colons, blanks around them
dropped. -/
def preludePaths (environ : Environ) : List Path :=
  match nonempty? environ "PROTOLISP_PRELUDE_PATH" with
  | none => []
  | some raw => (((raw.splitOn ":").map trimText).filter (· ≠ "")).map Path.ofText

/-! ## The limit on nesting -/

/-- The blanks that may surround an integer: all but the four separators of
ASCII. -/
def surroundsInteger (c : Char) : Bool :=
  isBlank c && !(0x1C ≤ c.toNat && c.toNat ≤ 0x1F)

/-- How many digits an integer may have. -/
def maxIntegerDigits : Nat :=
  4300

/-- The digits of a row in which single underscores may stand between two
digits. -/
def digitRow? : List Char → Option (List Nat)
  | [] => none
  | [c] => (digitValue? c).map ([·])
  | c :: '_' :: cs =>
    match digitValue? c, digitRow? cs with
    | some d, some ds => some (d :: ds)
    | _, _ => none
  | c :: cs =>
    match digitValue? c, digitRow? cs with
    | some d, some ds => some (d :: ds)
    | _, _ => none

/-- The integer that a text spells: an optional sign and digits, with blanks
around them. -/
def integer? (text : String) : Option Int :=
  let body := ((text.toList.dropWhile surroundsInteger).reverse.dropWhile surroundsInteger).reverse
  let (negative, row) : Bool × List Char :=
    match body with
    | '-' :: row => (true, row)
    | '+' :: row => (false, row)
    | row => (false, row)
  match digitRow? row with
  | none => none
  | some digits =>
    if maxIntegerDigits < digits.length then none
    else
      let n : Int := ofDigits digits
      some (if negative then -n else n)

/-- What is wrong with a setting. -/
inductive Fault where
  /-- The limit is not an integer. -/
  | notAnInteger (raw : String)
  /-- The limit is not positive. -/
  | notPositive (limit : Int)
deriving DecidableEq

/-- The text of a fault. -/
def Fault.message : Fault → String
  | .notAnInteger raw => "PROTOLISP_RECURSION_LIMIT must be an integer, got " ++ quote raw
  | .notPositive limit => "PROTOLISP_RECURSION_LIMIT must be positive, got " ++ toString limit

/-- The limit on nesting, if one is set. -/
def recursionLimit (environ : Environ) : Except Fault (Option Nat) :=
  match nonempty? environ "PROTOLISP_RECURSION_LIMIT" with
  | none => .ok none
  | some raw =>
    match integer? raw with
    | none => .error (.notAnInteger raw)
    | some limit =>
      if limit ≤ 0 then .error (.notPositive limit) else .ok (some limit.toNat)

/-! ## The log level -/

/-- The capital letter of a character, where that is a letter of ASCII. The
dotless `ı` and the long `ſ` have such a capital too. -/
def capital (c : Char) : Char :=
  if c = 'ı' then 'I' else if c = 'ſ' then 'S' else c.toUpper

/-- The names of log levels and their numbers. -/
def levels : List (String × Nat) :=
  [("CRITICAL", 50), ("FATAL", 50), ("ERROR", 40), ("WARNING", 30), ("WARN", 30), ("INFO", 20),
    ("DEBUG", 10), ("NOTSET", 0)]

/-- The level when no known one is named. -/
def defaultLevel : Nat :=
  30

/-- The log level: a name in letters of either case, with blanks around it. -/
def logLevel (environ : Environ) : Nat :=
  match environ "PROTOLISP_LOG_LEVEL" with
  | none => defaultLevel
  | some raw =>
    (levels.lookup (String.ofList ((trim raw.toList).map capital))).getD defaultLevel

/-- Are the events of a session shown at a log level? -/
def showsEvents (level : Nat) : Bool :=
  level ≤ 10

end Settings

end PrototypeLisp
