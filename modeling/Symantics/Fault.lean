import Symantics.Value.Basic
import Symantics.Decimal

/-
  Categorised faults.

  A fault is a failure that the library reports on purpose: a tree that cannot be
  decoded, or checked arithmetic that leaves its range. It carries a message, a
  code, a category, a severity and the context in which it arose. A decoding
  fault repeats its tag and path in its context and leaves the rest of the
  caller's context as it was; an overflow keeps the context it is given.
-/
namespace Symantics

inductive Severity where
  | info
  | warning
  | error
  | critical
  deriving DecidableEq, Repr, Inhabited

namespace Severity

def word : Severity → String
  | info => "info"
  | warning => "warning"
  | error => "error"
  | critical => "critical"

def ofWord? : String → Option Severity
  | "info" => some info
  | "warning" => some warning
  | "error" => some error
  | "critical" => some critical
  | _ => none

/-- Callers may go on after an information or a warning. -/
def isRecoverable : Severity → Bool
  | info | warning => true
  | error | critical => false

end Severity

inductive Category where
  | validation
  | arithmetic
  | internal
  deriving DecidableEq, Repr, Inhabited

namespace Category

def word : Category → String
  | validation => "validation"
  | arithmetic => "arithmetic"
  | internal => "internal"

def ofWord? : String → Option Category
  | "validation" => some validation
  | "arithmetic" => some arithmetic
  | "internal" => some internal
  | _ => none

end Category

/-- A point in time, in coordinated universal time. -/
structure Moment where
  year : Nat
  month : Nat
  day : Nat
  hour : Nat
  minute : Nat
  second : Nat
  microsecond : Nat
  deriving DecidableEq, Repr

/-- `n` in decimal, padded with zeros to `width` digits. -/
def padded (width n : Nat) : String :=
  let ds := Nat.toDigits 10 n
  String.ofList (List.replicate (width - ds.length) '0' ++ ds)

/-- The ISO 8601 form; microseconds are written only when there are some. -/
def Moment.iso (t : Moment) : String :=
  padded 4 t.year ++ "-" ++ padded 2 t.month ++ "-" ++ padded 2 t.day ++ "T" ++
    padded 2 t.hour ++ ":" ++ padded 2 t.minute ++ ":" ++ padded 2 t.second ++
    (if t.microsecond = 0 then "" else "." ++ padded 6 t.microsecond) ++ "+00:00"

/-- Where in a tree, and under which interpretation, a fault arose. A context without a time
was made at a moment that is not recorded. -/
structure Context where
  time : Option Moment := none
  tag : Option String := none
  path : Path := []
  interpretation : Option String := none
  debugInfo : Option Value := none
  deriving Repr, Inhabited

/-- What made the library report a decoding fault, when it was a failure of another sort. -/
inductive Cause where
  -- The text of an integer has too many digits.
  | digits
  -- The data is no tree document.
  | report
  deriving DecidableEq, Repr

/-- The sort of error that a cause is. -/
def Cause.kind : Cause → String
  | digits => "ValueError"
  | report => "ValidationError"

/-- What is particular to the sort of fault. -/
inductive Detail where
  | general
  | decoding (tag : Option String) (path : Path) (cause : Option Cause)
  | overflow (operation : String) (operands : List Int) (bits : Int)
  deriving DecidableEq, Repr, Inhabited

structure Fault where
  message : String
  code : String
  category : Category
  severity : Severity
  context : Context
  detail : Detail
  deriving Repr, Inhabited

namespace Fault

/-- A fault of no particular sort. -/
def general (message code : String) (category : Category) (severity : Severity := .error)
    (context : Context := {}) : Fault :=
  ⟨message, code, category, severity, context, .general⟩

/-- A tree, or the data for one, could not be decoded. -/
def decoding (message code : String) (tag : Option String := none) (path : Path := [])
    (context : Context := {}) (cause : Option Cause := none) : Fault :=
  { message, code, category := .validation, severity := .warning
    context := { context with tag, path }
    detail := .decoding tag path cause }

/-- The operation `operation` on `operands` left the signed range of `bits` bits. There is no
such fault when one of the numbers has too many digits for the message. -/
def overflow? (operation : String) (operands : List Int) (bits : Int) (context : Context := {}) :
    Option Fault := do
  let shown ← operands.mapM Decimal.text?
  let width ← Decimal.text? bits
  return {
    message := "Integer overflow in " ++ operation ++ "(" ++ ", ".intercalate shown ++
      "): result does not fit in " ++ width ++ "-bit signed range"
    code := "INTEGER_OVERFLOW"
    category := .arithmetic
    severity := .error
    context
    detail := .overflow operation operands bits }

/-- The sort of error that a fault is. -/
def kind (f : Fault) : String :=
  match f.detail with
  | .general => "TaglessError"
  | .decoding .. => "DecodeError"
  | .overflow .. => "ArithmeticOverflowError"

def isDecoding (f : Fault) : Bool :=
  match f.detail with
  | .decoding .. => true
  | _ => false

def isRecoverable (f : Fault) : Bool := f.severity.isRecoverable

/-- The tag and path of a decoding fault. -/
def place (f : Fault) : Option String × Path :=
  match f.detail with
  | .decoding tag path _ => (tag, path)
  | _ => (none, [])

/-- The message; a decoding fault below the root adds its path. -/
def text (f : Fault) : String :=
  match f.detail with
  | .decoding _ (i :: is) _ =>
    f.message ++ " (at /" ++ "/".intercalate ((i :: is).map fun (n : Nat) => toString n) ++ ")"
  | _ => f.message

end Fault

end Symantics
