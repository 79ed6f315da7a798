import Symantics.Json.OfValue
import Symantics.Json.Writer
import Symantics.Settings

/-
  Log records.

  A record has a level, the name of its logger, a message with arguments, further
  attributes, and maybe an exception. Its JSON line holds the time, these parts, and
  of the attributes `interpretation`, `tag`, `path`, `error_code` and `depth`, in this
  order, whichever are there and not null; a tuple is written as a list. The plain
  line holds the time, level, logger and message. The message is filled in with the
  arguments only if there are any.
-/
namespace Symantics.Log

structure Record where
  level : Value
  logger : Value
  message : Value
  arguments : Value := .tuple []
  attributes : List (String × Value) := []
  exception : Option String := none

def levelName (n : Int) : String :=
  if n = 0 then "NOTSET"
  else match [Level.debug, .info, .warning, .error, .critical].find? (n = ·.number) with
    | some l => l.word
    | none => "Level " ++ Decimal.text n

/-- The arguments of a message: a record that is the only one stands for its fields. -/
def argumentsOf : List Value → Value
  | [.record (f :: fs)] => .record (f :: fs)
  | vs => .tuple vs

/-- The text of an exception by its kind and message. -/
def exceptionText (kind message : String) : String :=
  if message.isEmpty then kind else kind ++ ": " ++ message

namespace Record

/-- Sets an attribute, which may be one of the record's own parts. -/
def set (r : Record) (name : String) (v : Value) : Record :=
  match name with
  | "levelname" => { r with level := v }
  | "name" => { r with logger := v }
  | "msg" => { r with message := v }
  | "args" => { r with arguments := v }
  | name => { r with attributes := (name, v) :: r.attributes.filter (·.1 ≠ name) }

/-- An attribute that is there and not null. -/
def attribute? (r : Record) (name : String) : Option Value :=
  match r.attributes.lookup name with
  | some .null | none => none
  | some v => some v

/-- Whether there are arguments to fill in. -/
def hasArguments (r : Record) : Bool :=
  match r.arguments with
  | .null | .bool false | .int 0 | .text "" | .list [] | .tuple [] | .record [] => false
  | .float x => x.ratio?.all (·.1 ≠ 0)
  | _ => true

/-- The message with its arguments filled in. -/
def filled (r : Record) : Except Failure String := do
  let message ← r.message.written
  if r.hasArguments then
    match Template.fill message r.arguments with
    | .ok s => return s
    | .error d => .error (.misuse (.badTemplate d))
  else return message

/-- The attributes that a JSON line shows, in order. -/
def shownAttributes : List String := ["interpretation", "tag", "path", "error_code", "depth"]

/-- The parts of a JSON line, written at a time. -/
def fields (time : String) (r : Record) : Except Failure (List (String × Value)) := do
  let message ← r.filled
  let shown := shownAttributes.filterMap fun name => (r.attribute? name).map (name, ·)
  return [("timestamp", .text time), ("level", r.level), ("logger", r.logger),
      ("message", .text message)] ++ shown ++
    (r.exception.toList.map fun e => ("exception", .text e))

/-- The JSON line of a record, written at a time. -/
def jsonLine (time : String) (r : Record) : Except Failure String := do
  let fields ← r.fields time
  return (← (Value.record fields).toJson).write .spaced

/-- The plain line of a record, written at a time. -/
def textLine (time : String) (r : Record) : Except Failure String := do
  let message ← r.filled
  return time ++ " " ++ (← r.level.written) ++ " " ++ (← r.logger.written) ++ ": " ++ message

end Record

end Symantics.Log
