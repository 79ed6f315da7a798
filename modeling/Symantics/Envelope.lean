import Symantics.Fault
import Symantics.Json.Basic

/-
  Fault envelopes.

  The structured form of a fault for logs and callers: its code, message, category
  and severity, whether the caller may go on, when it arose, and the tag, path and
  interpretation of its context.
-/
namespace Symantics.Fault

def optionalText : Option String → Json
  | some s => .text s
  | none => .null

def pathJson (p : Path) : Json := .list (p.map fun (i : Nat) => .int i)

/-- The envelope of a fault; `now` is written where the context holds no time. -/
def envelope (now : String) (f : Fault) : Json :=
  .record [("error", .record [
    ("code", .text f.code),
    ("message", .text f.message),
    ("category", .text f.category.word),
    ("severity", .text f.severity.word),
    ("recoverable", .bool f.isRecoverable),
    ("timestamp", .text ((f.context.time.map Moment.iso).getD now)),
    ("context", .record [
      ("tag", optionalText f.context.tag),
      ("path", pathJson f.context.path),
      ("interpretation", optionalText f.context.interpretation)])])]

end Symantics.Fault
