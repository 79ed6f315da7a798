import Symantics.Log.Record

/-
  Setting up the log.

  A log has handlers, in order, and a level. Setting it up removes the handler named
  "tagless", if there is one, adds a new one of that name at the end, and sets the
  level. The level is given by any name that loggers know, in any case; a name that
  they do not know stands for INFO, and anything but a text is a misuse. The handlers
  of others are left alone.
-/
namespace Symantics.Log

/-- A handler writes records in a format; that of others is their own affair. -/
structure Handler where
  name : String
  format : Option LogFormat
  deriving DecidableEq, Repr

/-- What records go to. -/
structure Target where
  handlers : List Handler
  level : Nat
  deriving DecidableEq, Repr

/-- The name of the handler that is set up. -/
def handlerName : String := "tagless"

/-- What a name in capital letters stands for among the names that loggers know. -/
inductive Known where
  | level (n : Nat)
  -- The name of a text, with its content.
  | text (content : String)
  -- The name of something else, as quoted.
  | other (shown : String)
  deriving DecidableEq, Repr

/-- The styles that plain lines may be written in: the mark of a style, and its standard line. -/
def styles : List (String × String × String) := [
  ("%", "PercentStyle", "%(levelname)s:%(name)s:%(message)s"),
  ("\x7b", "StrFormatStyle", "\x7blevelname\x7d:\x7bname\x7d:\x7bmessage\x7d"),
  ("$", "StringTemplateStyle", "$\x7blevelname\x7d:$\x7bname\x7d:$\x7bmessage\x7d")]

/-- The styles as messages quote them. -/
def shownStyles : String :=
  let item := fun (mark, style, line) =>
    Text.quoted mark ++ ": (<class 'logging." ++ style ++ "'>, " ++ Text.quoted line ++ ")"
  "\x7b" ++ ", ".intercalate (styles.map item) ++ "\x7d"

/-- The names that loggers know. -/
def known? : String → Option Known
  | "NOTSET" => some (.level 0)
  | "WARN" => some (.level Level.warning.number)
  | "FATAL" => some (.level Level.critical.number)
  | "BASIC_FORMAT" => some (.text "%(levelname)s:%(name)s:%(message)s")
  | "_STYLES" => some (.other shownStyles)
  | name => (Level.ofWord? name).map (.level ·.number)

/-- The level that a name stands for. -/
def levelNamed : Value → Except Failure Nat
  | .text name => match known? (String.ofList (Text.upper name.toList)) with
    | some (.level n) => .ok n
    | some (.text content) => .error (.misuse (.notLevel (Text.quoted content)))
    | some (.other shown) => .error (.misuse (.noLevel shown))
    | none => .ok Level.info.number
  | v => .error (.misuse (.noAttribute v.kind "upper"))

/-- The format with a name: JSON by its exact name, else plain text. -/
def formatNamed (name : String) : LogFormat := if name = "json" then .json else .text

/-- The handlers after the new one is added. -/
def replaced (format : LogFormat) (handlers : List Handler) : List Handler :=
  handlers.filter (·.name ≠ handlerName) ++ [⟨handlerName, some format⟩]

/-- Sets the log up; the outcome is the new handler. The handler is in place even if the level
cannot be set. -/
def setUp (level : Value) (format : String) (t : Target) : Except Failure Handler × Target :=
  let t := { t with handlers := replaced (formatNamed format) t.handlers }
  match levelNamed level with
  | .ok n => (.ok ⟨handlerName, some (formatNamed format)⟩, { t with level := n })
  | .error e => (.error e, t)

def Handler.line (h : Handler) (time : String) (r : Record) : Except Failure String :=
  match h.format with
  | some .json => r.jsonLine time
  | some .text => r.textLine time
  | none => r.filled

end Symantics.Log
