import Symantics.Failure
import Symantics.Json.Record
import Symantics.Text.UpperCase

/-
  Settings.

  The width of the evaluator, the depth of the decoder, and the level and format of
  the log. Each comes from a field that the caller gives, else from an environment
  variable named "tagless_" and the field, else from a default; letter case does not
  matter in either name. Of several spellings of a field the first that is given
  counts, of several spellings of a variable the last. Whatever the source, the same
  checks apply, and other fields that the caller gives are refused.
-/
namespace Symantics

/-- The levels that a log may be set to. -/
inductive Level where
  | debug
  | info
  | warning
  | error
  | critical
  deriving DecidableEq, Repr

namespace Level

def word : Level → String
  | debug => "DEBUG"
  | info => "INFO"
  | warning => "WARNING"
  | error => "ERROR"
  | critical => "CRITICAL"

def ofWord? : String → Option Level
  | "DEBUG" => some debug
  | "INFO" => some info
  | "WARNING" => some warning
  | "ERROR" => some error
  | "CRITICAL" => some critical
  | _ => none

def number : Level → Nat
  | debug => 10
  | info => 20
  | warning => 30
  | error => 40
  | critical => 50

end Level

inductive LogFormat where
  | json
  | text
  deriving DecidableEq, Repr

namespace LogFormat

def word : LogFormat → String
  | json => "json"
  | text => "text"

def ofWord? : String → Option LogFormat
  | "json" => some json
  | "text" => some text
  | _ => none

end LogFormat

structure Settings where
  intBits : Nat
  maxDecodeDepth : Nat
  logLevel : Level
  logFormat : LogFormat
  intBits_ge : 8 ≤ intBits
  intBits_le : intBits ≤ 4096
  depth_ge : 1 ≤ maxDecodeDepth
  depth_le : maxDecodeDepth ≤ 900
  deriving DecidableEq, Repr

namespace Settings

/-- Where the settings come from: what the caller gives and the environment variables. -/
structure Source where
  given : List (String × Json)
  environment : List (String × String)

def fieldNames : List String := ["int_bits", "max_decode_depth", "log_level", "log_format"]

/-- What the names of environment variables start with. -/
def variableStart : String := "tagless_"

/-- The first entry with a name, in any case. -/
def lookupAnyCase {α : Type} (name : String) (entries : List (String × α)) : Option α :=
  (entries.find? (·.1.toLower == name)).map (·.2)

/-- The data for a field: given, or by the environment. -/
def Source.data? (s : Source) (name : String) : Option Json :=
  (lookupAnyCase name s.given).or <|
    (lookupAnyCase (variableStart ++ name) s.environment.reverse).map .text

/-- A field, checked, or its default. -/
def Source.field {α : Type} (s : Source) (name : String) (default : α) (check : Json → Checked α) :
    Checked α :=
  .inside name <| match s.data? name with
    | some j => check j
    | none => .ok default

/-- Refuses every given field that is no setting. -/
def Source.onlySettings (s : Source) : Checked Unit :=
  .none ((s.given.filter fun f => !fieldNames.contains f.1.toLower).map fun f => ⟨[f.1], .extra⟩)

/-- What is left of a text for a level: no blanks around it, and capital letters. -/
def normalized : Json → Json
  | .text s => .text (String.ofList (Text.upper (Text.trim Text.isBlank s.toList)))
  | j => j

/-- The problem of data that is no level. -/
def notLevel (j : Json) : Problem :=
  .refused <| match j.toValue.shown? with
    | some shown => "unknown log level: " ++ shown
    | none => Misuse.tooManyDigits.message

def asLevel (j : Json) : Checked Level :=
  match normalized j with
  | .text s => match Level.ofWord? s with
    | some l => .ok l
    | none => .problem (notLevel (.text s))
  | j => .problem (notLevel j)

def asFormat (j : Json) : Checked LogFormat :=
  match j with
  | .text s => match LogFormat.ofWord? s with
    | some f => .ok f
    | none => .problem (.otherThan "'json' or 'text'")
  | _ => .problem (.otherThan "'json' or 'text'")

/-- A natural number between two bounds. -/
abbrev Within (least greatest : Nat) := { n : Nat // least ≤ n ∧ n ≤ greatest }

/-- Data that must be a number between two bounds. -/
def asWithin (least greatest : Nat) (j : Json) : Checked (Within least greatest) :=
  match j.toInteger with
  | .error p => .problem p
  | .ok n =>
    if low : n < least then .problem (.below least)
    else if high : (greatest : Int) < n then .problem (.above greatest)
    else .ok ⟨n.toNat, by omega⟩

def ofSource (s : Source) : Checked Settings :=
  ((s.field "int_bits" ⟨64, by decide⟩ (asWithin 8 4096)).both
    ((s.field "max_decode_depth" ⟨500, by decide⟩ (asWithin 1 900)).both
      ((s.field "log_level" .info asLevel).both
        ((s.field "log_format" .json asFormat).both s.onlySettings)))).map
    fun (bits, depth, level, format, _) =>
      ⟨bits.1, depth.1, level, format, bits.2.1, bits.2.2, depth.2.1, depth.2.2⟩

def toJson (s : Settings) : Json :=
  .record [("int_bits", .int s.intBits), ("max_decode_depth", .int s.maxDecodeDepth),
    ("log_level", .text s.logLevel.word), ("log_format", .text s.logFormat.word)]

end Settings

end Symantics
