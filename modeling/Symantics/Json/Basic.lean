import Symantics.Value.Basic

/-
  JSON data.

  Data that arrives or leaves as JSON text. Integers are exact and of any size; a
  number with a fraction or an exponent is a floating-point number. The fields of a
  record keep their order, and of several fields with one name the last counts.
-/
namespace Symantics

inductive Json where
  | null
  | bool (b : Bool)
  | int (n : Int)
  | float (x : Binary64)
  | text (s : String)
  | list (items : List Json)
  | record (fields : List (String × Json))
  deriving Repr, Inhabited

namespace Json

/-- The field that counts among those with a name. -/
def lookup (name : String) (fields : List (String × Json)) : Option Json :=
  (fields.reverse.find? (·.1 == name)).map (·.2)

def field? (name : String) : Json → Option Json
  | record fields => lookup name fields
  | _ => none

mutual

def toValue : Json → Value
  | null => .null
  | bool b => .bool b
  | int n => .int n
  | float x => .float x
  | text s => .text s
  | list items => .list (toValues items)
  | record fields => .record (fieldsToValues fields)

def toValues : List Json → List Value
  | [] => []
  | j :: js => toValue j :: toValues js

def fieldsToValues : List (String × Json) → List (String × Value)
  | [] => []
  | (name, j) :: fields => (name, toValue j) :: fieldsToValues fields

end

end Json

end Symantics
