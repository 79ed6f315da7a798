import Symantics.Failure
import Symantics.Json.Basic

/-
  Values as JSON data.

  Tuples become lists; trees have no JSON form, and an integer with too many digits
  has none that may be written. The first part without a form is told.
-/
namespace Symantics.Value

mutual

def toJson : Value → Except Failure Json
  | null => .ok .null
  | bool b => .ok (.bool b)
  | int n => if Decimal.fits n then .ok (.int n) else .error (.misuse .tooManyDigits)
  | float x => .ok (.float x)
  | text s => .ok (.text s)
  | list vs | tuple vs => (toJsons vs).map .list
  | record fs => (fieldsToJson fs).map .record
  | leaf content => .error (.misuse (.notJson (leaf content).kind))
  | node tag children => .error (.misuse (.notJson (node tag children).kind))

def toJsons : List Value → Except Failure (List Json)
  | [] => .ok []
  | v :: vs => do
    let j ← toJson v
    return j :: (← toJsons vs)

def fieldsToJson : List (String × Value) → Except Failure (List (String × Json))
  | [] => .ok []
  | (name, v) :: fs => do
    let j ← toJson v
    return (name, j) :: (← fieldsToJson fs)

end

end Symantics.Value
