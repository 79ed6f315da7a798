import Symantics.Binary64.Basic

/-
  Values of any kind.

  Interpretations may return anything, trees may hold anything, and documents
  arrive as untyped data, so one type holds them all. `leaf` and `node` are the
  generic trees of the library; `Tree` (elsewhere) is the part of it with text
  throughout. `kind` names what sort of value it is, as messages do.
-/
namespace Symantics

inductive Value where
  | null
  | bool (b : Bool)
  | int (n : Int)
  | float (x : Binary64)
  | text (s : String)
  | list (items : List Value)
  | tuple (items : List Value)
  -- Named fields, in order.
  | record (fields : List (String × Value))
  | leaf (content : Value)
  | node (tag : Value) (children : List Value)
  deriving Repr, Inhabited

/-- A position in a tree: child indexes from the root. -/
abbrev Path := List Nat

namespace Value

/-- The sort of a value, as messages name it. -/
def kind : Value → String
  | null => "NoneType"
  | bool _ => "bool"
  | int _ => "int"
  | float _ => "float"
  | text _ => "str"
  | list _ => "list"
  | tuple _ => "tuple"
  | record _ => "dict"
  | leaf _ => "Leaf"
  | node _ _ => "Node"

/-- The parts of a value that can be gone through: characters of a text, items, field names. -/
def parts? : Value → Option (List Value)
  | text s => some (s.toList.map fun c => text (String.singleton c))
  | list vs => some vs
  | tuple vs => some vs
  | record fs => some (fs.map fun f => text f.1)
  | _ => none

/-- A field of a record; of several with one name, the last. -/
def field? (name : String) : Value → Option Value
  | record fs => (fs.reverse.find? (·.1 == name)).map (·.2)
  | _ => none

/-- A truth value counts as 0 or 1 among integers. -/
def integer? : Value → Option Int
  | int n => some n
  | bool b => some (if b then 1 else 0)
  | _ => none

/-- A sequence of index values along a path. -/
def ofPath (p : Path) : Value := tuple (p.map fun (i : Nat) => int i)

end Value

end Symantics
