import Symantics.Value.Basic
import Symantics.Decimal
import Symantics.Binary64.Shortest
import Symantics.Text.Quoted

/-
  The text of a value.

  `shown?` writes a value as messages quote it: texts in quotes, sequences in
  brackets, a tuple of one item with a comma, records in braces, trees with their
  field names. `text?` is the same except that a text stands for itself. Both fail
  exactly when some integer inside has more digits than may be written.
-/
namespace Symantics.Value

/-- Items separated by a comma and a blank. -/
def commaSeparated (items : List String) : String := ", ".intercalate items

/-- A tuple's text: one item keeps a comma of its own. -/
def tupleText : List String → String
  | [item] => "(" ++ item ++ ",)"
  | items => "(" ++ commaSeparated items ++ ")"

mutual

/-- A value as messages quote it. -/
def shown? : Value → Option String
  | null => some "None"
  | bool b => some (if b then "True" else "False")
  | int n => Decimal.text? n
  | float x => some x.text
  | text s => some (Text.quoted s)
  | list vs => (shownAll? vs).map fun items => "[" ++ commaSeparated items ++ "]"
  | tuple vs => (shownAll? vs).map tupleText
  | record fs => (shownFields? fs).map fun items => "\x7b" ++ commaSeparated items ++ "\x7d"
  | leaf v => (shown? v).map fun inner => "Leaf(text=" ++ inner ++ ")"
  | node tag vs => do
    let shownTag ← shown? tag
    let items ← shownAll? vs
    return "Node(tag=" ++ shownTag ++ ", children=" ++ tupleText items ++ ")"

def shownAll? : List Value → Option (List String)
  | [] => some []
  | v :: vs => do
    let item ← shown? v
    let items ← shownAll? vs
    return item :: items

def shownFields? : List (String × Value) → Option (List String)
  | [] => some []
  | (name, v) :: fs => do
    let item ← shown? v
    let items ← shownFields? fs
    return (Text.quoted name ++ ": " ++ item) :: items

end

def text? : Value → Option String
  | text s => some s
  | v => shown? v

end Symantics.Value
