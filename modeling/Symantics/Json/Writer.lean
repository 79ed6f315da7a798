import Symantics.Json.Basic
import Symantics.Binary64.Shortest
import Symantics.Decimal
import Symantics.Text.Quoted

/-
  Writing JSON text.

  A text is escaped where it has to be: the quote, the backslash and the characters
  below U+0020; everything else stands for itself. The layout is one of three: with
  no blanks at all, with a blank after every comma and colon, or with every item on
  a line of its own, indented by its depth. An empty list or record is never broken.
-/
namespace Symantics.Json

inductive Layout where
  | compact
  | spaced
  | indented (width : Nat)
  deriving DecidableEq, Repr

namespace Layout

/-- What stands before the first item and after the last, at a depth. -/
def edge (depth : Nat) : Layout → List Char
  | indented width => '\n' :: List.replicate (width * depth) ' '
  | _ => []

/-- What stands between two items, at a depth. -/
def separator (depth : Nat) : Layout → List Char
  | compact => [',']
  | spaced => [',', ' ']
  | indented width => ',' :: edge depth (.indented width)

/-- What stands between the name of a field and its value. -/
def colon : Layout → List Char
  | compact => [':']
  | _ => [':', ' ']

end Layout

/-- A character inside a quoted text. -/
def escaped (c : Char) : List Char :=
  if c = '"' then ['\\', '"']
  else if c = '\\' then ['\\', '\\']
  else if c = '\x08' then ['\\', 'b']
  else if c = '\x0c' then ['\\', 'f']
  else if c = '\n' then ['\\', 'n']
  else if c = '\r' then ['\\', 'r']
  else if c = '\t' then ['\\', 't']
  else if c.toNat < 0x20 then '\\' :: 'u' :: Text.hex 4 c.toNat
  else [c]

def quotedChars (s : String) : List Char := '"' :: s.toList.flatMap escaped ++ ['"']

def floatChars : Binary64 → List Char
  | .nan => "NaN".toList
  | .infinite s => (if s then "-Infinity" else "Infinity").toList
  | x => x.text.toList

/-- Items between two marks, laid out at a depth. -/
def enclosed (layout : Layout) (depth : Nat) (opening closing : Char) :
    List (List Char) → List Char
  | [] => [opening, closing]
  | items =>
    opening :: layout.edge (depth + 1) ++
      (items.intersperse (layout.separator (depth + 1))).flatten ++ layout.edge depth ++ [closing]

mutual

/-- The text of JSON data, laid out at a depth. -/
def chars (layout : Layout) (depth : Nat) : Json → List Char
  | null => "null".toList
  | bool b => (if b then "true" else "false").toList
  | int n => Decimal.chars n
  | float x => floatChars x
  | text s => quotedChars s
  | list items => enclosed layout depth '[' ']' (itemChars layout (depth + 1) items)
  | record fields => enclosed layout depth '\x7b' '\x7d' (fieldChars layout (depth + 1) fields)

def itemChars (layout : Layout) (depth : Nat) : List Json → List (List Char)
  | [] => []
  | j :: js => chars layout depth j :: itemChars layout depth js

def fieldChars (layout : Layout) (depth : Nat) : List (String × Json) → List (List Char)
  | [] => []
  | (name, j) :: fields =>
    (quotedChars name ++ layout.colon ++ chars layout depth j) :: fieldChars layout depth fields

end

def write (layout : Layout) (j : Json) : String := String.ofList (chars layout 0 j)

end Symantics.Json
