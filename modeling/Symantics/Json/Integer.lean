import Symantics.Json.Reader
import Symantics.Report
import Symantics.Text.Blank

/-
  Integers in untyped data.

  Where an integer is wanted, data may also hold a truth value (1 or 0), a
  floating-point number without a fraction whose size is below 2^63, or a text. A
  text is read as JSON writes integers. If that fails, its spelling is simplified
  and read once more: blanks around it, a '+', leading zeros, a point with nothing
  but zeros behind it, and single underscores are dropped. Leading zeros stand at the
  start or behind the sign; they may have underscores among them, and a '-' may come
  after them unless one stands before them. A text that starts with too many digits
  is told apart from one that is no integer; after simplifying they are not told
  apart.
-/
namespace Symantics.Json

/-- What remains of a number's text after its leading zeros, which may have underscores among
them; the last of these characters stays if a point or the end follows. -/
def dropZeros : List Char → Option (List Char)
  | '0' :: cs => skip '0' cs
  | c :: cs => if c.isDigit then some (c :: cs) else none
  | [] => none
where
  skip (last : Char) : List Char → Option (List Char)
    | [] => some [last]
    | c :: cs =>
      if c = '0' ∨ c = '_' then skip c cs
      else if c.isDigit ∨ c = '-' then some (c :: cs)
      else if c = '.' then some (last :: c :: cs)
      else none

/-- Drops a point with zeros, at least one, behind it. -/
def dropFraction (cs : List Char) : List Char :=
  match cs.dropWhile (· ≠ '.') with
  | '.' :: zeros => if !zeros.isEmpty && zeros.all (· = '0') then cs.takeWhile (· ≠ '.') else cs
  | _ => cs

/-- Drops underscores, which may stand neither at an end nor side by side. -/
def dropUnderscores (cs : List Char) : Option (List Char) :=
  if cs.head? = some '_' ∨ cs.getLast? = some '_' ∨ ('_', '_') ∈ cs.zip cs.tail then none
  else some (cs.filter (· ≠ '_'))

/-- A number's text, without its sign, in its plain spelling. -/
def unsignedSimplified? (cs : List Char) : Option (List Char) := do
  dropUnderscores (dropFraction (← dropZeros cs))

/-- A number's text in its plain spelling; a '-' is kept and a '+' is not. -/
def simplified? (cs : List Char) : Option (List Char) :=
  match Text.trim Text.isSpace cs with
  | '+' :: cs => unsignedSimplified? cs
  | '-' :: cs => (unsignedSimplified? cs).map ('-' :: ·)
  | cs => unsignedSimplified? cs

/-- The integer that a text stands for after simplifying. -/
def simplifiedInteger? (cs : List Char) : Option Int := do
  (Whole.readInt Limits.standard.whole (← simplified? cs)).toOption

/-- The integer that a text stands for. -/
def integerOfText (s : String) : Except Problem Int :=
  match Whole.readInt Limits.standard.whole s.toList with
  | .ok n => .ok n
  | .error .tooLong => .error .oversizedInteger
  | .error .malformed => match simplifiedInteger? s.toList with
    | some n => .ok n
    | none => .error .unreadableInteger

/-- The least size of a floating-point number that counts as too large, 2^63. -/
def floatLimit : Nat := 0x8000000000000000

/-- The integer that a floating-point number is. -/
def integerOfFloat (x : Binary64) : Except Problem Int :=
  match x.ratio?, x.toInt? with
  | none, _ => .error .infiniteNumber
  | some _, none => .error .fractional
  | some _, some n => if n.natAbs < floatLimit then .ok n else .error .oversizedInteger

def toInteger : Json → Except Problem Int
  | int n => .ok n
  | bool b => .ok (if b then 1 else 0)
  | float x => integerOfFloat x
  | text s => integerOfText s
  | _ => .error .notInteger

end Symantics.Json
