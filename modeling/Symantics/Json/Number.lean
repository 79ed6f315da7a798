import Symantics.Json.Basic
import Symantics.Decimal

/-
  Words of JSON text.

  A word is a name (`null`, `true`, `false`, `NaN`, `Infinity`, `-Infinity`) or a
  number: an optional '-', digits without a superfluous leading zero, then maybe a
  point with digits and maybe an exponent with digits. Without point and exponent
  the number is an integer. The sign and the digits before the point are the whole
  part; a number with more digits there than a given limit is refused, whatever
  follows.
-/
namespace Symantics.Json

/-- The leading digits of a text and what follows them. -/
def spanDigits (cs : List Char) : List Char × List Char :=
  (cs.takeWhile Char.isDigit, cs.dropWhile Char.isDigit)

/-- Whether digits may stand before the point. -/
def isWhole : List Char → Bool
  | ['0'] => true
  | d :: _ => d ≠ '0'
  | [] => false

/-- The start of a number: its sign, and its digits before the point. -/
structure Whole where
  negative : Bool
  digits : List Char
  deriving DecidableEq, Repr

namespace Whole

/-- The integer that is written when nothing follows. -/
def toInt (w : Whole) : Int :=
  let n : Int := Nat.ofDigitChars 10 w.digits 0
  if w.negative then -n else n

/-- The start of a number, with at most `limit` digits, and what follows it. -/
def read (limit : Nat) (cs : List Char) : Except Decimal.Defect (Whole × List Char) :=
  let (negative, cs) := match cs with
    | '-' :: cs => (true, cs)
    | cs => (false, cs)
  let (digits, rest) := spanDigits cs
  if !isWhole digits then .error .malformed
  else if limit < digits.length then .error .tooLong
  else .ok (⟨negative, digits⟩, rest)

/-- An integer with nothing behind it. -/
def readInt (limit : Nat) (cs : List Char) : Except Decimal.Defect Int := do
  let (whole, rest) ← read limit cs
  if rest.isEmpty then return whole.toInt else .error .malformed

end Whole

/-- An exponent, with its mark, up to the end; none written counts as zero. -/
def exponent? : List Char → Option Int
  | [] => some 0
  | mark :: cs =>
    if mark = 'e' ∨ mark = 'E' then
      let (negative, ds) := match cs with
        | '-' :: ds => (true, ds)
        | '+' :: ds => (false, ds)
        | ds => (false, ds)
      if ds.isEmpty || !ds.all Char.isDigit then none
      else
        let n : Int := Nat.ofDigitChars 10 ds 0
        some (if negative then -n else n)
    else none

/-- The floating-point number with a whole part, of which this follows. -/
def floatAfter? (whole : Whole) (rest : List Char) : Option Json :=
  let (hasPoint, fraction, rest) := match rest with
    | '.' :: cs => (true, spanDigits cs)
    | cs => (false, [], cs)
  if hasPoint && fraction.isEmpty then none
  else (exponent? rest).map fun e =>
    .float (.ofDecimal whole.negative (Nat.ofDigitChars 10 (whole.digits ++ fraction) 0)
      (e - fraction.length))

def number? (limit : Nat) (cs : List Char) : Option Json :=
  match Whole.read limit cs with
  | .ok (whole, []) => some (.int whole.toInt)
  | .ok (whole, rest) => floatAfter? whole rest
  | .error _ => none

/-- What a word stands for. -/
def ofWord? (limit : Nat) (cs : List Char) : Option Json :=
  match cs with
  | ['n', 'u', 'l', 'l'] => some .null
  | ['t', 'r', 'u', 'e'] => some (.bool true)
  | ['f', 'a', 'l', 's', 'e'] => some (.bool false)
  | ['N', 'a', 'N'] => some (.float .nan)
  | ['I', 'n', 'f', 'i', 'n', 'i', 't', 'y'] => some (.float (.infinite false))
  | ['-', 'I', 'n', 'f', 'i', 'n', 'i', 't', 'y'] => some (.float (.infinite true))
  | cs => number? limit cs

end Symantics.Json
