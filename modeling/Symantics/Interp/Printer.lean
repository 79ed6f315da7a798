import Symantics.Interp.Basic

/-
  Printing.

  A term becomes infix text with a pair of parentheses around every negation, sum
  and product. Operands may be any values and are written as they stand in a text.
-/
namespace Symantics.Interp

variable {σ : Type}

def negText (operand : String) : String := "(- " ++ operand ++ ")"

def addText (left right : String) : String := "(" ++ left ++ " + " ++ right ++ ")"

def mulText (left right : String) : String := "(" ++ left ++ " * " ++ right ++ ")"

def written (v : Value) : Run σ String := .ofExcept v.written

def writtenPair (combine : String → String → String) (v w : Value) : Run σ Value := do
  let left ← written v
  let right ← written w
  return .text (combine left right)

def printer (tier : Tier) : Interp σ where
  kind := match tier with
    | .base => "PrettyPrint"
    | .extended => "PrettyMulPrint"
  lit? := some fun v => return .text (← written v)
  neg? := some fun v => return .text (negText (← written v))
  add? := some (writtenPair addText)
  mul? := tier.ifExtended (writtenPair mulText)

end Symantics.Interp
