import Symantics.Program

/-
  Expressions as data.

  An expression is a literal, a negation, a sum or a product. Where data from
  outside may stand in place of an expression, `ν` is the type of what may: in
  `Exp Value` any value, in `Exp` (that is, `Exp Empty`) nothing, so that every
  function below succeeds on it but for the length of a number's text.

  `eval` and `render` say what an expression means and how it is written;
  `run` replays it under any interpretation, left operand first.
-/
namespace Symantics

inductive Exp (ν : Type := Empty) where
  | lit (n : Int)
  | neg (operand : Exp ν)
  | add (left right : Exp ν)
  | mul (left right : Exp ν)
  -- Something that is no expression.
  | stray (v : ν)
  deriving Repr, DecidableEq

/-- What may stand in place of an expression is a value. -/
class Stray (ν : Type) where
  toValue : ν → Value

instance : Stray Empty := ⟨Empty.elim⟩
instance : Stray Value := ⟨id⟩

namespace Exp

variable {ν σ : Type} [Stray ν]

/-- The failure of taking a value for an expression. -/
def notExpression (v : ν) : Failure :=
  match (Stray.toValue v).shown with
  | .ok shown => .misuse (.notExpression shown)
  | .error e => e

/-- The number that the expression denotes. -/
def eval : Exp ν → Except Failure Int
  | lit n => .ok n
  | neg e => return -(← eval e)
  | add l r => do
    let a ← eval l
    return a + (← eval r)
  | mul l r => do
    let a ← eval l
    return a * (← eval r)
  | stray v => .error (notExpression v)

/-- The expression as infix text, in parentheses throughout. -/
def render : Exp ν → Except Failure String
  | lit n => (Value.int n).written
  | neg e => return "(- " ++ (← render e) ++ ")"
  | add l r => do
    let a ← render l
    return "(" ++ a ++ " + " ++ (← render r) ++ ")"
  | mul l r => do
    let a ← render l
    return "(" ++ a ++ " * " ++ (← render r) ++ ")"
  | stray v => .error (notExpression v)

/-- The number of negations, sums and products. -/
def operationCount : Exp ν → Except Failure Nat
  | lit _ => .ok 0
  | neg e => return 1 + (← operationCount e)
  | add l r | mul l r => do
    let a ← operationCount l
    return 1 + a + (← operationCount r)
  | stray v => .error (notExpression v)

/-- Replays the expression as calls on an interpretation. A product is refused before its
operands run when the interpretation has no multiplication. -/
def run (I : Interp σ) : Exp ν → Run σ Value
  | lit n => I.litOf n
  | neg e => I.negOf (run I e)
  | add l r => do
    let a ← run I l
    let add ← I.add
    add a (← run I r)
  | mul l r => do
    I.requireMul
    let a ← run I l
    let mul ← I.mul
    mul a (← run I r)
  | stray v => throw (notExpression v)

def program (e : Exp ν) : Program σ := fun I => e.run I

/-- The nesting of operations, a literal counting as one level. -/
def height : Exp ν → Nat
  | lit _ | stray _ => 1
  | neg e => 1 + height e
  | add l r | mul l r => 1 + max (height l) (height r)

def hasMul : Exp ν → Bool
  | lit _ | stray _ => false
  | neg e => hasMul e
  | add l r => hasMul l || hasMul r
  | mul _ _ => true

end Exp

end Symantics
