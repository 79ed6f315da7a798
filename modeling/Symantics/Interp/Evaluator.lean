import Symantics.Interp.Basic
import Symantics.Value.Arithmetic

/-
  Checked evaluation.

  Every result is an integer within the evaluator's width: a literal, a negation, a
  sum or a product outside it is an overflow, and nothing wraps or saturates. The
  unbounded width admits every integer. Operands are not checked to be integers
  first, so an operand of another kind fails where the arithmetic or the comparison
  with the bounds refuses it.
-/
namespace Symantics

/-- The width of an evaluator: none, or that of signed numbers of at least two bits. -/
inductive Width where
  | unbounded
  | signed (bits : Nat) (two_le : 2 ≤ bits)
  deriving DecidableEq, Repr

namespace Width

/-- The width of so many bits, if they are enough and there is room for its bounds. -/
def ofBits (bits : Int) : Except Failure Width :=
  if h : 2 ≤ bits then
    if Capacity.integerWords < Capacity.wordsOfPower (bits.toNat - 1) then .error (.misuse .tooWide)
    else if 64 * Capacity.memory < bits then .error (.misuse .outOfMemory)
    else .ok (.signed bits.toNat (by omega))
  else .error (.misuse (.showing bits (.tooNarrow bits)))

/-- The width that evaluators have unless told otherwise. -/
def standard : Width := .signed 64 (by decide)

/-- The least and greatest number of `bits` bits. -/
def bounds? : Width → Option (Int × Int)
  | unbounded => none
  | signed bits _ => some (-(Nat.pow 2 (bits - 1) : Nat), (Nat.pow 2 (bits - 1) : Nat) - 1)

/-- Whether a number is within the width. -/
def admits (w : Width) (n : Int) : Bool :=
  match w.bounds? with
  | none => true
  | some (least, greatest) => least ≤ n && n ≤ greatest

/-- The width as an evaluator's name shows it. -/
def shown : Width → String
  | unbounded => "unbounded"
  | signed bits _ => toString bits

end Width

namespace Interp

variable {σ : Type}

def evaluatorKind : Tier → String
  | .base => "IntEval"
  | .extended => "IntMulEval"

def evaluatorName (tier : Tier) (width : Width) : String :=
  evaluatorKind tier ++ "[" ++ width.shown ++ "]"

/-- The failure of an operation whose result is out of range. -/
def overflow (name operation : String) (operands : List Int) (bits : Nat) : Failure :=
  match Fault.overflow? operation operands bits { interpretation := some name } with
  | some f => .fault f
  | none => .misuse .tooManyDigits

/-- A result within the width, or an overflow of the operation that gave it. -/
def checked (name : String) (width : Width) (operation : String) (operands : List Value)
    (result : Value) : Run σ Value :=
  match width with
  | .unbounded => pure result
  | .signed bits _ => match result.integer? with
    | none => .misuse (.notComparable "<=" "int" result.kind)
    | some n =>
      if width.admits n then pure result
      else throw (overflow name operation (operands.filterMap (·.integer?)) bits)

def evaluator (tier : Tier) (width : Width) : Interp σ where
  kind := evaluatorKind tier
  ownName := evaluatorName tier width
  lit? := some fun v => check "lit" [v] (.ok v)
  neg? := some fun v => check "neg" [v] v.negated
  add? := some fun v w => check "add" [v, w] (v.sum w)
  mul? := tier.ifExtended fun v w => check "mul" [v, w] (v.product w)
where
  -- Checks a result, if the operands have one.
  check (operation : String) (operands : List Value) : Except Misuse Value → Run σ Value
    | .ok result => checked (evaluatorName tier width) width operation operands result
    | .error m => .misuse m

end Interp

end Symantics
