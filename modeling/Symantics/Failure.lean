import Symantics.Fault
import Symantics.Report
import Symantics.Template.Fill
import Symantics.Value.Show

/-
  Failures.

  An operation fails in one of four ways: with a fault of the library, with a
  report on data that was checked and found wrong, because a value was used in a
  way that its kind does not allow, or in a way of an interpretation's own. A
  misuse says what was attempted; `Misuse.message` words it. `Failure.kind` names the
  sort of error that a failure is.
-/
namespace Symantics

/-- A use that the values at hand do not allow. -/
inductive Misuse where
  -- The value, as quoted, stands where an expression is expected.
  | notExpression (shown : String)
  -- The named interpretation has no multiplication.
  | noMul (name : String)
  -- A product with multiplication was asked for, and these components have none.
  | componentsWithoutMul (names : List String)
  | noAttribute (kind name : String)
  | notIterable (kind : String)
  | notUnpackable (kind : String)
  | tooFewParts (expected found : Nat)
  | tooManyParts (expected : Nat)
  -- The piece at `index` of a text to be joined is no text.
  | notJoinable (index : Nat) (kind : String)
  | unhashable (kind : String)
  | noNegation (kind : String)
  | noOperator (symbol left right : String)
  | notConcatenable (kind other : String)
  | notRepeatable (kind : String)
  -- A sequence was to be repeated more often than there are positions.
  | hugeCount
  -- A repeated text would have more characters than there are positions.
  | hugeText
  -- There is no memory for the result.
  | outOfMemory
  | notComparable (symbol left right : String)
  -- The text of an integer would have more digits than allowed.
  | tooManyDigits
  | tooNarrow (bits : Int)
  -- The bounds of a width would have more words than an integer may have.
  | tooWide
  | tooShallow (depth : Int)
  | emptyProduct
  | tooFewResults (count : Int)
  -- The value, as quoted, is no member of the family.
  | notMember (shown family : String)
  -- The value, as quoted, names no level of logging.
  | notLevel (shown : String)
  -- The value, as quoted, is neither the number nor the name of a level.
  | noLevel (shown : String)
  -- A value of this kind has no JSON form.
  | notJson (kind : String)
  | negativeIndent
  -- An indent is greater than any count.
  | hugeIndent
  -- A value of this kind is no indent.
  | notIndent (kind : String)
  -- A message cannot be filled in with its arguments.
  | badTemplate (d : Template.Defect)
  deriving DecidableEq, Repr, Inhabited

namespace Misuse

def message : Misuse → String
  | notExpression shown => "Not an expression: " ++ shown
  | noMul name => name ++ " does not support mul"
  | componentsWithoutMul names =>
    "MulDuplicate requires both components to support mul; missing on: " ++ ", ".intercalate names
  | noAttribute kind name => "'" ++ kind ++ "' object has no attribute '" ++ name ++ "'"
  | notIterable kind => "'" ++ kind ++ "' object is not iterable"
  | notUnpackable kind => "cannot unpack non-iterable " ++ kind ++ " object"
  | tooFewParts expected found =>
    "not enough values to unpack (expected " ++ toString expected ++ ", got " ++ toString found ++ ")"
  | tooManyParts expected => "too many values to unpack (expected " ++ toString expected ++ ")"
  | notJoinable index kind =>
    "sequence item " ++ toString index ++ ": expected str instance, " ++ kind ++ " found"
  | unhashable kind => "unhashable type: '" ++ kind ++ "'"
  | noNegation kind => "bad operand type for unary -: '" ++ kind ++ "'"
  | noOperator symbol left right =>
    "unsupported operand type(s) for " ++ symbol ++ ": '" ++ left ++ "' and '" ++ right ++ "'"
  | notConcatenable kind other =>
    "can only concatenate " ++ kind ++ " (not \"" ++ other ++ "\") to " ++ kind
  | notRepeatable kind => "can't multiply sequence by non-int of type '" ++ kind ++ "'"
  | hugeCount => "cannot fit 'int' into an index-sized integer"
  | hugeText => "repeated string is too long"
  | outOfMemory => ""
  | notComparable symbol left right =>
    "'" ++ symbol ++ "' not supported between instances of '" ++ left ++ "' and '" ++ right ++ "'"
  | tooManyDigits =>
    "Exceeds the limit (4300 digits) for integer string conversion; " ++
      "use sys.set_int_max_str_digits() to increase the limit"
  | tooNarrow bits => "bits must be >= 2, got " ++ Decimal.text bits
  | tooWide => "too many digits in integer"
  | tooShallow depth => "max_depth must be >= 1, got " ++ Decimal.text depth
  | emptyProduct => "duplicate_all needs at least one interpretation"
  | tooFewResults count => "count must be >= 1, got " ++ Decimal.text count
  | notMember shown family => shown ++ " is not a valid " ++ family
  | notLevel shown => "Unknown level: " ++ shown
  | noLevel shown => "Level not an integer or a valid string: " ++ shown
  | notJson kind => "Object of type " ++ kind ++ " is not JSON serializable"
  | negativeIndent => "can't convert negative int to unsigned"
  | hugeIndent => "int too big to convert"
  | notIndent kind =>
    "argument 'indent': '" ++ kind ++ "' object cannot be interpreted as an integer"
  | badTemplate d => d.message

/-- The sort of error that a misuse is. -/
def kind : Misuse → String
  | noAttribute _ _ => "AttributeError"
  | tooFewParts _ _ | tooManyParts _ | tooManyDigits | tooNarrow _ | tooShallow _ | emptyProduct
  | tooFewResults _ | notMember _ _ | notLevel _ => "ValueError"
  | hugeCount | hugeText | tooWide | negativeIndent | hugeIndent => "OverflowError"
  | outOfMemory => "MemoryError"
  | badTemplate d => d.kind
  | notExpression _ | noMul _ | componentsWithoutMul _ | notIterable _ | notUnpackable _
  | notJoinable _ _ | unhashable _ | noNegation _ | noOperator _ _ _ | notConcatenable _ _
  | notRepeatable _ | notComparable _ _ _ | noLevel _ | notJson _ | notIndent _ => "TypeError"

/-- A misuse whose wording shows `n`; showing it is a misuse of its own when it has too many
digits. -/
def showing (n : Int) (misuse : Misuse) : Misuse :=
  if Decimal.fits n then misuse else tooManyDigits

end Misuse

/-- Why an operation gave no result. -/
inductive Failure where
  | fault (f : Fault)
  | invalid (r : Report)
  | misuse (m : Misuse)
  -- A failure of an interpretation's own, by kind and message.
  | custom (kind message : String)
  deriving Repr, Inhabited

namespace Failure

/-- The sort of error that a failure is. -/
def kind : Failure → String
  | fault f => f.kind
  | invalid _ => "ValidationError"
  | misuse m => m.kind
  | custom kind _ => kind

/-- Whether the failure is a tree or document that could not be decoded. -/
def isDecoding : Failure → Bool
  | fault f => f.isDecoding
  | _ => false

end Failure

/-- A value's text, as messages quote it, or the misuse of a number too long for that. -/
def Value.shown (v : Value) : Except Failure String :=
  match v.shown? with
  | some s => .ok s
  | none => .error (.misuse .tooManyDigits)

/-- A value's text, as it stands in a text, or the misuse of a number too long for that. -/
def Value.written (v : Value) : Except Failure String :=
  match v.text? with
  | some s => .ok s
  | none => .error (.misuse .tooManyDigits)

end Symantics
