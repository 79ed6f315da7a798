import Symantics.Capacity
import Symantics.Failure

/-
  Arithmetic on values of any kind.

  Integers and truth values are added and multiplied as integers. Texts, lists and
  tuples are sequences: two of a kind are joined by a sum, and a product with an
  integer repeats one, as far as there is room. Anything else is a misuse.
-/
namespace Symantics.Value

/-- Whether the value is a sequence, for the wording of misuses. -/
def isSequence : Value → Bool
  | text _ | list _ | tuple _ => true
  | _ => false

def negated (v : Value) : Except Misuse Value :=
  match v.integer? with
  | some n => .ok (int (-n))
  | none => .error (.noNegation v.kind)

/-- The sum of two integers, or one sequence after another of its kind. -/
def sum (v w : Value) : Except Misuse Value :=
  match v.integer?, w.integer? with
  | some m, some n => .ok (int (m + n))
  | _, _ => match v, w with
    | text s, text t => .ok (text (s ++ t))
    | list vs, list ws => .ok (list (vs ++ ws))
    | tuple vs, tuple ws => .ok (tuple (vs ++ ws))
    | v, w =>
      if v.isSequence then .error (.notConcatenable v.kind w.kind)
      else .error (.noOperator "+" v.kind w.kind)

/-- How often a value says that a sequence is to be repeated; a negative integer counts as zero. -/
def repetitions (count : Value) : Except Misuse Nat :=
  match count.integer? with
  | none => .error (.notRepeatable count.kind)
  | some n => if Capacity.isIndex n then .ok n.toNat else .error .hugeCount

/-- Items `n` times over, if there is memory for that many. -/
def copies {α : Type} (n : Nat) (items : List α) : Except Misuse (List α) :=
  if items.isEmpty then .ok []
  else if Capacity.memory < items.length * n then .error .outOfMemory
  else .ok (List.replicate n items).flatten

def textCopies (n : Nat) (s : String) : Except Misuse String :=
  if Capacity.greatestIndex < s.length * n then .error .hugeText
  else (copies n s.toList).map String.ofList

/-- A sequence repeated as often as another value says. -/
def repeated (sequence count : Value) : Except Misuse Value := do
  let n ← repetitions count
  match sequence with
  | text s => return text (← textCopies n s)
  | list vs => return list (← copies n vs)
  | tuple vs => return tuple (← copies n vs)
  | v => .error (.notRepeatable v.kind)

/-- The product of two integers, or a sequence repeated. -/
def product (v w : Value) : Except Misuse Value :=
  match v.integer?, w.integer? with
  | some m, some n => .ok (int (m * n))
  | _, _ =>
    if v.isSequence then repeated v w
    else if w.isSequence then repeated w v
    else .error (.noOperator "*" v.kind w.kind)

end Symantics.Value
