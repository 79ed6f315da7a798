import Symantics.Value.Basic

/-
  Sameness of values and whether a value can be hashed.

  Numbers are the same when they are equal as numbers, whatever their kind (a
  truth value counts as 0 or 1); records when they hold the same fields in any
  order; trees when they agree node by node. Lists and records have no hash, and
  nothing that holds one has.
-/
namespace Symantics.Value

/-- The exact number of a numeric value: sign, numerator, denominator. -/
def number? : Value → Option (Int × Nat)
  | float x => x.ratio?.map fun (num, den) => (if x.isNegative then -(num : Int) else num, den)
  | v => v.integer?.map fun n => (n, 1)

def sameNumber (a b : Value) : Bool :=
  match a, b with
  | float (.infinite s), float (.infinite t) => s == t
  | _, _ => match a.number?, b.number? with
    | some (x, d), some (y, e) => x * e == y * d
    | _, _ => false

mutual

def same : Value → Value → Bool
  | null, null => true
  | text s, text t => s == t
  | list vs, list ws => sameAll vs ws
  | tuple vs, tuple ws => sameAll vs ws
  | record fs, record gs => fs.length == gs.length && sameFields fs gs
  | leaf v, leaf w => same v w
  | node t vs, node u ws => same t u && sameAll vs ws
  | v, w => sameNumber v w

/-- Whether two lists hold the same values in the same order. -/
def sameAll : List Value → List Value → Bool
  | [], [] => true
  | v :: vs, w :: ws => same v w && sameAll vs ws
  | _, _ => false

/-- Whether every field of the first record is in the second. -/
def sameFields : List (String × Value) → List (String × Value) → Bool
  | [], _ => true
  | (name, v) :: fs, gs =>
    (match gs.lookup name with
      | some w => same v w
      | none => false) && sameFields fs gs

end

mutual

/-- The first part, in reading order, that keeps the value from being hashed. -/
def unhashable? : Value → Option Value
  | list vs => some (list vs)
  | record fs => some (record fs)
  | tuple vs => unhashableAmong? vs
  | leaf v => unhashable? v
  | node tag vs => (unhashable? tag).or (unhashableAmong? vs)
  | _ => none

def unhashableAmong? : List Value → Option Value
  | [] => none
  | v :: vs => (unhashable? v).or (unhashableAmong? vs)

end

end Symantics.Value
