import Symantics.Interp.Basic

/-
  Products of interpretations.

  A product runs two interpretations in lockstep: its results are pairs, and every
  operation goes to the first component with the first halves and then to the
  second with the second halves. Products nest to the right for more than two
  components, and `unnest` turns the nested pairs of such a run into one tuple.
-/
namespace Symantics

namespace Value

/-- Exactly so many parts of a value. -/
def unpack (count : Nat) (v : Value) : Except Misuse (List Value) :=
  match v.parts? with
  | none => .error (.notUnpackable v.kind)
  | some vs =>
    if vs.length < count then .error (.tooFewParts count vs.length)
    else if count < vs.length then .error (.tooManyParts count)
    else .ok vs

def halves (v : Value) : Except Misuse (Value × Value) :=
  match v.unpack 2 with
  | .ok [a, b] => .ok (a, b)
  | .ok vs => .error (.tooFewParts 2 vs.length)
  | .error m => .error m

def pair (a b : Value) : Value := tuple [a, b]

/-- The tuple of the first `count` components of right-nested pairs. -/
def unnest (count : Int) (v : Value) : Except Failure Value :=
  if count < 1 then .error (.misuse (.showing count (.tooFewResults count)))
  else (spread (count.toNat - 1) v).map tuple
where
  -- The heads of so many pairs, each the second half of the one before, and what remains.
  spread : Nat → Value → Except Failure (List Value)
    | 0, v => .ok [v]
    | n + 1, v => match v.halves with
      | .error m => .error (.misuse m)
      | .ok (head, rest) => (spread n rest).map (head :: ·)

end Value

namespace Interp

variable {σ : Type}

def halves (v : Value) : Run σ (Value × Value) :=
  match v.halves with
  | .ok p => pure p
  | .error m => .misuse m

/-- An operation on one operand, done by both components in turn. -/
def pairedOne (first second : Run σ (Value → Run σ Value)) (v : Value) : Run σ Value := do
  let (a, b) ← halves v
  let x ← (← first) a
  let y ← (← second) b
  return .pair x y

/-- An operation on two operands, done by both components in turn. -/
def pairedTwo (first second : Run σ (Value → Value → Run σ Value)) (v w : Value) :
    Run σ Value := do
  let (a, b) ← halves v
  let (c, d) ← halves w
  let x ← (← first) a c
  let y ← (← second) b d
  return .pair x y

def productKind : Tier → String
  | .base => "Duplicate"
  | .extended => "MulDuplicate"

/-- The product of a tier; its components are not checked. -/
def product (tier : Tier) (first second : Interp σ) : Interp σ where
  kind := productKind tier
  ownName := productKind tier ++ "(" ++ first.name ++ ", " ++ second.name ++ ")"
  lit? := some fun v => do
    let x ← (← first.lit) v
    let y ← (← second.lit) v
    return .pair x y
  neg? := some (pairedOne first.neg second.neg)
  add? := some (pairedTwo first.add second.add)
  mul? := tier.ifExtended (pairedTwo first.mul second.mul)

def baseProduct (first second : Interp σ) : Interp σ := product .base first second

/-- The product in the extended tier, which both components must support. -/
def mulProduct (first second : Interp σ) : Except Failure (Interp σ) :=
  match [first, second].filter (!·.hasMul) with
  | [] => .ok (product .extended first second)
  | missing => .error (.misuse (.componentsWithoutMul (missing.map name)))

/-- The product in the highest tier that both components support. -/
def bestProduct (first second : Interp σ) : Interp σ :=
  product (if first.hasMul && second.hasMul then .extended else .base) first second

/-- The right-nested product of at least one interpretation. -/
def productOf : List (Interp σ) → Except Failure (Interp σ)
  | [] => .error (.misuse .emptyProduct)
  | I :: Is => .ok (nested I Is)
where
  -- The right-nested product of a first interpretation and the others.
  nested (I : Interp σ) : List (Interp σ) → Interp σ
    | [] => I
    | J :: Js => bestProduct I (nested J Js)

end Interp

end Symantics
