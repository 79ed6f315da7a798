import Symantics.Failure

/-
  Interpretations.

  The language has literals, negation, addition and, in its extended tier,
  multiplication. An interpretation says what each of them does: it is a record of
  methods, some of which it may lack. A run of a program under an interpretation
  may fail, and acts on a state `σ` of the interpretation's choosing; the state
  survives a failure, so what was done before one can be told.

  Looking a method up is an act of its own: it fails where the method is missing,
  before the operands of the call are computed.
-/
namespace Symantics

/-- The tiers of the language: without and with multiplication. -/
inductive Tier where
  | base
  | extended
  deriving DecidableEq, Repr

/-- What only the extended tier has. -/
def Tier.ifExtended {M : Type} (a : M) : Tier → Option M
  | .base => none
  | .extended => some a

/-- A computation with state that may fail and keeps its state when it does. -/
abbrev Run (σ α : Type) := ExceptT Failure (StateM σ) α

namespace Run

variable {σ α : Type}

/-- The outcome of a run and the state after it. -/
def exec (s : σ) (r : Run σ α) : Except Failure α × σ := Id.run (StateT.run (ExceptT.run r) s)

def misuse (m : Misuse) : Run σ α := throw (.misuse m)

def fault (f : Fault) : Run σ α := throw (.fault f)

/-- An outcome that does not depend on the state. -/
def ofExcept : Except Failure α → Run σ α
  | .ok a => pure a
  | .error e => throw e

end Run

/-- The methods of an interpretation. `kind` names what sort of interpretation it is;
`ownName` is the name it gives itself, if it describes itself: a fixed name, for display. -/
structure Interp (σ : Type) where
  kind : String
  ownName : Option String := none
  lit? : Option (Value → Run σ Value) := none
  neg? : Option (Value → Run σ Value) := none
  add? : Option (Value → Value → Run σ Value) := none
  mul? : Option (Value → Value → Run σ Value) := none

namespace Interp

variable {σ : Type}

def hasBase (I : Interp σ) : Bool := I.lit?.isSome && I.neg?.isSome && I.add?.isSome

def hasMul (I : Interp σ) : Bool := I.hasBase && I.mul?.isSome

/-- The name of an interpretation, for display. A description promises a stable name, so it is
taken as data: asking for it neither fails nor depends on the state. -/
def name (I : Interp σ) : String := I.ownName.getD I.kind

/-- Looks a method up. -/
def method {M : Type} (I : Interp σ) (name : String) : Option M → Run σ M
  | some f => pure f
  | none => .misuse (.noAttribute I.kind name)

def lit (I : Interp σ) : Run σ (Value → Run σ Value) := I.method "lit" I.lit?

def neg (I : Interp σ) : Run σ (Value → Run σ Value) := I.method "neg" I.neg?

def add (I : Interp σ) : Run σ (Value → Value → Run σ Value) := I.method "add" I.add?

def mul (I : Interp σ) : Run σ (Value → Value → Run σ Value) := I.method "mul" I.mul?

/-- Fails unless the extended tier is interpreted. -/
def requireMul (I : Interp σ) : Run σ Unit :=
  if I.hasMul then pure () else .misuse (.noMul I.name)

/-! ## Terms of the language, written once for all interpretations

The method is looked up first; then the operands run, left before right. -/

def litOf (I : Interp σ) (n : Int) : Run σ Value := do
  let lit ← I.lit
  lit (.int n)

def negOf (I : Interp σ) (operand : Run σ Value) : Run σ Value := do
  let neg ← I.neg
  neg (← operand)

def addOf (I : Interp σ) (left right : Run σ Value) : Run σ Value := do
  let add ← I.add
  let a ← left
  add a (← right)

def mulOf (I : Interp σ) (left right : Run σ Value) : Run σ Value := do
  let mul ← I.mul
  let a ← left
  mul a (← right)

end Interp

end Symantics
