import Symantics.Interp.Basic

/-
  Recording calls.

  A recorder stands before another interpretation: it notes the name of each method
  that is called on it and then calls that method of the other one. It notes the
  call even where the other lacks the method, and it has a multiplication exactly
  when the other does.
-/
namespace Symantics.Interp

variable {σ : Type}

/-- Notes every call in the state, by `note`, and passes it on to `I`. -/
def recorder (note : String → σ → σ) (I : Interp σ) : Interp σ where
  kind := if I.mul?.isSome then "MulTrace" else "Trace"
  lit? := some fun v => do
    modify (note "lit")
    (← I.lit) v
  neg? := some fun v => do
    modify (note "neg")
    (← I.neg) v
  add? := some fun v w => do
    modify (note "add")
    (← I.add) v w
  mul? := I.mul?.map fun mul v w => do
    modify (note "mul")
    mul v w

end Symantics.Interp
