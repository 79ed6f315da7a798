import Symantics.Interp.Basic

/-
  Programs.

  A program of the language is what it does under each interpretation, and so is
  written once for all of them. The sample programs below are written with the
  methods themselves, so one that multiplies fails where the multiplication is
  looked up, not before.
-/
namespace Symantics

/-- A program of the language: what it does under each interpretation. -/
abbrev Program (σ : Type) := Interp σ → Run σ Value

namespace Program

variable {σ : Type}

/-- `8 + -(1 + 2)` -/
def sum : Program σ := fun I => I.addOf (I.litOf 8) (I.negOf (I.addOf (I.litOf 1) (I.litOf 2)))

/-- `8 + -(1 * 2)` -/
def sumOfProduct : Program σ := fun I =>
  I.addOf (I.litOf 8) (I.negOf (I.mulOf (I.litOf 1) (I.litOf 2)))

/-- `7 * (8 + -(1 + 2))`: a program of the base tier inside one of the extended tier. -/
def sevenfoldSum : Program σ := fun I => I.mulOf (I.litOf 7) (sum I)

/-- `(42 + -10) * 7` -/
def productOfSum : Program σ := fun I =>
  I.mulOf (I.addOf (I.litOf 42) (I.negOf (I.litOf 10))) (I.litOf 7)

end Program

end Symantics
