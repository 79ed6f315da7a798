/-
  Binary floating-point numbers of 64 bits, as exact values.

  A finite number is `m · 2^q` with a sign; `ofRatio` rounds any non-negative
  ratio to the nearest one (a tie to the even mantissa), and overflows to an
  infinity. All arithmetic is on `Nat`, so every value here can be reasoned about.
-/
namespace Symantics

/-- A 64-bit floating-point number. `finite s m q` is `m · 2^q`, negated when `s`; `ofRatio`
gives `2^52 ≤ m < 2^53`, or `m < 2^53` with `q = -1074`. -/
inductive Binary64 where
  | finite (negative : Bool) (m : Nat) (q : Int)
  | infinite (negative : Bool)
  | nan
  deriving DecidableEq, Repr, Inhabited

namespace Binary64

/-- `num / den` rounded to the nearest natural number, a tie to the even one. -/
def roundDiv (num den : Nat) : Nat :=
  let d := num / den
  let r := num % den
  if 2 * r < den then d else if den < 2 * r then d + 1 else d + d % 2

/-- `b^q` as a numerator and a denominator. -/
def powOf (b : Nat) (q : Int) : Nat × Nat := (Nat.pow b q.toNat, Nat.pow b (-q).toNat)

def powTwo (q : Int) : Nat × Nat := powOf 2 q

def powTen (q : Int) : Nat × Nat := powOf 10 q

/-- The least mantissa of 53 bits. -/
def mantissaLow : Nat := 0x10000000000000

/-- The least number that has more than 53 bits. -/
def mantissaEnd : Nat := 0x20000000000000

/-- `num / den` in units of `2^q`, rounded. -/
def mantissaAt (num den : Nat) (q : Int) : Nat :=
  roundDiv (num * (powTwo q).2) (den * (powTwo q).1)

/-- The exponent at which `num / den` has a mantissa of 53 bits, or the least one. -/
def exponentFor (num den : Nat) : Int :=
  let q : Int := num.log2 - den.log2 - 53
  let q := if num * (powTwo q).2 / (den * (powTwo q).1) < mantissaEnd then q else q + 1
  max q (-1074)

/-- The floating-point number nearest to `num / den`, with the given sign. -/
def ofRatio (negative : Bool) (num den : Nat) : Binary64 :=
  if num = 0 then .finite negative 0 (-1074)
  else
    let q := exponentFor num den
    let m := mantissaAt num den q
    let (m, q) := if m = mantissaEnd then (mantissaLow, q + 1) else (m, q)
    if 971 < q then .infinite negative else .finite negative m q

/-- The floating-point number nearest to `digits · 10^exponent`. Beyond a thousand places the
answer no longer depends on the digits. -/
def ofDecimal (negative : Bool) (digits : Nat) (exponent : Int) : Binary64 :=
  let places : Int := (Nat.toDigits 10 digits).length + exponent
  if digits = 0 ∨ places < -1000 then .finite negative 0 (-1074)
  else if 1000 < places then .infinite negative
  else ofRatio negative (digits * (powTen exponent).1) (powTen exponent).2

/-- The absolute value as a numerator and a denominator; none for infinities and NaN. -/
def ratio? : Binary64 → Option (Nat × Nat)
  | .finite _ m q => some (m * (powTwo q).1, (powTwo q).2)
  | _ => none

/-- Whether the number carries a minus sign. -/
def isNegative : Binary64 → Bool
  | .finite s _ _ => s
  | .infinite s => s
  | .nan => false

/-- The integer towards zero from a finite number. -/
def truncate? (x : Binary64) : Option Int :=
  x.ratio?.map fun (num, den) => if x.isNegative then -(num / den : Int) else (num / den : Int)

/-- The integer that the number is, if it is one. -/
def toInt? (x : Binary64) : Option Int :=
  match x.ratio? with
  | some (num, den) => if num % den = 0 then x.truncate? else none
  | none => none

end Binary64

end Symantics
