import Symantics.Binary64.Shortest

/-
  Floating-point numbers with a chosen number of digits.

  A number is rounded to so many places behind the point (`fixed`), or to so many
  digits behind the first one, with an exponent (`exponential`). `general` counts
  all digits, takes the exponent only where the first digit stands far from the
  point, and drops zeros at the end. Rounding is exact, a tie to the even neighbour.
  No number has more than `exactDigits` digits, so places beyond them hold zeros.
  With `keepPoint` the point stays even if no digit follows it, and `general` keeps
  its zeros.
-/
namespace Symantics.Binary64

/-- Digits behind the point, with the point. -/
def fractionChars (keepPoint : Bool) (ds : List Char) : List Char :=
  if ds.isEmpty && !keepPoint then [] else '.' :: ds

/-- A bound on the digits of a number, and on the places behind its point, that are not zero. -/
def exactDigits : Nat := 1100

/-- `num / den` with `places` digits behind the point. -/
def fixed (num den places : Nat) (keepPoint : Bool) : List Char :=
  let exact := min places exactDigits
  let ds := Nat.toDigits 10 (roundDiv (num * Nat.pow 10 exact) den)
  let ds := List.replicate (exact + 1 - ds.length) '0' ++ ds
  let fraction := ds.drop (ds.length - exact) ++ List.replicate (places - exact) '0'
  ds.take (ds.length - exact) ++ fractionChars keepPoint fraction

/-- `num / den`, not zero, rounded to `count` digits: the digits, and the exponent of the first
one. -/
def rounded (num den count : Nat) : List Char × Int :=
  let p := places num den
  let e := p - count
  let n := roundDiv (num * (powTen e).2) (den * (powTen e).1)
  if n = Nat.pow 10 count then (Nat.toDigits 10 (n / 10), p) else (Nat.toDigits 10 n, p - 1)

/-- The first `count` digits of `num / den`, and the exponent of the first one. -/
def leading (num den count : Nat) : List Char × Int :=
  if num = 0 then (List.replicate count '0', 0)
  else
    let exact := min count exactDigits
    let (ds, exponent) := rounded num den exact
    (ds ++ List.replicate (count - exact) '0', exponent)

def withExponent (ds : List Char) (exponent : Int) (keepPoint : Bool) : List Char :=
  ds.take 1 ++ fractionChars keepPoint (ds.drop 1) ++ 'e' :: exponentChars exponent

/-- `num / den` with `places` digits behind the first one. -/
def exponential (num den places : Nat) (keepPoint : Bool) : List Char :=
  let (ds, exponent) := leading num den (places + 1)
  withExponent ds exponent keepPoint

/-- `num / den` with so many digits in all. -/
def general (num den count : Nat) (keepPoint : Bool) : List Char :=
  let count := max 1 (if keepPoint then count else min count exactDigits)
  let (ds, exponent) := leading num den count
  let shorten (ds : List Char) := if keepPoint then ds else (ds.reverse.dropWhile (· = '0')).reverse
  if exponent < -4 ∨ (count : Int) ≤ exponent then
    withExponent (ds.take 1 ++ shorten (ds.drop 1)) exponent keepPoint
  else
    let (whole, fraction) :=
      if exponent < 0 then (['0'], List.replicate (-exponent - 1).toNat '0' ++ ds)
      else (ds.take (exponent.toNat + 1), ds.drop (exponent.toNat + 1))
    whole ++ fractionChars keepPoint (shorten fraction)

end Symantics.Binary64
