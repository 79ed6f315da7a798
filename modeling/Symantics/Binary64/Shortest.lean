import Symantics.Binary64.Basic

/-
  The shortest decimal of a floating-point number.

  Of the decimals that round to a given number, `shortest` finds one with the
  fewest digits, and of those the nearest to the number. On the grid of decimals
  with a given last place only the two neighbours of the number have to be
  tried: if any point of the grid rounds to it, one of them does. `text` sets the
  result positionally when its first digit stands between 10^-4 and 10^15, and
  with an exponent of at least two digits otherwise.
-/
namespace Symantics.Binary64

/-- A positive decimal `digits · 10^exponent`. -/
structure Scaled where
  digits : Nat
  exponent : Int
  deriving DecidableEq, Repr

/-- The numbers that round to `m · 2^q`, in units of `2^(q-2)`: from `4m - below` to `4m + 2`,
ends included when `m` is even. Below a power of two the next number is half as far. -/
def below (m : Nat) (q : Int) : Nat := if m = mantissaLow ∧ -1074 < q then 1 else 2

/-- Compares `c · 10^e` with `x · 2^p`. -/
def compareDecimal (c : Nat) (e : Int) (x : Nat) (p : Int) : Ordering :=
  compare (c * (powTen e).1 * (powTwo p).2) (x * (powTwo p).1 * (powTen e).2)

/-- Whether `c · 10^e` rounds to `m · 2^q`. -/
def roundsTo (m : Nat) (q : Int) (c : Nat) (e : Int) : Bool :=
  let low := compareDecimal c e (4 * m - below m q) (q - 2)
  let high := compareDecimal c e (4 * m + 2) (q - 2)
  if m % 2 = 0 then low.isGE && high.isLE else low.isGT && high.isLT

/-- The number of places before the point of `num / den`: the `p` with
`10^(p-1) ≤ num / den < 10^p`. The search starts at or below it. -/
def places (num den : Nat) : Int :=
  let start : Int := ((num.log2 : Int) - den.log2 - 1) * 30103 / 100000 - 1
  let rec climb : Nat → Int → Int
    | 0, p => p
    | n + 1, p => if num * (powTen p).2 < den * (powTen p).1 then p else climb n (p + 1)
  climb 8 start

/-- The decimal with `n` digits that rounds to `m · 2^q` and is nearest to it, if there is one. -/
def withDigits? (m : Nat) (q : Int) (num den : Nat) (p : Int) (n : Nat) : Option Scaled :=
  let e := p - n
  let scaledNum := num * (powTen e).2
  let scaledDen := den * (powTen e).1
  let c := scaledNum / scaledDen
  match roundsTo m q c e, roundsTo m q (c + 1) e with
  | true, true => some ⟨roundDiv scaledNum scaledDen, e⟩
  | true, false => some ⟨c, e⟩
  | false, true => some ⟨c + 1, e⟩
  | false, false => none

/-- The shortest decimal that rounds to `m · 2^q`, for `m` not zero. -/
def shortest (m : Nat) (q : Int) : Scaled :=
  let num := m * (powTwo q).1
  let den := (powTwo q).2
  let p := places num den
  let rec search : Nat → Nat → Scaled
    | 0, n => ⟨roundDiv (num * (powTen (p - n)).2) (den * (powTen (p - n)).1), p - n⟩
    | k + 1, n => match withDigits? m q num den p n with
      | some d => d
      | none => search k (n + 1)
  search 16 1

/-- An exponent with its sign and at least two digits. -/
def exponentChars (x : Int) : List Char :=
  let ds := Nat.toDigits 10 x.natAbs
  (if x < 0 then '-' else '+') :: (if ds.length < 2 then '0' :: ds else ds)

/-- Digits `ds` with the point after the first `point` of them, and at least one digit on each
side of it. -/
def positional (ds : List Char) (point : Int) : List Char :=
  let whole := if point ≤ 0 then ['0'] else
    ds.take point.toNat ++ List.replicate (point.toNat - ds.length) '0'
  let fraction := if point ≤ 0 then List.replicate (-point).toNat '0' ++ ds else ds.drop point.toNat
  whole ++ '.' :: (if fraction.isEmpty then ['0'] else fraction)

def scientific (ds : List Char) (exponent : Int) : List Char :=
  ds.take 1 ++ (if ds.length ≤ 1 then [] else '.' :: ds.drop 1) ++ 'e' :: exponentChars exponent

def text : Binary64 → String
  | .nan => "nan"
  | .infinite s => if s then "-inf" else "inf"
  | .finite s m q =>
    let sign := if s then ['-'] else []
    if m = 0 then String.ofList (sign ++ ['0', '.', '0'])
    else
      let d := shortest m q
      let ds := Nat.toDigits 10 d.digits
      let trailing := (ds.reverse.takeWhile (· == '0')).length
      let point : Int := ds.length + d.exponent
      let ds := ds.take (ds.length - trailing)
      String.ofList (sign ++
        if -4 < point ∧ point ≤ 16 then positional ds point else scientific ds (point - 1))

end Symantics.Binary64
