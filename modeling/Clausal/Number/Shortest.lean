import Clausal.Number.Binary64

/-
  Shortest decimal — the fewest digits that read back as the same double

  The decimals that round to a positive double `m · 2 ^ q` fill an interval
  around it, ends included exactly when `m` is even. Of all decimals in the
  interval the ones with fewest digits are taken, of those the nearest to the
  double, of two equally near the larger.

  Everything is measured in units of `2 ^ (q - 2)`, so that the double and both
  ends of its interval are whole numbers.
-/

namespace Clausal.Number

/-- A decimal `0.d₁d₂… · 10 ^ point`, without trailing zeros. -/
structure Decimal where
  digits : List Nat
  point : Int
  deriving DecidableEq, Repr

/-- The decimal digits of `n`, most significant first. -/
def digitsOf (n : Nat) : List Nat :=
  if n < 10 then [n] else digitsOf (n / 10) ++ [n % 10]
termination_by n

/-- The digits without the zeros at the end. -/
def dropTrailingZeros (ds : List Nat) : List Nat :=
  (ds.reverse.dropWhile (· == 0)).reverse

namespace Binary64

/-- The double in units of a quarter of its last place. -/
def centre (x : Binary64) : Nat := 4 * x.significand

/-- The lower end of the interval: half a unit below, or a quarter where the
double is a power of two with smaller doubles set closer. -/
def lowerEnd (x : Binary64) : Nat :=
  if x.fraction == 0 && 1 < x.exponentBits then x.centre - 1 else x.centre - 2

/-- The upper end of the interval: half a unit above. -/
def upperEnd (x : Binary64) : Nat := x.centre + 2

/-- Whether a decimal reads back as the double: `scaled` and the ends carry the
same factor `unit`. -/
def readsBack (x : Binary64) (unit scaled : Nat) : Bool :=
  if x.significand % 2 == 0 then
    x.lowerEnd * unit ≤ scaled && scaled ≤ x.upperEnd * unit
  else
    x.lowerEnd * unit < scaled && scaled < x.upperEnd * unit

/-- Factors `(unit, step)` that make the double `centre · unit` and the decimal
`n · 10 ^ place` equal to `n · step` in one common measure. -/
def commonMeasure (x : Binary64) (place : Int) : Nat × Nat :=
  let two : Int := x.exponent - 2
  let unit := Nat.pow 2 two.toNat * Nat.pow 10 (-place).toNat
  let step := Nat.pow 2 (-two).toNat * Nat.pow 10 place.toNat
  (unit, step)

/-- The nearest multiple of `10 ^ place` that reads back, the larger of two
equally near. -/
def nearestAt (x : Binary64) (place : Int) : Option Nat :=
  let (unit, step) := x.commonMeasure place
  let value := x.centre * unit
  let below := value / step
  let rest := value % step
  let lowFits := x.readsBack unit (below * step)
  let highFits := x.readsBack unit ((below + 1) * step)
  if lowFits && (!highFits || 2 * rest < step) then some below
  else if highFits then some (below + 1)
  else none

/-- The exponent `p` with `10 ^ (p - 1) ≤ x < 10 ^ p`. -/
def decimalPoint (x : Binary64) : Int :=
  let (unit, _) := x.commonMeasure 0
  let (_, one) := x.commonMeasure 0
  let value := x.centre * unit
  if one ≤ value then (digitsOf (value / one)).length
  else 1 - (digitsOf ((one - 1) / value)).length

/-- The first grid of `count`, `count + 1`, … digits that holds a decimal which
reads back. -/
def shortestFrom (x : Binary64) (point : Int) : Nat → Nat → Decimal
  | 0, _ => ⟨[0], point⟩
  | tries + 1, count =>
    match x.nearestAt (point - count) with
    | some n =>
      let ds := digitsOf n
      ⟨dropTrailingZeros ds, point - count + ds.length⟩
    | none => shortestFrom x point tries (count + 1)

/-- The shortest decimal of a positive finite double; seventeen digits always
suffice. -/
def shortest (x : Binary64) : Decimal := shortestFrom x x.decimalPoint 17 1

end Binary64

end Clausal.Number
