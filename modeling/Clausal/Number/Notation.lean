import Clausal.Number.Shortest

/-
  Notation — doubles and whole numbers as text

  A double is written by its shortest decimal: positionally while its decimal
  exponent lies between -4 and 15, in exponent notation outside. Positional
  text always has a point. In exponent notation a mantissa of one digit has a
  point only in the style that asks for it.
-/

namespace Clausal.Number

/-- The character of a digit below ten. -/
def digitChar (d : Nat) : Char := Char.ofNat (48 + d)

/-- The digits of `n` as characters. -/
def natChars (n : Nat) : List Char := (digitsOf n).map digitChar

/-- A whole number in decimal, with a sign when negative. -/
def intChars : Int → List Char
  | .ofNat n => natChars n
  | .negSucc n => '-' :: natChars (n + 1)

/-- How a mantissa of one digit is written before an exponent: `1` or `1.0`. -/
inductive Mantissa where
  | bare
  | pointed
  deriving DecidableEq, Repr

namespace Decimal

/-- Text with a point and no exponent. -/
def positional (d : Decimal) : List Char :=
  let ds := d.digits.map digitChar
  if d.point ≤ 0 then '0' :: '.' :: List.replicate d.point.natAbs '0' ++ ds
  else
    let whole := d.point.toNat
    if ds.length ≤ whole then ds ++ List.replicate (whole - ds.length) '0' ++ ['.', '0']
    else ds.take whole ++ '.' :: ds.drop whole

/-- Text with one digit before the point and a power of ten. -/
def scientific (d : Decimal) (style : Mantissa) : List Char :=
  let mantissa := match d.digits.map digitChar, style with
    | [c], .bare => [c]
    | [c], .pointed => [c, '.', '0']
    | c :: cs, _ => c :: '.' :: cs
    | [], _ => []
  mantissa ++ 'e' :: intChars (d.point - 1)

/-- Positional between `10 ^ -4` and `10 ^ 16`, with an exponent outside. -/
def text (d : Decimal) (style : Mantissa) : List Char :=
  if -4 < d.point && d.point ≤ 16 then d.positional else d.scientific style

end Decimal

/-- A double as text; a NaN has no sign. -/
def Binary64.text (x : Binary64) (style : Mantissa) : List Char :=
  if x.isNaN then "NaN".toList
  else
    let size :=
      if x.isInfinite then "inf".toList
      else if x.isZero then "0.0".toList
      else x.shortest.text style
    if x.isNegative then '-' :: size else size

end Clausal.Number
