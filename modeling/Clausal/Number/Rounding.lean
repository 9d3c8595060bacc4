import Clausal.Number.Binary64

/-
  Rounding — the double nearest to a decimal number

  A decimal `digits · 10 ^ power` is a quotient of two whole numbers. The
  double nearest to it is found in exact arithmetic; a tie goes to the even
  significand. Past the largest double the answer is infinity, below half the
  smallest it is zero.
-/

namespace Clausal.Number

/-- The quotient `num / den` rounded to the nearest whole number, a tie to the
even one. -/
def roundHalfEven (num den : Nat) : Nat :=
  let below := num / den
  let twice := 2 * (num % den)
  if twice < den || (twice == den && below % 2 == 0) then below else below + 1

/-- `num · 2 ^ (-power) / den` as a quotient of whole numbers. -/
def unscale (num den : Nat) (power : Int) : Nat × Nat :=
  if power < 0 then (num * Nat.pow 2 power.natAbs, den) else (num, den * Nat.pow 2 power.toNat)

/-- The power of two of the double nearest to `num / den`: the one that leaves
fifty-three bits before the point, but never below that of the smallest double. -/
def binaryExponent (num den : Nat) : Int :=
  let guess : Int := (num.log2 : Int) - (den.log2 : Int) - 53
  let (n, d) := unscale num den guess
  max (if n < d * (2 * Binary64.exponentUnit) then guess else guess + 1) (-1074)

namespace Binary64

/-- Positive infinity. -/
def infinity : Binary64 := ⟨UInt64.ofNat infinityBits⟩

/-- Positive zero. -/
def zero : Binary64 := ⟨0⟩

/-- The double nearest to the positive quotient `num / den`. A significand that
rounds up to the next power of two carries into the exponent bits. -/
def ofQuotient (num den : Nat) : Binary64 :=
  let power := binaryExponent num den
  let (n, d) := unscale num den power
  let bits := (power + 1074).toNat * exponentUnit + roundHalfEven n d
  if bits < infinityBits then ⟨UInt64.ofNat bits⟩ else infinity

/-- The double nearest to `value · 10 ^ power`. With `b` the binary logarithm of
`value`, the number is at least `10 ^ (3 b / 10 + power)` and less than
`10 ^ (b / 3 + 1 + power)`, which settles powers far out of range before any
large number is built. -/
def ofDecimal (value : Nat) (power : Int) : Binary64 :=
  let b : Int := value.log2
  if value == 0 then zero
  else if 309 ≤ 3 * b / 10 + power then infinity
  else if b / 3 + 1 + power ≤ -324 then zero
  else if power < 0 then ofQuotient value (Nat.pow 10 power.natAbs)
  else ofQuotient (value * Nat.pow 10 power.toNat) 1

end Binary64

end Clausal.Number
