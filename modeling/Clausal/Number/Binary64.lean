/-
  Binary64 — the sixty-four bits of a double, taken apart in exact arithmetic

  A finite double is `significand · 2 ^ exponent`, with its sign beside it.
  Equality of doubles is not equality of bits: the two zeros are equal and a
  NaN equals nothing.

  What is proved:
    1. `Binary64.neg_neg` — changing the sign twice changes nothing.
-/

namespace Clausal.Number

/-- A double by its bits: sign, eleven bits of exponent, fifty-two of fraction. -/
structure Binary64 where
  bits : UInt64
  deriving DecidableEq, Inhabited, Repr

namespace Binary64

/-- The sign bit alone. -/
def signMask : UInt64 := 0x8000000000000000

/-- `2 ^ 63`, the value of the sign bit. -/
def signUnit : Nat := 0x8000000000000000

/-- `2 ^ 52`, the value of the lowest exponent bit and of the bit in front of
the fraction. -/
def exponentUnit : Nat := 0x10000000000000

/-- The bits of positive infinity. -/
def infinityBits : Nat := 0x7ff0000000000000

/-- Whether the sign bit is set. -/
def isNegative (x : Binary64) : Bool := signUnit ≤ x.bits.toNat

/-- The bits without the sign. -/
def magnitude (x : Binary64) : Nat := x.bits.toNat % signUnit

/-- The eleven exponent bits. -/
def exponentBits (x : Binary64) : Nat := x.magnitude / exponentUnit

/-- The fifty-two fraction bits. -/
def fraction (x : Binary64) : Nat := x.magnitude % exponentUnit

/-- All exponent bits set and a fraction: no number. -/
def isNaN (x : Binary64) : Bool := infinityBits < x.magnitude

/-- All exponent bits set and no fraction. -/
def isInfinite (x : Binary64) : Bool := x.magnitude == infinityBits

/-- Either zero. -/
def isZero (x : Binary64) : Bool := x.magnitude == 0

/-- The whole number that a finite double is a power of two times. -/
def significand (x : Binary64) : Nat :=
  if x.exponentBits = 0 then x.fraction else exponentUnit + x.fraction

/-- The power of two of a finite double. -/
def exponent (x : Binary64) : Int :=
  if x.exponentBits = 0 then -1074 else (x.exponentBits : Int) - 1075

/-- The same double with the other sign. -/
def neg (x : Binary64) : Binary64 := ⟨x.bits ^^^ signMask⟩

instance : Neg Binary64 := ⟨neg⟩

/-- Numeric equality: a NaN differs from itself and the zeros are equal. -/
instance : BEq Binary64 where
  beq x y := !x.isNaN && !y.isNaN && (x.bits == y.bits || (x.isZero && y.isZero))

theorem neg_neg (x : Binary64) : x.neg.neg = x := by
  unfold neg
  rw [UInt64.xor_assoc, UInt64.xor_self, UInt64.xor_zero]

end Binary64

end Clausal.Number
