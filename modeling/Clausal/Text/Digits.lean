/-
  Digits — digit characters in a radix, and the number they spell

  What is proved:
    1. `valueOf_append` — the value of two runs of digits written one after the
       other.
    2. `takeDigits_append` — reading grouped digits loses nothing.
-/

namespace Clausal.Text

/-- The value of a digit, letters of either case counting on from ten. -/
def digitValue (c : Char) : Nat :=
  if '0' ≤ c ∧ c ≤ '9' then c.toNat - 48
  else if 'a' ≤ c ∧ c ≤ 'z' then c.toNat - 87
  else if 'A' ≤ c ∧ c ≤ 'Z' then c.toNat - 55
  else 36

/-- Whether `c` is a digit in the radix. -/
def isDigitIn (radix : Nat) (c : Char) : Bool := digitValue c < radix

/-- The number that digits spell, most significant first. -/
def valueOf (radix : Nat) (digits : List Char) : Nat :=
  digits.foldl (fun acc c => radix * acc + digitValue c) 0

theorem foldl_digits (radix : Nat) (acc : Nat) (digits : List Char) :
    digits.foldl (fun acc c => radix * acc + digitValue c) acc =
      acc * Nat.pow radix digits.length + valueOf radix digits := by
  unfold valueOf
  induction digits generalizing acc with
  | nil =>
    show acc = acc * 1 + 0
    omega
  | cons c rest ih =>
    show rest.foldl _ (radix * acc + digitValue c) =
      acc * (Nat.pow radix rest.length * radix) + rest.foldl _ (radix * 0 + digitValue c)
    rw [ih, ih (radix * 0 + digitValue c)]
    simp only [Nat.mul_zero, Nat.zero_add, Nat.add_mul]
    have hpower : radix * acc * Nat.pow radix rest.length =
        acc * (Nat.pow radix rest.length * radix) := by
      rw [Nat.mul_comm radix acc, Nat.mul_assoc, Nat.mul_comm radix]
    omega

theorem valueOf_append (radix : Nat) (a b : List Char) :
    valueOf radix (a ++ b) = valueOf radix a * Nat.pow radix b.length + valueOf radix b := by
  rw [← foldl_digits]
  simp [valueOf]

/-- A run of decimal digits: the digits alone, the text they were read from, and
the rest. -/
structure DigitRun where
  digits : List Char
  text : List Char
  rest : List Char
  deriving DecidableEq, Repr

/-- Reads decimal digits as far as they go. An underscore between two digits
groups them and is no part of the number. -/
def takeDigits : List Char → DigitRun
  | [] => ⟨[], [], []⟩
  | c :: rest =>
    if isDigitIn 10 c then
      let run := takeDigits rest
      ⟨c :: run.digits, c :: run.text, run.rest⟩
    else if c = '_' ∧ rest.head?.any (isDigitIn 10) then
      let run := takeDigits rest
      ⟨run.digits, c :: run.text, run.rest⟩
    else ⟨[], [], c :: rest⟩

theorem takeDigits_append (cs : List Char) :
    (takeDigits cs).text ++ (takeDigits cs).rest = cs := by
  induction cs with
  | nil => rfl
  | cons c rest ih =>
    simp only [takeDigits]
    split
    · simp [ih]
    · split <;> simp [ih]

end Clausal.Text
