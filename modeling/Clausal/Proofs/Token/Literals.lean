import Clausal.Proofs.Token.Phrase
import Clausal.Proofs.Token.Seam
import Mathlib.Data.List.Forall2
import Mathlib.Data.Nat.Digits.Defs

/-
  Literals — whole numbers of a text and their values

  A literal is a run of decimal digits, some of them with an underscore between
  them, or a zero, the letter of a radix, and digits of that radix. Its value is
  the sum of its digits, each times the power of the radix that its place stands
  for. Values are compared with the largest integer before anything is cut off, so
  a literal that is too large is refused as a whole.

  What is proved:
    1. `valueOf_eq_ofDigits` — what the lexer sums up is the positional value.
    2. `scan_literal` — a literal is one token or one error, with all of its text.
    3. `Lexer.next_literal` — so is the next thing that is read where a literal
       stands, and reading goes on right behind it.
-/

namespace Clausal

namespace Text

/-! ## Digits and their values -/

/-- The digits in order, with the letters in lower case. -/
def lowerDigits : List Char := "0123456789abcdef".toList

/-- The digits in order, with the letters in upper case. -/
def upperDigits : List Char := "0123456789ABCDEF".toList

/-- The character is a digit of the radix, with the value `v`. -/
structure IsDigit (radix v : Nat) (c : Char) : Prop where
  below : v < radix
  spelled : lowerDigits[v]? = some c ∨ upperDigits[v]? = some c

instance (radix v : Nat) (c : Char) : Decidable (IsDigit radix v c) :=
  decidable_of_iff (v < radix ∧ (lowerDigits[v]? = some c ∨ upperDigits[v]? = some c))
    ⟨fun h => ⟨h.1, h.2⟩, fun h => ⟨h.below, h.spelled⟩⟩

section

variable {radix v : Nat} {c : Char} {values : List Nat} {digits : List Char}

theorem IsDigit.digitValue (h : IsDigit radix v c) : digitValue c = v := by
  have hlower : ∀ v < 16, lowerDigits[v]?.map Text.digitValue = some v := by decide
  have hupper : ∀ v < 16, upperDigits[v]?.map Text.digitValue = some v := by decide
  rcases h.spelled with hc | hc
  · have hlt : v < 16 := (List.getElem?_eq_some_iff.mp hc).1
    have hvalue := hlower v hlt
    rw [hc] at hvalue
    exact Option.some.inj hvalue
  · have hlt : v < 16 := (List.getElem?_eq_some_iff.mp hc).1
    have hvalue := hupper v hlt
    rw [hc] at hvalue
    exact Option.some.inj hvalue

theorem IsDigit.isDigitIn (h : IsDigit radix v c) : isDigitIn radix c = true := by
  rw [Text.isDigitIn, h.digitValue, decide_eq_true_eq]
  exact h.below

/-- Digits of a radix are what the lexer takes for such. -/
theorem isDigitIn_of_isDigit (h : List.Forall₂ (IsDigit radix) values digits) :
    ∀ d ∈ digits, isDigitIn radix d = true := by
  induction h with
  | nil => exact fun d hd => absurd hd List.not_mem_nil
  | cons hdigit _ ih => exact List.forall_mem_cons.mpr ⟨hdigit.isDigitIn, ih⟩

/-- The number that digits spell is their positional value. -/
theorem valueOf_eq_ofDigits (h : List.Forall₂ (IsDigit radix) values digits) :
    valueOf radix digits = Nat.ofDigits radix values.reverse := by
  induction h with
  | nil => rfl
  | @cons v c values digits hdigit hrest ih =>
    have hfirst : valueOf radix [c] = v := by simp [valueOf, hdigit.digitValue]
    calc valueOf radix (c :: digits)
        = valueOf radix [c] * radix ^ digits.length + valueOf radix digits :=
          valueOf_append radix [c] digits
      _ = v * radix ^ values.length + Nat.ofDigits radix values.reverse := by
          rw [hfirst, ih, hrest.length_eq]
      _ = Nat.ofDigits radix values.reverse + radix ^ values.reverse.length * v := by
          rw [List.length_reverse, Nat.mul_comm, Nat.add_comm]
      _ = Nat.ofDigits radix (v :: values).reverse := by
          rw [List.reverse_cons, Nat.ofDigits_append, Nat.ofDigits_singleton]

end

/-! ## Literals -/

/-- The letters that name a radix behind a zero. -/
def radixLetters : List (Char × Nat) := [('b', 2), ('o', 8), ('x', 16)]

/-- The text of a whole number in a radix, and the digits alone. -/
inductive Literal : Nat → List Char → List Char → Prop where
  | decimal {digits text : List Char} : Grouped digits text → Literal 10 digits text
  | prefixed {letter : Char} {radix : Nat} {digits : List Char} :
    (letter, radix) ∈ radixLetters → digits ≠ [] →
    Literal radix digits ('0' :: letter :: digits)

/-- What is wrong with a literal that is too large. The digits are told only of a
decimal one. -/
def tooLarge (radix : Nat) (digits : List Char) : LexicalFault :=
  if radix = 10 then .integerOutOfRange digits else .radixOutOfRange

section

variable {radix : Nat} {digits text more : List Char} {c : Char} {tail : List Char}

/-- A literal begins with a decimal digit. -/
theorem Literal.head (h : Literal radix digits (c :: tail))
    (hdigits : ∀ d ∈ digits, isDigitIn radix d = true) : isDigitIn 10 c = true := by
  cases h with
  | decimal hgroup =>
    obtain ⟨d, hd, hhead⟩ := hgroup.head
    obtain rfl := Option.some.inj hhead
    exact hdigits c hd
  | prefixed => rfl

theorem Literal.ne_nil (h : Literal radix digits text) : text ≠ [] := by
  rintro rfl
  cases h with
  | decimal hgroup => cases hgroup

/-- The digits of a radix are taken up to where the literal ends. -/
theorem radixInteger_digits (hradix : radix ≤ 36)
    (hdigits : ∀ d ∈ digits, isDigitIn radix d = true) (hmore : EndsLiteral more) :
    radixInteger radix (digits ++ more) =
      ⟨integerOr .radixOutOfRange (valueOf radix digits), digits, more⟩ := by
  obtain ⟨htake, hdrop⟩ := takeWhile_stops hdigits (hmore.not_isDigitIn hradix)
  rw [radixInteger, htake, hdrop]

/-- Behind the letter of a radix its digits are read. -/
theorem numeral_prefixed {letter : Char} (hletter : (letter, radix) ∈ radixLetters)
    (hne : digits ≠ []) (hdigits : ∀ d ∈ digits, isDigitIn radix d = true)
    (hmore : EndsLiteral more) :
    numeral ('0' :: letter :: digits ++ more) =
      ⟨integerOr .radixOutOfRange (valueOf radix digits), '0' :: letter :: digits, more⟩ := by
  have hall : ∀ p ∈ radixLetters, p.1 ≠ '\'' ∧ radixOf? p.1 = some p.2 ∧ p.2 ≤ 36 := by decide
  obtain ⟨hquote, hradix, hle⟩ := hall _ hletter
  cases digits with
  | nil => exact absurd rfl hne
  | cons d digits =>
    have hd : isDigitIn radix d = true := hdigits d List.mem_cons_self
    have hinteger := radixInteger_digits hle hdigits hmore
    rw [List.cons_append] at hinteger
    rw [List.cons_append, List.cons_append, List.cons_append, numeral_of_ne_quote _ _ hquote,
      hradix]
    simp only [hd, if_true, hinteger]
    rfl

/-- A literal is taken as a whole, whatever its value. -/
theorem scan_literal (h : Literal radix digits (c :: tail))
    (hdigits : ∀ d ∈ digits, isDigitIn radix d = true) (hmore : EndsLiteral more) :
    scan c (tail ++ more) =
      ⟨integerOr (tooLarge radix digits) (valueOf radix digits), c :: tail, more⟩ := by
  rw [scan_digit _ (h.head hdigits), ← List.cons_append]
  cases h with
  | decimal hgroup => exact numeral_grouped hgroup hdigits hmore
  | @prefixed letter _ _ hletter hne =>
    have hten : ∀ p ∈ radixLetters, p.2 ≠ 10 := by decide
    rw [numeral_prefixed hletter hne hdigits hmore, tooLarge, if_neg (hten _ hletter)]

end

end Text

namespace Lexer

/-- Where a literal stands, the next thing read is the integer of its positional value,
or one error when that is too large. Either has all of the literal for its text, and
reading goes on right behind it. -/
theorem next_literal {l : Lexer} {radix : Nat} {values : List Nat}
    {digits text more : List Char} (h : Text.Literal radix digits text)
    (hvalues : List.Forall₂ (Text.IsDigit radix) values digits) (hl : l.rest = text ++ more)
    (hmore : Text.EndsLiteral more) :
    let value := Nat.ofDigits radix values.reverse
    let behind := l.position.after text
    let span := Span.between l.position behind
    l.next =
      (if value ≤ 2 ^ 63 - 1 then .ok ⟨.integer value, span, false⟩
        else .error ⟨Text.tooLarge radix digits, span⟩,
        ⟨more, behind, l.errors⟩) := by
  intro value behind span
  have hdigits := Text.isDigitIn_of_isDigit hvalues
  cases text with
  | nil => exact absurd rfl h.ne_nil
  | cons c tail =>
    have hbegins := Text.beginsToken_digit (tail ++ more) (h.head hdigits)
    have hscan := Text.scan_literal h hdigits hmore
    rw [Text.valueOf_eq_ofDigits hvalues, Text.integerOr] at hscan
    rw [next_of_beginsToken hbegins hl, take, hscan]
    by_cases hvalue : value ≤ 2 ^ 63 - 1
    · have hfits : Nat.ofDigits radix values.reverse ≤ Text.maxInteger := hvalue
      rw [if_pos hvalue, if_pos hfits]
    · have hlarge : ¬ Nat.ofDigits radix values.reverse ≤ Text.maxInteger := hvalue
      rw [if_neg hvalue, if_neg hlarge]

/-- `9_223372036854775808` is the first number that is too large, and is refused with the
underscore in its text. -/
theorem next_literal_large :
    let l := ofText "9_223372036854775808;" .start
    let values := [9, 2, 2, 3, 3, 7, 2, 0, 3, 6, 8, 5, 4, 7, 7, 5, 8, 0, 8]
    let digits := "9223372036854775808".toList
    let text := "9_223372036854775808".toList
    Text.Literal 10 digits text ∧ List.Forall₂ (Text.IsDigit 10) values digits ∧
      l.rest = text ++ [';'] ∧ Text.EndsLiteral [';'] ∧
      l.next = (.error ⟨.integerOutOfRange digits, ⟨1, 1, 0, 20⟩⟩, ⟨[';'], ⟨1, 21, 20⟩, []⟩) := by
  intro l values digits text
  have hliteral : Text.Literal 10 digits text :=
    .decimal (.group '9' (Text.grouped_self (by decide)))
  have hvalues : List.Forall₂ (Text.IsDigit 10) values digits := by decide
  have hrest : l.rest = text ++ [';'] := by decide
  have hends : Text.EndsLiteral [';'] := by
    intro c hc
    obtain rfl := Option.some.inj hc
    rfl
  exact ⟨hliteral, hvalues, hrest, hends, next_literal hliteral hvalues hrest hends⟩

end Lexer

end Clausal
