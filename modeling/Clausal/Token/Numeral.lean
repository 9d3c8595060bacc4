import Clausal.Number.Rounding
import Clausal.Token.Basic
import Clausal.Token.Quoted

/-
  Numerals — numbers as they stand in a text, without a sign

  A numeral is decimal, with a fraction and then perhaps a power of ten, or one
  of `0x`, `0o`, `0b` with digits of that radix, or `0'` with a character whose
  code it is. Integers reach up to `2 ^ 63 - 1`.

  What is proved:
    1. `numeral_append` — nothing is lost: the text read and the rest make up
       the input.
    2. `numeral_ne_nil` — a numeral takes at least one character.
-/

namespace Clausal.Text

/-- The largest integer. -/
def maxInteger : Nat := 0x7fffffffffffffff

/-- The outcome of reading one token. -/
abbrev Scan := Taken (Except LexicalFault Token)

/-- An integer, unless it is too large. -/
def integerOr (fault : LexicalFault) (n : Nat) : Except LexicalFault Token :=
  if n ≤ maxInteger then .ok (.integer n) else .error fault

/-- The value of `0'c` behind the quote: the code of a character, of an escape,
or of a quote, which may be doubled. -/
def charCode : List Char → Scan
  | [] => ⟨.error .unterminatedQuote, [], []⟩
  | c :: rest =>
    if c = '\\' then
      ((escape rest).map fun
        | .ok (some d) => .ok (.integer d.toNat)
        | .ok none => .error .lineContinuation
        | .error fault => .error (.escape fault)).behind [c]
    else if c = '\'' ∧ rest.head? = some '\'' then ⟨.ok (.integer 39), [c, '\''], rest.tail⟩
    else ⟨.ok (.integer c.toNat), [c], rest⟩

/-- Digits of a radix behind the letter that names it. -/
def radixInteger (radix : Nat) (cs : List Char) : Scan :=
  let digits := cs.takeWhile (isDigitIn radix)
  ⟨integerOr .radixOutOfRange (valueOf radix digits), digits, cs.dropWhile (isDigitIn radix)⟩

/-- The exponent behind a fraction, if the text goes on with one: its value. -/
def exponentPart : List Char → Taken Int
  | c :: rest =>
    if c = 'e' ∨ c = 'E' then
      match rest with
      | d :: more =>
        if isDigitIn 10 d then
          let run := takeDigits rest
          ⟨valueOf 10 run.digits, c :: run.text, run.rest⟩
        else if (d = '+' ∨ d = '-') ∧ more.head?.any (isDigitIn 10) then
          let run := takeDigits more
          let size : Int := valueOf 10 run.digits
          ⟨if d = '-' then -size else size, c :: d :: run.text, run.rest⟩
        else ⟨0, [], c :: rest⟩
      | [] => ⟨0, [], [c]⟩
    else ⟨0, [], c :: rest⟩
  | [] => ⟨0, [], []⟩

/-- A decimal integer. -/
def wholeNumeral (whole : DigitRun) : Scan :=
  ⟨integerOr (.integerOutOfRange whole.digits) (valueOf 10 whole.digits), whole.text, whole.rest⟩

/-- A float whose whole part has been read; `rest` is what follows the point. -/
def pointNumeral (whole : DigitRun) (rest : List Char) : Scan :=
  let fraction := takeDigits rest
  let exponent := exponentPart fraction.rest
  let digits := whole.digits ++ fraction.digits
  let power := exponent.value - fraction.digits.length
  ⟨.ok (.float (.ofDecimal (valueOf 10 digits) power)),
    whole.text ++ '.' :: fraction.text ++ exponent.text, exponent.rest⟩

/-- A decimal integer or float. -/
def decimalNumeral (cs : List Char) : Scan :=
  match (takeDigits cs).rest with
  | '.' :: rest =>
    if rest.head?.any (isDigitIn 10) then pointNumeral (takeDigits cs) rest
    else wholeNumeral (takeDigits cs)
  | _ => wholeNumeral (takeDigits cs)

/-- The radix that a letter behind a zero names. -/
def radixOf? : Char → Option Nat
  | 'x' => some 16
  | 'o' => some 8
  | 'b' => some 2
  | _ => none

/-- A numeral of any kind; the text begins with a digit. -/
def numeral (cs : List Char) : Scan :=
  match cs with
  | '0' :: '\'' :: c :: rest => (charCode (c :: rest)).behind ['0', '\'']
  | '0' :: letter :: c :: rest =>
    match radixOf? letter with
    | some radix =>
      if isDigitIn radix c then (radixInteger radix (c :: rest)).behind ['0', letter]
      else decimalNumeral cs
    | none => decimalNumeral cs
  | _ => decimalNumeral cs

/-! ## Nothing is lost -/

theorem charCode_append (cs : List Char) : (charCode cs).text ++ (charCode cs).rest = cs := by
  cases cs with
  | nil => rfl
  | cons c rest =>
    simp only [charCode]
    split
    · simp [Taken.behind, Taken.map, escape_append]
    · split
      · rename_i h
        obtain ⟨more, rfl⟩ := List.head?_eq_some_iff.mp h.2
        rfl
      · rfl

theorem exponentPart_append (cs : List Char) :
    (exponentPart cs).text ++ (exponentPart cs).rest = cs := by
  unfold exponentPart
  split
  · split
    · split
      · split
        · simp [takeDigits_append]
        · split
          · simp [takeDigits_append]
          · rfl
      · rfl
    · rfl
  · rfl

theorem decimalNumeral_append (cs : List Char) :
    (decimalNumeral cs).text ++ (decimalNumeral cs).rest = cs := by
  have hw := takeDigits_append cs
  unfold decimalNumeral
  split
  · rename_i rest hrest
    split
    · simp only [pointNumeral, List.append_assoc, exponentPart_append, List.cons_append]
      rw [takeDigits_append, ← hrest, hw]
    · exact hw
  · exact hw

theorem numeral_append (cs : List Char) : (numeral cs).text ++ (numeral cs).rest = cs := by
  unfold numeral
  split
  · simp [Taken.behind, charCode_append]
  · split
    · split
      · simp [Taken.behind, radixInteger, List.takeWhile_append_dropWhile]
      · exact decimalNumeral_append _
    · exact decimalNumeral_append _
  · exact decimalNumeral_append _

theorem takeDigits_ne_nil {c : Char} (rest : List Char) (h : isDigitIn 10 c = true) :
    (takeDigits (c :: rest)).text ≠ [] := by
  simp [takeDigits, h]

theorem decimalNumeral_ne_nil {c : Char} {rest : List Char} (h : isDigitIn 10 c = true) :
    (decimalNumeral (c :: rest)).text ≠ [] := by
  have := takeDigits_ne_nil rest h
  unfold decimalNumeral
  split
  · split
    · simp [pointNumeral]
    · exact this
  · exact this

theorem numeral_ne_nil {c : Char} {rest : List Char} (h : isDigitIn 10 c = true) :
    (numeral (c :: rest)).text ≠ [] := by
  unfold numeral
  split
  · simp [Taken.behind]
  · rename_i heq
    injection heq with hc hrest
    subst hc hrest
    split
    · split
      · simp [Taken.behind]
      · exact decimalNumeral_ne_nil h
    · exact decimalNumeral_ne_nil h
  · exact decimalNumeral_ne_nil h

end Clausal.Text
