import Clausal.Unicode.Alphabetic
import Clausal.Unicode.Lowercase
import Clausal.Unicode.Numeric
import Clausal.Unicode.Uppercase

/-
  Character classes — what each character may be part of

  Letters, cases, numbers and blanks are the Unicode properties; symbol
  characters are a fixed list of seventeen.
-/

namespace Clausal.Text

/-- Characters with the property `Alphabetic`. -/
def isAlphabetic (c : Char) : Bool := Unicode.alphabetic.has c.toNat

/-- Characters with the property `Lowercase`. -/
def isLowercase (c : Char) : Bool := Unicode.lowercase.has c.toNat

/-- Characters with the property `Uppercase`. -/
def isUppercase (c : Char) : Bool := Unicode.uppercase.has c.toNat

/-- Decimal digits, letter numbers and other numbers of any script. -/
def isNumeric (c : Char) : Bool := Unicode.numeric.has c.toNat

/-- The characters with the property `White_Space`. -/
def blanks : Unicode.Ranges := [
  (0x9, 0xd), (0x20, 0x20), (0x85, 0x85), (0xa0, 0xa0), (0x1680, 0x1680), (0x2000, 0x200a),
  (0x2028, 0x2029), (0x202f, 0x202f), (0x205f, 0x205f), (0x3000, 0x3000)]

/-- White space, line ends included. -/
def isBlank (c : Char) : Bool := blanks.has c.toNat

/-- The characters of symbolic names such as `=..`. -/
def symbolChars : List Char :=
  ['+', '-', '*', '/', '\\', '^', '<', '>', '=', '~', ':', '.', '?', '@', '#', '&', '$']

/-- Whether `c` may stand in a symbolic name. -/
def isSymbolChar (c : Char) : Bool := symbolChars.contains c

/-- Whether `c` may stand in an identifier after its first character. -/
def isIdentChar (c : Char) : Bool := isAlphabetic c || isNumeric c || c == '_'

/-- A lowercase letter followed by identifier characters. -/
def isIdentifier (name : String) : Bool :=
  match name.toList with
  | [] => false
  | c :: rest => isLowercase c && rest.all isIdentChar

end Clausal.Text
