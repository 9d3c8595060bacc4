import Clausal.Text.Classes

/-
  Atom text — a name as it is written, in quotes where it needs them

  A name stands bare when it is an identifier, a run of symbol characters that
  opens no comment, or one of `[]`, `{}`, `!` and `;`. Any other name stands
  between single quotes, where a quote, a backslash, a line end and a tab are
  escaped.
-/

namespace Clausal.Text

/-- Whether the name opens a block comment somewhere. -/
def opensComment : List Char → Bool
  | '/' :: '*' :: _ => true
  | _ :: rest => opensComment rest
  | [] => false

/-- The names that stand bare although no class admits them. -/
def bareNames : List String := ["[]", "\x7b\x7d", "!", ";"]

/-- Whether the name would not be read back as it stands. -/
def needsQuotes (name : String) : Bool :=
  if bareNames.contains name then false
  else
    match name.toList with
    | [] => true
    | ['.'] => true
    | c :: rest =>
      if isLowercase c then !rest.all isIdentChar
      else if (c :: rest).all isSymbolChar then opensComment (c :: rest)
      else true

/-- A character between single quotes. -/
def escapeChar : Char → List Char
  | '\'' => ['\\', '\'']
  | '\\' => ['\\', '\\']
  | '\n' => ['\\', 'n']
  | '\t' => ['\\', 't']
  | c => [c]

/-- The name between single quotes. -/
def quoted (name : String) : List Char := '\'' :: name.toList.flatMap escapeChar ++ ['\'']

/-- The name as an atom is written. -/
def atomChars (name : String) : List Char :=
  if needsQuotes name then quoted name else name.toList

end Clausal.Text
