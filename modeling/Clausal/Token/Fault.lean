import Clausal.Source.Position

/-
  Faults of the text itself — what keeps characters from being a token
-/

namespace Clausal

/-- What is wrong with an escape sequence. -/
inductive EscapeFault where
  | undefined (c : Char)
  | malformed
  | invalidCode (digits : List Char)
  | unterminated
  deriving DecidableEq, Repr

/-- Why characters could not be read as a token. -/
inductive LexicalFault where
  | unterminatedComment
  | unterminatedQuote
  | escape (fault : EscapeFault)
  | lineContinuation
  | integerOutOfRange (digits : List Char)
  | radixOutOfRange
  | unrecognized (c : Char)
  deriving DecidableEq, Repr

def EscapeFault.message : EscapeFault → String
  | .undefined c => "undefined escape sequence '\\" ++ c.toString ++ "'"
  | .malformed => "malformed numeric escape sequence"
  | .invalidCode digits => "invalid character code in escape '" ++ String.ofList digits ++ "'"
  | .unterminated => "unterminated escape sequence"

def LexicalFault.message : LexicalFault → String
  | .unterminatedComment => "unterminated block comment"
  | .unterminatedQuote => "unterminated quoted text"
  | .escape fault => fault.message
  | .lineContinuation => "line continuation in character code"
  | .integerOutOfRange digits => "integer '" ++ String.ofList digits ++ "' is out of range"
  | .radixOutOfRange => "integer is out of range"
  | .unrecognized c => "unrecognized character '" ++ c.toString ++ "'"

/-- A fault and the characters it spoils. -/
structure LexicalError where
  fault : LexicalFault
  span : Span
  deriving DecidableEq, Repr

namespace LexicalError

/-- What is wrong, without where. -/
def message (e : LexicalError) : String := e.fault.message

/-- What is wrong and where. -/
def text (e : LexicalError) : String := "lexical error at " ++ e.span.text ++ ": " ++ e.message

end LexicalError

end Clausal
