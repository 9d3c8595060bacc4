import Clausal.Number.Notation
import Clausal.Source.Position

/-
  Tokens — the words of a text

  Operators are plain names here; what they mean is decided when terms are
  read. Numbers have no sign: a minus is a name of its own.

  What is proved:
    1. `Token.not_startsTerm_of_isTerminator` — no token both starts a term and
       ends one.
-/

namespace Clausal

open Number (Binary64)

/-- One word of a text. -/
inductive Token where
  | name (text : String)
  | quotedName (text : String)
  | var (name : String)
  | integer (value : Nat)
  | float (value : Binary64)
  | string (text : String)
  | backQuoted (text : String)
  | openRound
  | closeRound
  | openSquare
  | closeSquare
  | openCurly
  | closeCurly
  | comma
  | bar
  | stop
  | endOfText
  deriving DecidableEq, Repr, Inhabited

namespace Token

/-- Whether a term can begin with this token. -/
def startsTerm : Token → Bool
  | .name _ | .quotedName _ | .var _ | .integer _ | .float _ | .string _ | .backQuoted _
  | .openRound | .openSquare | .openCurly => true
  | _ => false

/-- Whether this token ends the term before it. -/
def isTerminator : Token → Bool
  | .closeRound | .closeSquare | .closeCurly | .comma | .bar | .stop | .endOfText => true
  | _ => false

/-- The token as messages name it. -/
def describe : Token → String
  | .name text | .quotedName text => "atom '" ++ text ++ "'"
  | .var v => "variable '" ++ v ++ "'"
  | .integer n => "number '" ++ String.ofList (Number.natChars n) ++ "'"
  | .float x => "number '" ++ String.ofList (x.text .bare) ++ "'"
  | .string text => "string \"" ++ text ++ "\""
  | .backQuoted text => "string \x60" ++ text ++ "\x60"
  | .openRound => "'('"
  | .closeRound => "')'"
  | .openSquare => "'['"
  | .closeSquare => "']'"
  | .openCurly => "'\x7b'"
  | .closeCurly => "'\x7d'"
  | .comma => "','"
  | .bar => "'|'"
  | .stop => "end of clause '.'"
  | .endOfText => "end of input"

theorem not_startsTerm_of_isTerminator {t : Token} (h : t.isTerminator = true) :
    t.startsTerm = false := by
  cases t <;> simp_all [isTerminator, startsTerm]

end Token

/-- A token, where it stands, and whether a blank or a comment stands directly
before it. `f(` differs from `f (` and `-1` from `- 1`. -/
structure Lexeme where
  token : Token
  span : Span
  layoutBefore : Bool
  deriving DecidableEq, Repr, Inhabited

end Clausal
