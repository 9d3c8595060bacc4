import Clausal.Operator
import Clausal.Token.Basic

/-
  Expectations — what would have been accepted where reading stopped

  A small set of alternatives is listed in the message; a large one is named by
  the part of the text that was being read. Every operator counts as an
  alternative of its own, but none is ever listed.
-/

namespace Clausal

/-- The part of a text being read. -/
inductive Rule where
  | program
  | queries
  | term
  | terms
  | variable
  | arguments
  | list
  | curly
  | parenthesized
  | operand
  deriving DecidableEq, Repr

/-- The part of a text as messages name it. -/
def Rule.describe : Rule → String
  | .program => "a list of prolog clauses"
  | .queries => "a list of prolog queries"
  | .term => "a prolog term"
  | .terms => "a comma separated list of prolog terms"
  | .variable => "a prolog variable"
  | .arguments => "the arguments of a compound term"
  | .list => "a prolog list"
  | .curly => "a term between curly brackets"
  | .parenthesized => "a term between parentheses"
  | .operand => "the operand of an operator"

/-- What would have been accepted: the alternatives, whether any operator would
have done too, and the part of the text being read. -/
structure Expected where
  alternatives : List String
  orOperator : Bool
  rule : Rule
  deriving DecidableEq, Repr

namespace Expected

/-- Exactly these alternatives. -/
def tokens (rule : Rule) (alternatives : List String) : Expected := ⟨alternatives, false, rule⟩

/-- A closing token, or an operator that goes on with the term. -/
def closing (rule : Rule) (token : String) : Expected := ⟨[token], true, rule⟩

/-- The beginning of a term. -/
def termStart (rule : Rule) : Expected :=
  ⟨["an atom", "a variable", "a number", "a string", "'('", "'['", "'\x7b'"], false, rule⟩

/-- How many different tokens would have done. -/
def count (e : Expected) : Nat :=
  e.alternatives.length + if e.orOperator then Operator.count else 0

/-- From this count on the alternatives are not listed. -/
def listLimit : Nat := 5

/-- Alternatives in a sentence: commas between them and `or` before the last. -/
def enumerate : List String → String
  | [] => ""
  | [only] => only
  | many => "either " ++ ", ".intercalate many.dropLast ++ " or " ++ many.getLastD ""

/-- The alternatives, or the part of the text being read when they are too many
or none. -/
def describe (e : Expected) : String :=
  if listLimit ≤ e.count || e.alternatives.isEmpty then e.rule.describe
  else enumerate e.alternatives

/-- The message for a token that was found in place of the expected. -/
def message (e : Expected) (found : Token) : String :=
  "found " ++ found.describe ++ " but expected " ++ e.describe

end Expected

end Clausal
