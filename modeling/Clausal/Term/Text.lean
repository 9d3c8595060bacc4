import Clausal.Operator
import Clausal.Term.Lists
import Clausal.Text.AtomText

/-
  Term text — terms as they are written

  Operators stand between, before or after their arguments, with brackets only
  where the priorities ask for them. An operator that is itself an argument of
  an operator stands in brackets. Lists are written with square brackets, a
  term under `{}` with curly ones, everything else as a functor and its
  arguments in round brackets.
-/

namespace Clausal.Term

open Text (atomChars)

/-- Brackets around a text, when asked for. -/
def bracketed (wanted : Bool) (text : List Char) : List Char :=
  if wanted then '(' :: text ++ [')'] else text

/-- Whether the term is written as the bare name of an operator. -/
def isOperatorAtom : Term → Bool
  | .atom name | .compound name [] => Operator.isName name
  | _ => false

/-- An operator between its arguments: the comma clings to the left one. -/
def betweenChars (name : String) : List Char :=
  if name = "," then [',', ' '] else ' ' :: atomChars name ++ [' ']

mutual
/-- A term where priorities up to `max` need no brackets. -/
def chars (max : Nat) : Term → List Char
  | .atom name => atomChars name
  | .var name => name.toList
  | .integer i => Number.intChars i
  | .float x => x.text .pointed
  | .compound f [] => atomChars f
  | .compound f [arg] =>
    if f = "\x7b\x7d" then '{' :: chars maxPriority arg ++ ['}']
    else
      match Operator.before? f, Operator.after? f with
      | some op, _ =>
        bracketed (max < op.priority) (atomChars f ++ ' ' :: operandChars op.rightMax arg)
      | none, some op =>
        bracketed (max < op.priority) (operandChars op.leftMax arg ++ ' ' :: atomChars f)
      | none, none => atomChars f ++ '(' :: argumentChars [arg] ++ [')']
  | .compound f [left, right] =>
    if f = consName then '[' :: chars argumentPriority left ++ tailChars right
    else
      match Operator.between? f with
      | some op =>
        bracketed (max < op.priority)
          (operandChars op.leftMax left ++ betweenChars f ++ operandChars op.rightMax right)
      | none => atomChars f ++ '(' :: argumentChars [left, right] ++ [')']
  | .compound f args => atomChars f ++ '(' :: argumentChars args ++ [')']
termination_by t => (sizeOf t, 0)
/-- An argument of an operator. -/
def operandChars (max : Nat) (t : Term) : List Char :=
  bracketed t.isOperatorAtom (chars max t)
termination_by (sizeOf t, 1)
/-- Arguments with commas between them. -/
def argumentChars : List Term → List Char
  | [] => []
  | [arg] => chars argumentPriority arg
  | arg :: args => chars argumentPriority arg ++ ',' :: ' ' :: argumentChars args
termination_by ts => (sizeOf ts, 0)
/-- What follows a list element, up to the closing bracket. -/
def tailChars : Term → List Char
  | .compound "." [head, tail] => ',' :: ' ' :: chars argumentPriority head ++ tailChars tail
  | t => if t.isNil then [']'] else '|' :: chars argumentPriority t ++ [']']
termination_by t => (sizeOf t, 1)
end

/-- The term as it is written on its own. -/
def text (t : Term) : String := String.ofList (t.chars maxPriority)

end Clausal.Term
