import Clausal.Predicate
import Clausal.Source.Place
import Clausal.Term.Text

/-
  Clauses, queries and updates — terms with a role

  A clause is a fact or a rule `Head :- Body`. A query is a goal. An update
  lists clauses to add and clauses to delete.

  What is proved:
    1. `Clause.head_of_isFact` — a fact is its own head.
-/

namespace Clausal

/-- A fact or a rule, and where it was read. -/
structure Clause where
  term : Term
  place : Place
  deriving DecidableEq

/-- A goal, and where it was read. -/
structure Query where
  term : Term
  place : Place
  deriving DecidableEq

/-- Clauses to add and clauses to delete, in their written order, with the term
that lists them and where it was read. -/
structure Update where
  term : Term
  place : Place
  adds : List Clause
  deletes : List Clause
  deriving DecidableEq

/-- The head and body of a rule. -/
def Term.unrule? : Term → Option (Term × Term)
  | .compound f [head, body] => if f = ":-" then some (head, body) else none
  | _ => none

namespace Clause

/-- The head of a rule; a fact is its own head. -/
def head (c : Clause) : Term := (c.term.unrule?.map (·.1)).getD c.term

/-- The body of a rule. -/
def body? (c : Clause) : Option Term := c.term.unrule?.map (·.2)

def isFact (c : Clause) : Bool := c.body?.isNone

/-- The predicate that the clause belongs to. -/
def indicator (c : Clause) : Indicator := c.head.indicator

def text (c : Clause) : String := c.term.text

theorem head_of_isFact {c : Clause} (h : c.isFact = true) : c.head = c.term := by
  simp only [isFact, body?, Option.isNone_map, Option.isNone_iff_eq_none] at h
  simp [head, h]

end Clause

/-- Whether an update changes nothing. -/
def Update.isEmpty (u : Update) : Bool := u.adds.isEmpty && u.deletes.isEmpty

end Clausal
