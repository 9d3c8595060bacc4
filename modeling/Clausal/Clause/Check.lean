import Clausal.Clause.Basic

/-
  Legality — which terms may be clauses, goals and updates

  The head of a clause is an atom or compound whose name is an identifier and
  which is not built in. A goal is anything but a number, a variable or a
  clause, and the branches of a control construct are goals. An update is a
  conjunction of facts to add and `not(Fact)` to delete; `true` stands for
  nothing.

  What is proved:
    1. `checkHead_ok_iff` — the heads that are accepted.
-/

namespace Clausal

/-- Why a well-formed term is not legal where it stands. -/
inductive ClauseError where
  | variableHead (name : String)
  | notPredication (term : Term)
  | protectedPredicate (indicator : Indicator)
  | directive (term : Term)
  | illegalGoal (term : Term)
  | clauseAsGoal (term : Term)
  | illegalUpdate (term : Term)
  | nestedNegation (literal : Term)
  deriving DecidableEq

def ClauseError.message : ClauseError → String
  | .variableHead name => "variable " ++ name ++ " cannot be the head of a clause"
  | .notPredication t => t.text ++ " is not a predication"
  | .protectedPredicate i => "cannot redefine built-in predicate " ++ i.text
  | .directive t => "directive " ++ t.text ++ " cannot be stored as a clause"
  | .illegalGoal t => t.text ++ " cannot be used as a goal"
  | .clauseAsGoal t => "clause " ++ t.text ++ " cannot be used as a goal"
  | .illegalUpdate t => t.text ++ " cannot be part of an update"
  | .nestedNegation t => "negated literal not(" ++ t.text ++ ") must be a plain predication"

/-- Whether clauses may belong to a predicate of this name, leaving built-in
ones aside: its name is an identifier, and it is no control construct. -/
def Indicator.isPredication (i : Indicator) : Bool := Text.isIdentifier i.name && !i.isControl

/-- Checks the head of a clause. -/
def checkHead (t : Term) : Except ClauseError Unit :=
  match t with
  | .var name => .error (.variableHead name)
  | .integer _ | .float _ => .error (.notPredication t)
  | .atom _ | .compound _ _ =>
    if !t.indicator.isPredication then .error (.notPredication t)
    else if t.indicator.isBuiltin then .error (.protectedPredicate t.indicator)
    else .ok ()

/-- The control constructs of two arguments that are both goals. -/
def branching : List String := [",", ";", "->", "*->"]

/-- Checks a goal. -/
def checkGoal : Term → Except ClauseError Unit
  | .var name => .error (.illegalGoal (.var name))
  | .integer i => .error (.illegalGoal (.integer i))
  | .float x => .error (.illegalGoal (.float x))
  | .compound f [left, right] =>
    if f = ":-" then .error (.clauseAsGoal (.compound f [left, right]))
    else if branching.contains f then do
      checkGoal left
      checkGoal right
    else .ok ()
  | _ => .ok ()

/-- Checks a term that is to be stored as a clause. -/
def checkClause (t : Term) : Except ClauseError Unit :=
  match t.unrule? with
  | some (head, body) => do
    checkHead head
    checkGoal body
  | none => if t.isNamed ":-" 1 || t.isNamed "?-" 1 then .error (.directive t) else checkHead t

/-- Checks a fact that an update adds or deletes. -/
def checkLiteral (t : Term) : Except ClauseError Unit :=
  if t.isCallable && t.indicator.isBuiltin then .error (.illegalUpdate t) else checkHead t

namespace Clause

/-- The clause that a term is. -/
def ofTerm (t : Term) (place : Place) : Except ClauseError Clause := do
  checkClause t
  return ⟨t, place⟩

end Clause

/-- The query that a term is. -/
def Query.ofTerm (t : Term) (place : Place) : Except ClauseError Query := do
  checkGoal t
  return ⟨t, place⟩

/-- One conjunct of an update. -/
inductive Change where
  | nothing
  | add (fact : Term)
  | delete (fact : Term)
  deriving DecidableEq

/-- What a conjunct of an update asks for. -/
def Change.ofTerm (t : Term) : Except ClauseError Change :=
  match t with
  | .compound "not" [literal] =>
    if literal.isNamed "not" 1 || literal.isNamed "\\+" 1 then .error (.nestedNegation literal)
    else (checkLiteral literal).map fun _ => .delete literal
  | _ =>
    if t.isNamed "true" 0 then .ok .nothing
    else (checkLiteral t).map fun _ => .add t

/-- The fact to add, if any. -/
def Change.added? : Change → Option Term
  | .add t => some t
  | _ => none

/-- The fact to delete, if any. -/
def Change.deleted? : Change → Option Term
  | .delete t => some t
  | _ => none

/-- The update that a conjunction is. Of several errors the leftmost counts. -/
def Update.ofTerm (t : Term) (place : Place) : Except ClauseError Update := do
  let changes ← t.conjuncts.mapM Change.ofTerm
  return ⟨t, place, (changes.filterMap Change.added?).map (⟨·, place⟩),
    (changes.filterMap Change.deleted?).map (⟨·, place⟩)⟩

theorem checkHead_ok_iff {t : Term} :
    checkHead t = .ok () ↔
      t.isCallable = true ∧ t.indicator.isPredication = true ∧ t.indicator.isBuiltin = false := by
  unfold checkHead Term.isCallable
  cases t <;> simp only [reduceCtorEq, Bool.false_eq_true, false_and, true_and]
  all_goals
    split
    · simp_all
    · split <;> simp_all

end Clausal
