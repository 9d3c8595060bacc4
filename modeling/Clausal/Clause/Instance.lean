import Clausal.Clause.Check
import Clausal.Substitution.Basic

/-
  Instances — clauses, queries and updates under a substitution

  Bindings are followed in the term and, for an update, in every clause it adds
  or deletes. The place stays that of the text.
-/

namespace Clausal

/-- The clause with its bound variables replaced. -/
def Clause.instantiate (c : Clause) (s : Substitution) : Clause := { c with term := s.apply c.term }

/-- The query with its bound variables replaced. -/
def Query.instantiate (q : Query) (s : Substitution) : Query := { q with term := s.apply q.term }

/-- The update with its bound variables replaced. -/
def Update.instantiate (u : Update) (s : Substitution) : Update :=
  ⟨s.apply u.term, u.place, u.adds.map (·.instantiate s), u.deletes.map (·.instantiate s)⟩

end Clausal
