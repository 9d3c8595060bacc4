import Clausal.Operator
import Clausal.Text.AtomText

/-
  Operator table — what holds of every operator there is

  Facts about the table are evaluated on its rows and handed on to every name
  that the table is asked for.

  What is proved:
    1. `find?_eq_some` — an operator that was found stands in the table under
       its name.
    2. `after?_eq_none` — no operator stands behind its argument.
    3. `rightMax_lt_of_le_leftMax` — an operator whose term may stand on the
       left of another takes no argument on its right that could hold the
       other one.
    4. `needsQuotes_of_isName` — but for the comma no operator needs quotes.
-/

namespace Clausal.Operator

/-- The operator stands in the table. -/
def Listed (op : Operator) : Prop := op ∈ table.map (·.1)

theorem find?_eq_some {position : Fixity → Bool} {name : String} {op : Operator}
    (h : find? position name = some op) :
    ∃ names, (op, names) ∈ table ∧ position op.fixity = true ∧ name ∈ names := by
  obtain ⟨⟨found, names⟩, hfind, rfl⟩ := Option.map_eq_some_iff.mp h
  have htest := List.find?_some hfind
  simp only [Bool.and_eq_true, List.contains_iff_mem] at htest
  exact ⟨names, List.mem_of_find?_eq_some hfind, htest.1, htest.2⟩

theorem listed_of_find? {position : Fixity → Bool} {name : String} {op : Operator}
    (h : find? position name = some op) : op.Listed := by
  obtain ⟨names, hmem, _, _⟩ := find?_eq_some h
  exact List.mem_map.mpr ⟨(op, names), hmem, rfl⟩

theorem isName_of_find? {position : Fixity → Bool} {name : String} {op : Operator}
    (h : find? position name = some op) : isName name = true := by
  obtain ⟨names, hmem, _, hname⟩ := find?_eq_some h
  exact List.any_eq_true.mpr ⟨(op, names), hmem, by simpa using hname⟩

theorem after?_eq_none (name : String) : after? name = none := by
  cases h : after? name with
  | none => rfl
  | some op =>
    obtain ⟨names, hmem, hfixity, _⟩ := find?_eq_some h
    have hrow := (by decide : ∀ row ∈ table, row.1.fixity.isAfter = false) _ hmem
    rw [hfixity] at hrow
    cases hrow

/-! ## Priorities -/

theorem Listed.priority_pos {op : Operator} (h : op.Listed) : 0 < op.priority :=
  (by decide : ∀ op ∈ table.map (·.1), 0 < op.priority) op h

theorem Listed.priority_le {op : Operator} (h : op.Listed) : op.priority ≤ maxPriority :=
  (by decide : ∀ op ∈ table.map (·.1), op.priority ≤ maxPriority) op h

theorem rightMax_lt_of_le_leftMax {inner outer : Operator} (hinner : inner.Listed)
    (houter : outer.Listed) (h : inner.priority ≤ outer.leftMax) :
    inner.rightMax < outer.priority :=
  (by decide : ∀ inner ∈ table.map (·.1), ∀ outer ∈ table.map (·.1),
    inner.priority ≤ outer.leftMax → inner.rightMax < outer.priority) inner hinner outer houter h

/-! ## Names -/

theorem needsQuotes_of_isName {name : String} (h : isName name = true) (hne : name ≠ ",") :
    Text.needsQuotes name = false := by
  obtain ⟨⟨op, names⟩, hrow, hname⟩ := List.any_eq_true.mp h
  have hbare := (by decide : ∀ row ∈ table, ∀ n ∈ row.2, n ≠ "," → Text.needsQuotes n = false)
  exact hbare _ hrow name (by simpa using hname) hne

/-- Neither pair of brackets is the name of an operator. -/
theorem not_isName_brackets : isName "[]" = false ∧ isName "\x7b\x7d" = false := by decide

end Clausal.Operator
