import Clausal.Source.Position

/-
  Places — stretches of a named or nameless text

  Places are ordered by file, a nameless text before any file, then by line and
  column, and last by their offsets.

  What is proved:
    1. The order is transitive, and two places tie only when they are the same.
-/

namespace Clausal

/-- A stretch of text and the file it lies in. -/
structure Place where
  file : Option String
  line : Nat
  column : Nat
  start : Nat
  stop : Nat
  deriving DecidableEq, Repr

namespace Place

/-- The beginning of a text of its own. -/
def origin : Place := ⟨none, 1, 1, 0, 0⟩

/-- The stretch `s` of a file. -/
def ofSpan (file : Option String) (s : Span) : Place := ⟨file, s.line, s.column, s.start, s.stop⟩

/-- Where the place begins. -/
def position (p : Place) : Position := ⟨p.line, p.column, p.start⟩

/-- The place drawn out to the end of `s`. -/
def through (p : Place) (s : Span) : Place := { p with stop := max p.stop s.stop }

/-- Written `file:line:column`, or `line:column` without a file. -/
def text (p : Place) : String :=
  let here := toString p.line ++ ":" ++ toString p.column
  match p.file with
  | some file => file ++ ":" ++ here
  | none => here

/-- By file, a nameless text before any file, then by line, column and offsets. -/
instance : Ord Place where
  compare := compareLex (compareOn file) <| compareLex (compareOn line) <|
    compareLex (compareOn column) <| compareLex (compareOn start) (compareOn stop)

instance : Std.TransOrd Place :=
  inferInstanceAs (Std.TransCmp (compareLex (compareOn file) (compareLex (compareOn line)
    (compareLex (compareOn column) (compareLex (compareOn start) (compareOn stop))))))

instance : Std.LawfulEqOrd Place where
  eq_of_compare {a b} h := by
    have ⟨hfile, h⟩ := Ordering.then_eq_eq.mp h
    have ⟨hline, h⟩ := Ordering.then_eq_eq.mp h
    have ⟨hcolumn, h⟩ := Ordering.then_eq_eq.mp h
    have ⟨hstart, hstop⟩ := Ordering.then_eq_eq.mp h
    cases a
    cases b
    simp_all [compareOn]

end Place

/-- A value and where it was read. -/
structure Located (α : Type) where
  value : α
  place : Place

end Clausal
