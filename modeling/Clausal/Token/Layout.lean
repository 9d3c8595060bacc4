import Clausal.Text.Classes

/-
  Layout — blanks and comments between tokens

  A line comment runs from `%` to the end of its line. Block comments nest. A
  block comment that is never closed swallows the rest of the text.

  What is proved:
    1. `closeComment_append` and `layout_append` — nothing is lost: what was
       skipped and what is left make up the text.
    2. `layout_rest_of_unclosed` — nothing is left behind an unclosed comment.
-/

namespace Clausal.Text

/-- Reads on until `depth` open block comments are closed: the text read and
the rest, or `none` when the text ends first. -/
def closeComment : Nat → List Char → Option (List Char × List Char)
  | 0, cs => some ([], cs)
  | _ + 1, [] => none
  | depth + 1, '*' :: '/' :: rest =>
    (closeComment depth rest).map fun (text, left) => ('*' :: '/' :: text, left)
  | depth + 1, '/' :: '*' :: rest =>
    (closeComment (depth + 2) rest).map fun (text, left) => ('/' :: '*' :: text, left)
  | depth + 1, c :: rest =>
    (closeComment (depth + 1) rest).map fun (text, left) => (c :: text, left)

theorem closeComment_append {depth : Nat} {cs text left : List Char}
    (h : closeComment depth cs = some (text, left)) : text ++ left = cs := by
  fun_induction closeComment depth cs generalizing text with
  | case1 cs => simp_all
  | case2 => simp at h
  | case3 depth rest ih =>
    obtain ⟨⟨t, l⟩, ht, he⟩ := Option.map_eq_some_iff.mp h
    simp only [Prod.mk.injEq] at he
    obtain ⟨rfl, rfl⟩ := he
    simp [ih ht]
  | case4 depth rest ih =>
    obtain ⟨⟨t, l⟩, ht, he⟩ := Option.map_eq_some_iff.mp h
    simp only [Prod.mk.injEq] at he
    obtain ⟨rfl, rfl⟩ := he
    simp [ih ht]
  | case5 depth c rest _ _ ih =>
    obtain ⟨⟨t, l⟩, ht, he⟩ := Option.map_eq_some_iff.mp h
    simp only [Prod.mk.injEq] at he
    obtain ⟨rfl, rfl⟩ := he
    simp [ih ht]

/-- What stands before the next token: the blanks and comments skipped, the text
of a block comment that is never closed, and what is left. -/
structure Layout where
  skipped : List Char
  unclosed : List Char
  rest : List Char
  deriving DecidableEq, Repr

/-- The same layout with more skipped before it. -/
def Layout.behind (l : Layout) (text : List Char) : Layout :=
  { l with skipped := text ++ l.skipped }

/-- Skips blanks and comments. -/
def layout (cs : List Char) : Layout :=
  match cs with
  | [] => ⟨[], [], []⟩
  | c :: rest =>
    if isBlank c then (layout rest).behind [c]
    else if c = '%' then
      (layout (rest.dropWhile (· != '\n'))).behind (c :: rest.takeWhile (· != '\n'))
    else if c = '/' ∧ rest.head? = some '*' then
      match _h : closeComment 1 rest.tail with
      | some (text, left) => (layout left).behind ('/' :: '*' :: text)
      | none => ⟨[], c :: rest, []⟩
    else ⟨[], [], c :: rest⟩
termination_by cs.length
decreasing_by
  · simp
  · have : (rest.dropWhile (· != '\n')).length ≤ rest.length :=
      (List.dropWhile_suffix _).length_le
    simp only [List.length_cons]
    omega
  · have := congrArg List.length (closeComment_append _h)
    simp only [List.length_append, List.length_tail] at this
    simp only [List.length_cons]
    omega

/-- Whether anything was skipped. -/
def Layout.isSome (l : Layout) : Bool := !(l.skipped.isEmpty && l.unclosed.isEmpty)

theorem layout_append (cs : List Char) :
    (layout cs).skipped ++ (layout cs).unclosed ++ (layout cs).rest = cs := by
  fun_induction layout cs with
  | case1 => rfl
  | case2 c rest _ ih => simpa [Layout.behind] using ih
  | case3 rest _ ih =>
    simp only [Layout.behind, List.cons_append, List.append_assoc] at ih ⊢
    rw [ih, List.takeWhile_append_dropWhile]
  | case4 c rest _ _ hc text left h ih =>
    obtain ⟨rfl, hstar⟩ := hc
    simp only [Layout.behind, List.cons_append, List.append_assoc] at ih ⊢
    obtain ⟨more, rfl⟩ := List.head?_eq_some_iff.mp hstar
    rw [ih, closeComment_append h]
    rfl
  | case5 => simp
  | case6 => simp

theorem layout_rest_of_unclosed {cs : List Char} (h : (layout cs).unclosed ≠ []) :
    (layout cs).rest = [] := by
  fun_induction layout cs with
  | case1 => rfl
  | case2 c rest _ ih => exact ih h
  | case3 rest _ ih => exact ih h
  | case4 c rest _ _ hc text left _ ih => exact ih h
  | case5 => rfl
  | case6 => simp at h

theorem layout_length_le (cs : List Char) : (layout cs).rest.length ≤ cs.length := by
  have := congrArg List.length (layout_append cs)
  simp only [List.length_append] at this
  omega

end Clausal.Text
