/-
  Positions — lines, columns and offsets of a text

  A position is counted along the characters that lie before it: a line end
  opens a new line at column 1, anything else moves one column on. Offsets
  count characters.

  What is proved:
    1. `Position.after_append` — walking over two texts is walking over one
       and then the other.
    2. `Position.after_offset` — the offset moves by the length of the text.
-/

namespace Clausal

/-- A place between two characters. Lines and columns count from 1. -/
structure Position where
  line : Nat
  column : Nat
  offset : Nat
  deriving DecidableEq, Repr, Inhabited

namespace Position

/-- Where a text of its own begins. -/
def start : Position := ⟨1, 1, 0⟩

/-- The position behind the character `c`. -/
def step (p : Position) (c : Char) : Position :=
  if c = '\n' then ⟨p.line + 1, 1, p.offset + 1⟩ else ⟨p.line, p.column + 1, p.offset + 1⟩

/-- The position behind a text. -/
def after (p : Position) (text : List Char) : Position := text.foldl step p

@[simp] theorem after_nil (p : Position) : p.after [] = p := rfl

theorem after_cons (p : Position) (c : Char) (text : List Char) :
    p.after (c :: text) = (p.step c).after text := rfl

theorem after_append (p : Position) (a b : List Char) :
    p.after (a ++ b) = (p.after a).after b := by
  simp [after]

theorem after_offset (p : Position) (text : List Char) :
    (p.after text).offset = p.offset + text.length := by
  induction text generalizing p with
  | nil => simp
  | cons c text ih =>
    rw [after_cons, ih]
    unfold step
    split <;> simp <;> omega

end Position

/-- A stretch of text: where it begins, and the offset behind its last
character. -/
structure Span where
  line : Nat
  column : Nat
  start : Nat
  stop : Nat
  deriving DecidableEq, Repr, Inhabited

namespace Span

/-- The stretch from one position to another. -/
def between (first last : Position) : Span :=
  ⟨first.line, first.column, first.offset, last.offset⟩

/-- Written `line:column`. -/
def text (s : Span) : String := toString s.line ++ ":" ++ toString s.column

end Span

end Clausal
