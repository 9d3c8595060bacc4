import Clausal.Proofs.Token.Run

/-
  Spelling — texts that are read as given words, whatever their place

  A word is a lexeme without its place. A text spells words when reading it
  gives these words and no error. What a text spells does not depend on where
  the text begins.

  What is proved:
    1. `Lexer.run_of_spells` — a lexer before a text that spells words reads
       exactly these words and records no error.
    2. `Spells.word_behind` — a token before a text that spells words.
-/

namespace Clausal

/-- A token and whether a blank or a comment stands directly before it. -/
structure Word where
  gap : Bool
  token : Token
  deriving DecidableEq, Repr

/-- The lexeme without its place. -/
def Lexeme.word (l : Lexeme) : Word := ⟨l.layoutBefore, l.token⟩

namespace Text

/-- The text is read as these words, without an error. -/
inductive Spells : List Char → List Word → Prop where
  | done {cs : List Char} : (layout cs).unclosed = [] → (layout cs).rest = [] → Spells cs []
  | word {cs rest text more : List Char} {c : Char} {token : Token} {ws : List Word} :
    (layout cs).unclosed = [] → (layout cs).rest = c :: rest →
    scan c rest = ⟨.ok token, text, more⟩ → Spells more ws →
    Spells cs (⟨(layout cs).isSome, token⟩ :: ws)

end Text

namespace Lexer

/-- At the end of the text nothing is read but the end. -/
theorem run_done {l : Lexer} (h : (Text.layout l.rest).rest = []) :
    l.run.lexemes = [] ∧ l.run.errors = l.skipLayout.2.errors := by
  rw [run_of_end h]
  exact ⟨rfl, rfl⟩

/-- A token is read, and then what is behind it. -/
theorem run_token {l : Lexer} {c : Char} {rest text more : List Char} {token : Token}
    (h : (Text.layout l.rest).rest = c :: rest)
    (hscan : Text.scan c rest = ⟨.ok token, text, more⟩) :
    ∃ (span : Span) (after : Lexer), after.rest = more ∧ after.errors = l.skipLayout.2.errors ∧
      l.run.lexemes = ⟨token, span, (Text.layout l.rest).isSome⟩ :: after.run.lexemes ∧
      l.run.errors = after.run.errors := by
  let span := Span.between l.skipLayout.2.position (l.skipLayout.2.position.after text)
  let after : Lexer :=
    ⟨more, l.skipLayout.2.position.after text, l.skipLayout.2.errors⟩
  have htake : l.skipLayout.2.take l.skipLayout.1 c rest =
      (.ok ⟨token, span, (Text.layout l.rest).isSome⟩, after) := by
    simp only [take, hscan]
    rfl
  have hrun := run_of_lexeme h htake
  exact ⟨span, after, rfl, rfl, by rw [hrun], by rw [hrun]⟩

theorem run_of_spells {l : Lexer} {ws : List Word} (h : Text.Spells l.rest ws) :
    l.run.lexemes.map Lexeme.word = ws ∧ l.run.errors = l.errors := by
  generalize hcs : l.rest = cs at h
  induction h generalizing l with
  | done hclosed hend =>
    subst hcs
    obtain ⟨hlex, herr⟩ := run_done hend
    exact ⟨by rw [hlex]; rfl, by rw [herr, skipLayout_errors hclosed]⟩
  | word hclosed hrest hscan _ ih =>
    subst hcs
    obtain ⟨span, after, hmore, herr, hlex, herrs⟩ := run_token hrest hscan
    obtain ⟨ihlex, iherr⟩ := ih hmore
    constructor
    · rw [hlex, List.map_cons, ihlex]
      rfl
    · rw [herrs, iherr, herr, skipLayout_errors hclosed]

end Lexer

/-- Reading a text that spells words gives lexemes of these words and no error. -/
theorem tokenize_of_spells {text : String} {ws : List Word} (origin : Position)
    (h : Text.Spells text.toList ws) :
    (tokenize text origin).lexemes.map Lexeme.word = ws ∧ (tokenize text origin).errors = [] :=
  Lexer.run_of_spells (l := .ofText text origin) h

namespace Text

/-! ## Words one by one -/

/-- A blank, where one is asked for. -/
def blankIf (gap : Bool) : List Char := if gap then [' '] else []

/-- A character that begins no layout before this text. -/
def BeginsToken (c : Char) (rest : List Char) : Prop :=
  isBlank c = false ∧ c ≠ '%' ∧ ¬ (c = '/' ∧ rest.head? = some '*')

theorem layout_of_beginsToken {c : Char} {rest : List Char} (h : BeginsToken c rest) :
    layout (c :: rest) = ⟨[], [], c :: rest⟩ := by
  obtain ⟨hblank, hpercent, hcomment⟩ := h
  rw [layout]
  simp [hblank, hpercent, hcomment]

theorem layout_blankIf {c : Char} {rest : List Char} (gap : Bool) (h : BeginsToken c rest) :
    layout (blankIf gap ++ c :: rest) = ⟨blankIf gap, [], c :: rest⟩ := by
  cases gap with
  | false => exact layout_of_beginsToken h
  | true =>
    show layout (' ' :: c :: rest) = ⟨[' '], [], c :: rest⟩
    rw [layout, if_pos (by decide), layout_of_beginsToken h]
    rfl

/-- A token before a text that spells words. -/
theorem Spells.word_behind {c : Char} {rest text more : List Char} {token : Token}
    {ws : List Word} (gap : Bool) (hc : BeginsToken c rest)
    (hscan : scan c rest = ⟨.ok token, text, more⟩) (hmore : Spells more ws) :
    Spells (blankIf gap ++ c :: rest) (⟨gap, token⟩ :: ws) := by
  have hl := layout_blankIf gap hc
  have hgap : (layout (blankIf gap ++ c :: rest)).isSome = gap := by
    rw [hl]
    cases gap <;> rfl
  have h : Spells (blankIf gap ++ c :: rest)
      (⟨(layout (blankIf gap ++ c :: rest)).isSome, token⟩ :: ws) :=
    .word (by rw [hl]) (by rw [hl]) hscan hmore
  rwa [hgap] at h

theorem spells_nil : Spells [] [] := by
  refine .done ?_ ?_ <;> simp [layout]

end Text

/-- Where a token begins, nothing is skipped before it. -/
theorem Lexer.next_of_beginsToken {l : Lexer} {c : Char} {rest : List Char}
    (h : Text.BeginsToken c rest) (hl : l.rest = c :: rest) : l.next = l.take false c rest := by
  obtain ⟨cs, position, errors⟩ := l
  obtain rfl : cs = c :: rest := hl
  simp only [next, skipLayout, Text.layout_of_beginsToken h]
  rfl

end Clausal
