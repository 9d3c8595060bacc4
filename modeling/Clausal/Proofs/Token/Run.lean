import Clausal.Token.Lexer

/-
  Running — how a text is read to its end

  The lexer moves on with every step: past layout, past a token, or past
  characters that are none. So a text is read by recursion on what is left.

  What is proved:
    1. `Lexer.run_eq` — one step of the lexer, without the measure.
    2. `Lexer.rest_length_lt` — behind a step less is left.
-/

namespace Clausal

namespace Lexer

/-- One step of the lexer: the end of the text, a token, or an error. -/
theorem run_eq (l : Lexer) :
    l.run = match l.skipLayout.2.rest with
      | [] => ⟨[], l.skipLayout.2.eof l.skipLayout.1, l.skipLayout.2.errors⟩
      | c :: rest =>
        let taken := l.skipLayout.2.take l.skipLayout.1 c rest
        match taken.1 with
        | .ok lexeme => { taken.2.run with lexemes := lexeme :: taken.2.run.lexemes }
        | .error e => run { taken.2 with errors := taken.2.errors ++ [e] } := by
  rw [run.eq_def]
  split
  · rename_i heq
    rewrite [heq]
    rfl
  · rename_i heq
    rewrite [heq]
    rfl

section

variable {l after : Lexer} {c : Char} {rest : List Char}

theorem run_of_end (h : l.skipLayout.2.rest = []) :
    l.run = ⟨[], l.skipLayout.2.eof l.skipLayout.1, l.skipLayout.2.errors⟩ := by
  rw [run_eq, h]

theorem run_of_lexeme (h : l.skipLayout.2.rest = c :: rest) {lexeme : Lexeme}
    (htake : l.skipLayout.2.take l.skipLayout.1 c rest = (.ok lexeme, after)) :
    l.run = { after.run with lexemes := lexeme :: after.run.lexemes } := by
  rw [run_eq, h]
  simp only [htake]

theorem run_of_error (h : l.skipLayout.2.rest = c :: rest) {e : LexicalError}
    (htake : l.skipLayout.2.take l.skipLayout.1 c rest = (.error e, after)) :
    l.run = run { after with errors := after.errors ++ [e] } := by
  rw [run_eq, h]
  simp only [htake]

/-- Behind a step less is left. -/
theorem rest_length_lt (h : l.skipLayout.2.rest = c :: rest)
    {result : Except LexicalError Lexeme}
    (htake : l.skipLayout.2.take l.skipLayout.1 c rest = (result, after)) :
    after.rest.length < l.rest.length := by
  have hlength := l.skipLayout_length_le
  have hlt := l.skipLayout.2.take_length_lt l.skipLayout.1 c rest
  rw [h] at hlength
  rw [htake] at hlt
  exact Nat.lt_of_lt_of_le hlt hlength

end

theorem skipLayout_errors {l : Lexer} (h : (Text.layout l.rest).unclosed = []) :
    l.skipLayout.2.errors = l.errors := by
  simp [skipLayout, h]

end Lexer

end Clausal
