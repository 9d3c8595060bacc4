import Clausal.Token.Layout
import Clausal.Token.Numeral

/-
  Lexer — a text as a list of lexemes

  A token is read at a time, always the longest one of its kind. Characters
  that are no token are passed over as an error, and reading goes on behind
  them. A dot ends a clause when a blank, a comment or the end of the text
  follows it.

  What is proved:
    1. `scan_append` — the text of a token and what is left make up the input.
    2. `scan_ne_nil` — a token takes at least one character, so reading a text
       to its end is a recursion on what is left.
-/

namespace Clausal

namespace Text

/-- What a quoted text becomes as a token. -/
def quotedToken (make : String → Token) : Contents → Except LexicalFault Token
  | some (.ok chars) => .ok (make (String.ofList chars))
  | some (.error fault) => .error (.escape fault)
  | none => .error .unterminatedQuote

/-- A run of symbol characters; it ends before a comment. -/
def symbolRun : List Char → List Char
  | [] => []
  | c :: rest =>
    if isSymbolChar c && !(c == '/' && rest.head? == some '*') then c :: symbolRun rest else []

/-- The token made of one character alone. -/
def soloToken : Char → Option Token
  | '(' => some .openRound
  | ')' => some .closeRound
  | '[' => some .openSquare
  | ']' => some .closeSquare
  | '{' => some .openCurly
  | '}' => some .closeCurly
  | ',' => some .comma
  | '|' => some .bar
  | '!' => some (.name "!")
  | ';' => some (.name ";")
  | _ => none

/-- The kind of token that a quote opens. -/
def quoteToken : Char → Option (String → Token)
  | '\'' => some .quotedName
  | '"' => some .string
  | '\x60' => some .backQuoted
  | _ => none

/-- Whether a dot before this text ends a clause. -/
def endsClause (rest : List Char) : Bool := rest.head?.all fun c => isBlank c || c == '%'

/-- A token whose first character is `c`. -/
def scan (c : Char) (rest : List Char) : Scan :=
  match soloToken c, quoteToken c with
  | some token, _ => ⟨.ok token, [c], rest⟩
  | none, some make => ((quotedText c rest).map (quotedToken make)).behind [c]
  | none, none =>
    if isDigitIn 10 c then numeral (c :: rest)
    else if isAlphabetic c || isUppercase c || c == '_' then
      let text := c :: rest.takeWhile isIdentChar
      let word := String.ofList text
      let token := if c == '_' || isUppercase c then .var word else .name word
      ⟨.ok token, text, rest.dropWhile isIdentChar⟩
    else if c == '.' && endsClause rest then ⟨.ok .stop, [c], rest⟩
    else if isSymbolChar c then
      let text := c :: symbolRun rest
      ⟨.ok (.name (String.ofList text)), text, (c :: rest).drop text.length⟩
    else ⟨.error (.unrecognized c), [c], rest⟩

theorem symbolRun_append (cs : List Char) : symbolRun cs ++ cs.drop (symbolRun cs).length = cs := by
  induction cs with
  | nil => rfl
  | cons c rest ih =>
    simp only [symbolRun]
    split <;> simp [ih]

theorem scan_append (c : Char) (rest : List Char) :
    (scan c rest).text ++ (scan c rest).rest = c :: rest := by
  unfold scan
  split
  · rfl
  · simp [Taken.behind, Taken.map, quotedText_append]
  · split
    · exact numeral_append _
    · split
      · simp [List.takeWhile_append_dropWhile]
      · split
        · rfl
        · split
          · simp [symbolRun_append]
          · rfl

theorem scan_ne_nil (c : Char) (rest : List Char) : (scan c rest).text ≠ [] := by
  unfold scan
  split
  · simp
  · simp [Taken.behind]
  · split
    · rename_i h
      exact numeral_ne_nil h
    · split
      · simp
      · split
        · simp
        · split <;> simp

theorem scan_length_lt (c : Char) (rest : List Char) :
    (scan c rest).rest.length < (c :: rest).length := by
  have h := congrArg List.length (scan_append c rest)
  have := List.length_pos_iff.mpr (scan_ne_nil c rest)
  simp only [List.length_append] at h
  omega

end Text

/-! ## Reading with positions -/

/-- What is left of a text, where it begins, and the errors recorded so far. -/
structure Lexer where
  rest : List Char
  position : Position
  errors : List LexicalError
  deriving DecidableEq, Repr

/-- A text read to its end. -/
structure Lexed where
  lexemes : List Lexeme
  eof : Lexeme
  errors : List LexicalError
  deriving DecidableEq, Repr

namespace Lexer

/-- A text that begins at a position. -/
def ofText (text : String) (origin : Position) : Lexer := ⟨text.toList, origin, []⟩

/-- Moves past blanks and comments and says whether there were any. A comment
that is never closed is recorded as an error. -/
def skipLayout (l : Lexer) : Bool × Lexer :=
  let gap := Text.layout l.rest
  let opened := l.position.after gap.skipped
  let here := opened.after gap.unclosed
  let errors :=
    if gap.unclosed.isEmpty then l.errors
    else l.errors ++ [⟨.unterminatedComment, Span.between opened here⟩]
  (gap.isSome, ⟨gap.rest, here, errors⟩)

/-- Reads the token that begins with `c`. -/
def take (l : Lexer) (layoutBefore : Bool) (c : Char) (rest : List Char) :
    Except LexicalError Lexeme × Lexer :=
  let found := Text.scan c rest
  let here := l.position.after found.text
  let span := Span.between l.position here
  let result := match found.value with
    | .ok token => .ok ⟨token, span, layoutBefore⟩
    | .error fault => .error ⟨fault, span⟩
  (result, ⟨found.rest, here, l.errors⟩)

/-- The lexeme at the end of the text. -/
def eof (l : Lexer) (layoutBefore : Bool) : Lexeme :=
  ⟨.endOfText, Span.between l.position l.position, layoutBefore⟩

/-- Reads one lexeme; at the end of the text the same one again and again. -/
def next (l : Lexer) : Except LexicalError Lexeme × Lexer :=
  let (layoutBefore, l) := l.skipLayout
  match l.rest with
  | [] => (.ok (l.eof layoutBefore), l)
  | c :: rest => l.take layoutBefore c rest

theorem skipLayout_length_le (l : Lexer) : l.skipLayout.2.rest.length ≤ l.rest.length :=
  Text.layout_length_le l.rest

theorem take_length_lt (l : Lexer) (b : Bool) (c : Char) (rest : List Char) :
    (l.take b c rest).2.rest.length < (c :: rest).length :=
  Text.scan_length_lt c rest

/-- Reads to the end of the text, recording every error on the way. -/
def run (l : Lexer) : Lexed :=
  match _h : l.skipLayout.2.rest with
  | [] => ⟨[], l.skipLayout.2.eof l.skipLayout.1, l.skipLayout.2.errors⟩
  | c :: rest =>
    let taken := l.skipLayout.2.take l.skipLayout.1 c rest
    match taken.1 with
    | .ok lexeme =>
      let after := run taken.2
      { after with lexemes := lexeme :: after.lexemes }
    | .error e => run { taken.2 with errors := taken.2.errors ++ [e] }
termination_by l.rest.length
decreasing_by
  all_goals
    have h₁ := skipLayout_length_le l
    have h₂ := take_length_lt l.skipLayout.2 l.skipLayout.1 c rest
    rw [_h] at h₁
    omega

end Lexer

/-- The lexemes of a text that begins at a position. -/
def tokenize (text : String) (origin : Position) : Lexed := (Lexer.ofText text origin).run

end Clausal
