import Clausal.Proofs.Reading.Clean
import Clausal.Proofs.Token.Moved
import Clausal.Proofs.Token.Values
import Clausal.Proofs.Writing.RoundTrip

/-
  Leaves — names and whole numbers, written and read back

  A name is written so that its text is one token: bare where the lexer takes a
  bare word for the same name, between quotes otherwise. A whole number is written
  with its sign, but read without one: the lexer takes the digits for a number
  that is not too large, and a minus before them is drawn in by the reader. So the
  least integer, whose digits alone are too large, is not read back.

  What is proved:
    1. `tokenize_atomChars` — the text of a name is that name and nothing else.
    2. `Document.integer_reread_iff` — an integer is read back just when it is not
       the least one, by itself, as an argument and as a right operand.
    3. `Document.integer_reread_least` — what the text of the least integer is
       read as instead.
-/

namespace Clausal

open Reading Text

/-! ## Names -/

/-- A text that is one token is read as that token, and then as ended. -/
theorem Lexer.run_single {l : Lexer} {c : Char} {tail : List Char} {token : Token}
    (hl : l.rest = c :: tail) (hbegins : BeginsToken c tail)
    (hscan : scan c tail = ⟨.ok token, c :: tail, []⟩) :
    let behind := l.position.after (c :: tail)
    l.run = ⟨[⟨token, Span.between l.position behind, false⟩],
      ⟨.endOfText, Span.between behind behind, false⟩, l.errors⟩ := by
  intro behind
  obtain ⟨cs, position, errors⟩ := l
  obtain rfl : cs = c :: tail := hl
  have hskip : skipLayout ⟨c :: tail, position, errors⟩ =
      (false, ⟨c :: tail, position, errors⟩) := by
    simp only [skipLayout, layout_of_beginsToken hbegins]
    rfl
  have htake : (skipLayout ⟨c :: tail, position, errors⟩).2.take
      (skipLayout ⟨c :: tail, position, errors⟩).1 c tail =
        (.ok ⟨token, Span.between position behind, false⟩, ⟨[], behind, errors⟩) := by
    rw [hskip]
    simp only [take, hscan]
    rfl
  have hend : run ⟨[], behind, errors⟩ =
      ⟨[], ⟨.endOfText, Span.between behind behind, false⟩, errors⟩ := by
    rw [run_of_end] <;> simp [skipLayout, layout, eof, Layout.isSome]
  have hrest : (skipLayout ⟨c :: tail, position, errors⟩).2.rest = c :: tail := by rw [hskip]
  rw [run_of_lexeme hrest htake, hend]

/-- The text of a name is one token with that name, which takes all of the text. Only the
two pairs of brackets are written as two tokens. -/
theorem tokenize_atomChars {name : String} (h : name ∉ bracketNames) (origin : Position) :
    let text := atomChars name
    let token := if needsQuotes name then Token.quotedName name else .name name
    let behind := origin.after text
    tokenize (String.ofList text) origin =
      ⟨[⟨token, Span.between origin behind, false⟩],
        ⟨.endOfText, Span.between behind behind, false⟩, []⟩ := by
  intro text token behind
  simp only [bracketNames, List.mem_cons, List.not_mem_nil, or_false, not_or] at h
  obtain ⟨c, tail, hchars, hscan⟩ := scan_atomChars h.1 h.2
  obtain ⟨hbegins, hscan⟩ := hscan [] delimited_nil
  rw [List.append_nil] at hbegins hscan
  have hrest : (Lexer.ofText (String.ofList text) origin).rest = c :: tail := by
    rw [Lexer.ofText, String.toList_ofList, ← hchars]
  have hrun := Lexer.run_single hrest hbegins hscan
  rw [← hchars] at hrun
  exact hrun

/-- The name `/*'` would open a comment and holds a quote. -/
theorem tokenize_atomChars_comment :
    "/*'" ∉ bracketNames ∧ atomChars "/*'" = "'/*\\''".toList ∧
      tokenize "'/*\\''" .start =
        ⟨[⟨.quotedName "/*'", ⟨1, 1, 0, 6⟩, false⟩], ⟨.endOfText, ⟨1, 7, 6, 6⟩, false⟩, []⟩ := by
  have hname : "/*'" ∉ bracketNames := by decide
  have hchars : atomChars "/*'" = "'/*\\''".toList := by decide
  refine ⟨hname, hchars, ?_⟩
  have h := tokenize_atomChars hname .start
  rw [hchars] at h
  exact h

/-! ## Whole numbers -/

namespace Document

/-- A whole number by itself, as an argument, and as a right operand. -/
def withInteger (i : Int) : List Term :=
  [.integer i, .compound "f" [.integer i], .compound "-" [.var "X", .integer i]]

theorem chars_argument (i : Int) (max : Nat) :
    Term.chars max (.compound "f" [.integer i]) =
      Text.atomChars "f" ++ '(' :: Term.argumentChars [.integer i] ++ [')'] := by
  have hop : Operator.ofArity? "f" 1 = none := by decide
  exact Term.chars_functional max (by simp) ⟨by decide, rfl, hop⟩

theorem minus_between : Operator.between? "-" = some ⟨500, .yfx⟩ := by decide

theorem chars_operand (i : Int) (max : Nat) :
    Term.chars max (.compound "-" [.var "X", .integer i]) = Term.bracketed (max < 500)
      (Term.operandChars 500 (.var "X") ++ Term.betweenChars "-" ++
        Term.operandChars 499 (.integer i)) :=
  Term.chars_between max _ _ (by decide) minus_between

/-- Where a whole number is legible, so are the terms with it. -/
theorem legible_withInteger {i : Int} (hlow : -(maxInteger : Int) ≤ i) (hhigh : i ≤ maxInteger) :
    ∀ t ∈ withInteger i, Legible (t.chars maxPriority) t maxPriority false 1 := by
  have hinteger : ∀ max, Legible ((Term.integer i).chars max) (.integer i) max false 0 := by
    intro max
    rw [Term.chars]
    exact legible_integer hlow hhigh
  refine List.forall_mem_cons.mpr ⟨(hinteger maxPriority).mono (Nat.zero_le 1),
    List.forall_mem_cons.mpr ⟨?_, List.forall_mem_singleton.mpr ?_⟩⟩
  · have hall : LegibleAll (Term.argumentChars [.integer i]) [.integer i] 0 :=
      legibleAll_arguments (by simp) (List.forall_mem_singleton.mpr (hinteger _))
    rw [chars_argument]
    exact legible_functional (by simp) (by decide) (by decide) hall
  · have hvar : IsVariableName "X" :=
      ⟨'X', [], rfl, Or.inr (by decide +kernel), List.forall_mem_nil _⟩
    have hleft : Legible (Term.operandChars 500 (.var "X")) (.var "X") 500 false 0 := by
      rw [Term.operandChars, Term.chars]
      exact legible_var hvar
    have hright : Legible (Term.operandChars 499 (.integer i)) (.integer i) 499 false 0 := by
      rw [Term.operandChars]
      exact hinteger 499
    rw [chars_operand]
    exact legible_between minus_between hleft hright

theorem texts_withInteger (i : Int) :
    (withInteger i).map Term.text = [String.ofList (Number.intChars i),
      String.ofList ("f(".toList ++ Number.intChars i ++ [')']),
      String.ofList ("X - ".toList ++ Number.intChars i)] := by
  simp only [withInteger, List.map_cons, List.map_nil, Term.text, chars_argument, chars_operand,
    Term.argumentChars, Term.operandChars, Term.chars]
  rfl

/-- The digits of the least integer are too large for a number without a sign, wherever
the text begins. -/
theorem errors_withLeast (origin : Position) :
    ∀ t ∈ withInteger Int64.minValue.toInt, (tokenize t.text origin).errors ≠ [] := by
  have hstart : ∀ text ∈ (withInteger Int64.minValue.toInt).map Term.text,
      (tokenize text .start).errors ≠ [] := by
    rw [texts_withInteger]
    decide +kernel
  intro t ht hnil
  have hmoved := (tokenize_moved t.text .start origin).errors
  rw [hnil, List.forall₂_nil_right_iff] at hmoved
  exact hstart t.text (List.mem_map_of_mem ht) hmoved

/-- An integer is read back from its text, by itself, as an argument and as a right
operand, just when it is not the least one. One level of nesting is enough for it. -/
theorem integer_reread_iff (n : Int64) (origin : Place) (options : Options)
    (hdepth : 2 ≤ options.maxDepth) :
    ∀ t ∈ withInteger n.toInt,
      (∃ place, (ofText t.text origin options).term = ⟨.ok (some ⟨t, place⟩), ∅⟩) ↔
        n ≠ Int64.minValue := by
  intro t ht
  constructor
  · rintro ⟨place, hread⟩ rfl
    have hresult : (ofText t.text origin options).term.result = .ok (some ⟨t, place⟩) := by
      rw [hread]
    have hempty : (ofText t.text origin options).term.diagnostics = ∅ := by rw [hread]
    have hlexical := ((onePass_clean hresult).mp hempty).1
    exact errors_withLeast origin.position t ht (lexical_eq_nil_iff.mp hlexical)
  · intro hne
    have hleast : n.toInt ≠ -2 ^ 63 := by
      rwa [Ne, ← Int64.toInt_minValue, Int64.toInt_inj]
    have hlow : -(maxInteger : Int) ≤ n.toInt := by
      have := n.le_toInt
      rw [maxInteger]
      omega
    have hhigh : n.toInt ≤ maxInteger := by
      have := n.toInt_lt
      rw [maxInteger]
      omega
    obtain ⟨hlexical, priority, hread⟩ :=
      read_legible (legible_withInteger hlow hhigh t ht) origin options hdepth
    exact ⟨_, term_of_read hlexical (hread .thorough)⟩

/-- The largest integer under a minus that stands between two terms. -/
theorem integer_reread_iff_largest :
    let t : Term := .compound "-" [.var "X", .integer Int64.maxValue.toInt]
    2 ≤ ({} : Options).maxDepth ∧ t.text = "X - 9223372036854775807" ∧
      t ∈ withInteger Int64.maxValue.toInt ∧
      ∃ place, (ofText t.text .origin {}).term = ⟨.ok (some ⟨t, place⟩), ∅⟩ := by
  intro t
  have hdepth : 2 ≤ ({} : Options).maxDepth := by decide
  have hmem : t ∈ withInteger Int64.maxValue.toInt := by simp [withInteger, t]
  have htext : t.text = "X - 9223372036854775807" := by
    simp only [t, Term.text, chars_operand, Term.operandChars, Term.chars]
    decide +kernel
  exact ⟨hdepth, htext, hmem, (integer_reread_iff _ .origin {} hdepth t hmem).mpr (by decide)⟩

/-- The least integer is written with digits that are refused, so that only its minus is
read, as an atom. -/
theorem integer_reread_least :
    let t : Term := .integer Int64.minValue.toInt
    t.text = "-9223372036854775808" ∧
      (ofText t.text .origin {}).term = ⟨.ok (some ⟨.atom "-", ⟨none, 1, 1, 0, 1⟩⟩),
        .ofList [⟨"integer '9223372036854775808' is out of range", ⟨none, 1, 2, 1, 20⟩⟩]⟩ := by
  intro t
  let d := ofText "-9223372036854775808" .origin {}
  have htext : t.text = "-9223372036854775808" := by
    simp only [t, Term.text, Term.chars]
    decide +kernel
  have hlexemes : d.lexemes = [⟨.name "-", ⟨1, 1, 0, 1⟩, false⟩] := by decide +kernel
  have hlexical : d.lexical =
      [⟨"integer '9223372036854775808' is out of range", ⟨none, 1, 2, 1, 20⟩⟩] := by
    decide +kernel
  have hread : (d.reader .thorough).read maxPriority .term d.lexemes =
      .read (.atom "-", 0) [] none := by
    rw [hlexemes]
    exact terms_read (start_of_primary [] rfl) rfl
  have hterm : d.term = ⟨.ok (some ⟨.atom "-", ⟨none, 1, 1, 0, 1⟩⟩),
      .ofList [⟨"integer '9223372036854775808' is out of range", ⟨none, 1, 2, 1, 20⟩⟩]⟩ := by
    rw [term_of_reads hread, diagnosticsWith, hlexical, hlexemes]
    rfl
  exact ⟨htext, by rw [htext]; exact hterm⟩

end Document

end Clausal
