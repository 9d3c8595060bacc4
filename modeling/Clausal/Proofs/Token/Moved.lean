import Clausal.Proofs.Token.Run
import Clausal.Source.Place
import Mathlib.Data.List.Forall2

/-
  Moved texts — the same text, begun at another place

  A text that begins at another place has its lines and offsets shifted by the
  same amounts everywhere, and its columns on the first line only. Nothing the
  lexer does depends on a position, so its lexemes and its errors are the same,
  with their places moved.

  What is proved:
    1. `Position.Moved.after` — walking over a text keeps positions moved.
    2. `Place.compare_moved` — moved places are in the same order.
    3. `tokenize_moved` — the lexemes and the errors of a moved text.
-/

namespace Clausal

/-- The results are two related values or two related errors. -/
inductive ExceptRel {ε δ α β : Type} (E : ε → δ → Prop) (V : α → β → Prop) :
    Except ε α → Except δ β → Prop where
  | ok {v : α} {v' : β} : V v v' → ExceptRel E V (.ok v) (.ok v')
  | error {e : ε} {e' : δ} : E e e' → ExceptRel E V (.error e) (.error e')

/-! ## Moved positions -/

/-- The position `p'` of a text that begins at `o'` is the position `p` of the same
text when it begins at `o`. -/
structure Position.Moved (o o' p p' : Position) : Prop where
  behind : o.line ≤ p.line
  line : p'.line + o.line = p.line + o'.line
  column : p.line = o.line → p'.column + o.column = p.column + o'.column
  columnBehind : p.line ≠ o.line → p'.column = p.column
  offset : p'.offset + o.offset = p.offset + o'.offset

/-- The stretches begin at the same position and end at the same one. -/
structure Span.Moved (o o' : Position) (s s' : Span) : Prop where
  first : Position.Moved o o' ⟨s.line, s.column, s.start⟩ ⟨s'.line, s'.column, s'.start⟩
  stop : s'.stop + o.offset = s.stop + o'.offset

/-- The places lie in the files that the texts begin in, at the same stretch. -/
structure Place.Moved (o o' p p' : Place) : Prop where
  file : p.file = o.file
  file' : p'.file = o'.file
  first : Position.Moved o.position o'.position p.position p'.position
  stop : p'.stop + o.start = p.stop + o'.start

/-- The same token at the same stretch. -/
structure Lexeme.Moved (o o' : Position) (l l' : Lexeme) : Prop where
  token : l.token = l'.token
  layoutBefore : l.layoutBefore = l'.layoutBefore
  span : Span.Moved o o' l.span l'.span

/-- The same fault at the same stretch. -/
structure LexicalError.Moved (o o' : Position) (e e' : LexicalError) : Prop where
  fault : e.fault = e'.fault
  span : Span.Moved o o' e.span e'.span

/-- The same lexemes and the same errors. -/
structure Lexed.Moved (o o' : Position) (r r' : Lexed) : Prop where
  lexemes : List.Forall₂ (Lexeme.Moved o o') r.lexemes r'.lexemes
  eof : Lexeme.Moved o o' r.eof r'.eof
  errors : List.Forall₂ (LexicalError.Moved o o') r.errors r'.errors

namespace Position

variable {o o' p p' : Position}

theorem moved_origin (o o' : Position) : Moved o o' o o' :=
  ⟨Nat.le_refl _, Nat.add_comm _ _, fun _ => Nat.add_comm _ _, fun hne => absurd rfl hne,
    Nat.add_comm _ _⟩

/-- A line end opens a line behind the first one, where columns are not moved. -/
theorem Moved.step (h : Moved o o' p p') (c : Char) : Moved o o' (p.step c) (p'.step c) := by
  obtain ⟨hbehind, hline, hcolumn, hcolumnBehind, hoffset⟩ := h
  have hoffset : p'.offset + 1 + o.offset = p.offset + 1 + o'.offset := by omega
  unfold Position.step
  split
  · have hline : p'.line + 1 + o.line = p.line + 1 + o'.line := by omega
    have hne : p.line + 1 ≠ o.line := by omega
    exact ⟨Nat.le_succ_of_le hbehind, hline, fun h => absurd h hne, fun _ => rfl, hoffset⟩
  · refine ⟨hbehind, hline, fun hfirst => ?_, fun hlater => ?_, hoffset⟩
    · have := hcolumn hfirst
      simp only
      omega
    · rw [hcolumnBehind hlater]

theorem Moved.after (h : Moved o o' p p') (text : List Char) :
    Moved o o' (p.after text) (p'.after text) := by
  induction text generalizing p p' with
  | nil => exact h
  | cons c text ih => exact ih (h.step c)

theorem Moved.between {q q' : Position} (h : Moved o o' p p') (h' : Moved o o' q q') :
    Span.Moved o o' (.between p q) (.between p' q') :=
  ⟨h, h'.offset⟩

end Position

/-! ## The order of moved places -/

/-- Numbers shifted by the same amount are in the same order. -/
theorem compare_shifted {a b a' b' n n' : Nat} (ha : a' + n = a + n') (hb : b' + n = b + n') :
    compare a b = compare a' b' := by
  rcases Nat.lt_trichotomy a b with h | h | h
  · rw [Nat.compare_eq_lt.mpr h, Nat.compare_eq_lt.mpr (by omega)]
  · rw [Nat.compare_eq_eq.mpr h, Nat.compare_eq_eq.mpr (by omega)]
  · rw [Nat.compare_eq_gt.mpr h, Nat.compare_eq_gt.mpr (by omega)]

namespace Place

variable {o o' p p' q q' : Place}

theorem moved_ofSpan {s s' : Span} (h : Span.Moved o.position o'.position s s') :
    Moved o o' (.ofSpan o.file s) (.ofSpan o'.file s') :=
  ⟨rfl, rfl, h.first, h.stop⟩

theorem Moved.through {s s' : Span} (h : Moved o o' p p')
    (hs : Span.Moved o.position o'.position s s') : Moved o o' (p.through s) (p'.through s') := by
  refine ⟨h.file, h.file', h.first, ?_⟩
  have hp := h.stop
  have hstop : s'.stop + o.start = s.stop + o'.start := hs.stop
  simp only [Place.through]
  omega

/-- On one line columns are moved both or neither, so that they compare alike; on
different lines they are not compared. -/
theorem compare_moved (hp : Moved o o' p p') (hq : Moved o o' q q') :
    compare p q = compare p' q' := by
  have hfile : compare p.file q.file = compare p'.file q'.file := by
    rw [hp.file, hq.file, hp.file', hq.file', Std.ReflOrd.compare_self, Std.ReflOrd.compare_self]
  have hline : compare p.line q.line = compare p'.line q'.line :=
    compare_shifted hp.first.line hq.first.line
  have hstart : compare p.start q.start = compare p'.start q'.start :=
    compare_shifted hp.first.offset hq.first.offset
  have hstop : compare p.stop q.stop = compare p'.stop q'.stop :=
    compare_shifted hp.stop hq.stop
  have hcolumn : p.line = q.line → compare p.column q.column = compare p'.column q'.column := by
    intro hsame
    by_cases hfirst : p.line = o.line
    · exact compare_shifted (hp.first.column hfirst) (hq.first.column (hsame.symm.trans hfirst))
    · have hlater : q.line ≠ o.line := hsame ▸ hfirst
      have hp' : p'.column = p.column := hp.first.columnBehind hfirst
      have hq' : q'.column = q.column := hq.first.columnBehind hlater
      rw [hp', hq']
  show (compare p.file q.file).then ((compare p.line q.line).then
      ((compare p.column q.column).then ((compare p.start q.start).then
        (compare p.stop q.stop)))) = (compare p'.file q'.file).then
    ((compare p'.line q'.line).then ((compare p'.column q'.column).then
      ((compare p'.start q'.start).then (compare p'.stop q'.stop))))
  rw [← hfile, ← hline, ← hstart, ← hstop]
  by_cases hsame : p.line = q.line
  · rw [hcolumn hsame]
  · cases hlines : compare p.line q.line with
    | lt => rfl
    | gt => rfl
    | eq => exact absurd (Nat.compare_eq_eq.mp hlines) hsame

end Place

/-! ## The lexer over a moved text -/

namespace Lexer

/-- The lexers stand before the same text, at the same position of it, and have
recorded the same errors. -/
structure Moved (o o' : Position) (l l' : Lexer) : Prop where
  rest : l.rest = l'.rest
  position : Position.Moved o o' l.position l'.position
  errors : List.Forall₂ (LexicalError.Moved o o') l.errors l'.errors

variable {o o' : Position} {l l' : Lexer}

theorem Moved.skipLayout (h : Moved o o' l l') :
    l.skipLayout.1 = l'.skipLayout.1 ∧ Moved o o' l.skipLayout.2 l'.skipLayout.2 := by
  obtain ⟨hrest, hposition, herrors⟩ := h
  have hopened := hposition.after (Text.layout l.rest).skipped
  have hhere := hopened.after (Text.layout l.rest).unclosed
  unfold Lexer.skipLayout
  rw [← hrest]
  refine ⟨rfl, rfl, hhere, ?_⟩
  simp only
  split
  · exact herrors
  · exact List.rel_append herrors (.cons ⟨rfl, hopened.between hhere⟩ .nil)

theorem Moved.take (h : Moved o o' l l') (gap : Bool) (c : Char) (rest : List Char) :
    ExceptRel (LexicalError.Moved o o') (Lexeme.Moved o o') (l.take gap c rest).1
      (l'.take gap c rest).1 := by
  have hspan := h.position.between (h.position.after (Text.scan c rest).text)
  unfold Lexer.take
  cases hvalue : (Text.scan c rest).value with
  | ok token =>
    simp only [hvalue]
    exact .ok ⟨rfl, rfl, hspan⟩
  | error fault =>
    simp only [hvalue]
    exact .error ⟨rfl, hspan⟩

theorem Moved.behind (h : Moved o o' l l') (gap : Bool) (c : Char) (rest : List Char) :
    Moved o o' (l.take gap c rest).2 (l'.take gap c rest).2 :=
  ⟨rfl, h.position.after _, h.errors⟩

/-- Step by step the lexers read the same. -/
theorem run_moved (l l' : Lexer) (h : Moved o o' l l') : Lexed.Moved o o' l.run l'.run := by
  obtain ⟨hgap, hskip⟩ := h.skipLayout
  cases hrest : l.skipLayout.2.rest with
  | nil =>
    rw [run_of_end hrest, run_of_end (hskip.rest ▸ hrest), ← hgap]
    exact ⟨.nil, ⟨rfl, rfl, hskip.position.between hskip.position⟩, hskip.errors⟩
  | cons c rest =>
    have hrest' : l'.skipLayout.2.rest = c :: rest := hskip.rest ▸ hrest
    have hresult := hskip.take l.skipLayout.1 c rest
    have hbehind := hskip.behind l.skipLayout.1 c rest
    cases htake : l.skipLayout.2.take l.skipLayout.1 c rest with
    | mk result after =>
      cases htake' : l'.skipLayout.2.take l.skipLayout.1 c rest with
      | mk result' after' =>
        have hlt := rest_length_lt hrest htake
        rw [htake, htake'] at hresult hbehind
        rw [hgap] at htake'
        cases hresult with
        | ok hlexeme =>
          rw [run_of_lexeme hrest htake, run_of_lexeme hrest' htake']
          obtain ⟨hlexemes, heof, herrors⟩ := run_moved after after' hbehind
          exact ⟨.cons hlexeme hlexemes, heof, herrors⟩
        | error herror =>
          rw [run_of_error hrest htake, run_of_error hrest' htake']
          refine run_moved _ _ ⟨hbehind.rest, hbehind.position, ?_⟩
          exact List.rel_append hbehind.errors (.cons herror .nil)
termination_by l.rest.length

end Lexer

theorem tokenize_moved (text : String) (o o' : Position) :
    Lexed.Moved o o' (tokenize text o) (tokenize text o') :=
  Lexer.run_moved _ _ ⟨rfl, Position.moved_origin o o', .nil⟩

end Clausal
