import Clausal.Proofs.Token.Tiling

/-
  Seams — a text that ends with a line end, and what goes on behind it

  A line end is part of no token that goes on behind it: it ends names, numbers
  and line comments, and what the lexer looks at behind a character is never
  further away than the line end. Only quotes and block comments that are not
  closed reach over it. So a text cut behind a line end is read in two pieces as
  it is in one.

  What is proved:
    1. `scan_onto` — a token is the same in a text that goes on.
    2. `layout_onto` — so is the layout before a token; layout up to the seam
       goes on behind it.
    3. `Lexer.run_append` — reading a text that goes on is reading it, and then
       what it goes on with.
-/

namespace Clausal

namespace Text

/-- The text ends with a line end. -/
def EndsLine (cs : List Char) : Prop := cs.getLast? = some '\n'

/-- The text is empty or ends with a line end. -/
def Lines (cs : List Char) : Prop := cs = [] ∨ EndsLine cs

section

variable {c : Char} {cs rest : List Char}

theorem EndsLine.lines (h : EndsLine cs) : Lines cs := Or.inr h

theorem EndsLine.ne_nil (h : EndsLine cs) : cs ≠ [] := by
  rintro rfl
  cases h

theorem EndsLine.of_append {a : List Char} (h : EndsLine (a ++ cs)) (hne : cs ≠ []) :
    EndsLine cs := by
  rw [EndsLine, List.getLast?_append] at h
  cases hlast : cs.getLast? with
  | none => exact absurd (List.getLast?_eq_none_iff.mp hlast) hne
  | some c =>
    rw [hlast] at h
    exact hlast.trans h

/-- What is left of a text of lines is a text of lines. -/
theorem Lines.of_append {a : List Char} (h : Lines (a ++ cs)) : Lines cs := by
  by_cases hne : cs = []
  · exact Or.inl hne
  · rcases h with h | h
    · exact absurd (List.append_eq_nil_iff.mp h).2 hne
    · exact Or.inr (h.of_append hne)

/-- Behind anything but a line end a line goes on. -/
theorem Lines.tail (h : Lines (c :: rest)) (hc : c ≠ '\n') : EndsLine rest := by
  rcases h with h | h
  · cases h
  · refine EndsLine.of_append (a := [c]) h ?_
    rintro rfl
    exact hc (Option.some.inj h)

theorem EndsLine.tail (h : EndsLine (c :: rest)) (hc : c ≠ '\n') : EndsLine rest :=
  h.lines.tail hc

theorem EndsLine.cons (h : EndsLine rest) (c : Char) : EndsLine (c :: rest) := by
  rwa [EndsLine, List.getLast?_cons_of_ne_nil h.ne_nil]

theorem EndsLine.head?_append (h : EndsLine cs) (more : List Char) :
    (cs ++ more).head? = cs.head? := by
  cases cs with
  | nil => exact absurd rfl h.ne_nil
  | cons c rest => rfl

/-- A run of characters that a line end is none of stays the same. -/
theorem EndsLine.takeWhile_append {p : Char → Bool} (h : EndsLine cs) (hp : p '\n' = false)
    (more : List Char) : (cs ++ more).takeWhile p = cs.takeWhile p ∧
      (cs ++ more).dropWhile p = cs.dropWhile p ++ more := by
  induction cs with
  | nil => exact absurd rfl h.ne_nil
  | cons c rest ih =>
    cases hc : p c with
    | false => simp [hc]
    | true =>
      have hne : c ≠ '\n' := by
        rintro rfl
        rw [hp] at hc
        cases hc
      obtain ⟨htake, hdrop⟩ := ih (h.tail hne)
      simp [hc, htake, hdrop]

end

/-! ## Quoted text -/

/-- The same reading in a text that goes on. -/
def Taken.onto {α : Type} (t : Taken α) (more : List Char) : Taken α :=
  { t with rest := t.rest ++ more }

section

variable {α β : Type} (t : Taken α) (text more : List Char) (f : α → β)

@[simp] theorem Taken.behind_onto : (t.behind text).onto more = (t.onto more).behind text := rfl

@[simp] theorem Taken.map_onto : (t.map f).onto more = (t.onto more).map f := rfl

end

theorem not_isDigitIn_newline {radix : Nat} (h : radix ≤ 36) : isDigitIn radix '\n' = false :=
  decide_eq_false (Nat.not_lt.mpr h)

theorem ne_newline_of_isDigitIn {radix : Nat} {c : Char} (h : radix ≤ 36)
    (hc : isDigitIn radix c = true) : c ≠ '\n' := by
  rintro rfl
  rw [not_isDigitIn_newline h] at hc
  cases hc

variable {cs more : List Char}

theorem numericEscape_onto {radix : Nat} (hradix : radix ≤ 36) (digits : List Char)
    (h : EndsLine cs) (more : List Char) :
    numericEscape radix digits (cs ++ more) = (numericEscape radix digits cs).onto more := by
  induction cs generalizing digits with
  | nil => exact absurd rfl h.ne_nil
  | cons c rest ih =>
    simp only [List.cons_append, numericEscape]
    split
    · rfl
    · split
      · rename_i hdigit
        rw [ih _ (h.tail (ne_newline_of_isDigitIn hradix hdigit)), Taken.behind_onto]
      · rfl

theorem escape_onto (h : EndsLine cs) (more : List Char) :
    escape (cs ++ more) = (escape cs).onto more := by
  cases cs with
  | nil => exact absurd rfl h.ne_nil
  | cons c rest =>
    simp only [List.cons_append, escape]
    split
    · rename_i hdigit
      have hrest := h.tail (ne_newline_of_isDigitIn (by omega) hdigit)
      rw [numericEscape_onto (by omega) _ hrest, Taken.behind_onto, Taken.map_onto]
    · split
      · rename_i hx
        have hrest := h.tail (by rw [hx]; decide)
        rw [numericEscape_onto (by omega) _ hrest, Taken.behind_onto, Taken.map_onto]
      · split
        · rfl
        · split <;> rfl

theorem Contents.afterEscape_none (e : Except EscapeFault (Option Char)) :
    Contents.afterEscape e none = none := by
  rcases e with _ | _ | _ <;> rfl

/-- Quoted text that is closed is closed in a text that goes on. -/
theorem quotedText_onto {q : Char} (hq : q ≠ '\n') (h : Lines cs)
    (hclosed : (quotedText q cs).value ≠ none) (more : List Char) :
    quotedText q (cs ++ more) = (quotedText q cs).onto more := by
  fun_induction quotedText q cs with
  | case1 => exact absurd rfl hclosed
  | case2 rest hrest ih =>
    obtain ⟨others, rfl⟩ := List.head?_eq_some_iff.mp hrest
    have hothers : Lines others := Lines.of_append (a := [q, q]) h
    have hvalue : (quotedText q others).value ≠ none := by
      intro hnone
      simp [Taken.behind, Taken.map, Contents.cons, hnone] at hclosed
    rw [List.cons_append, List.cons_append, quotedText, if_pos rfl, if_pos (by simp)]
    simp only [List.tail_cons] at ih ⊢
    rw [ih hothers hvalue, Taken.behind_onto, Taken.map_onto]
  | case3 rest hrest =>
    have hhead := (h.tail hq).head?_append more
    rw [List.cons_append, quotedText, if_pos rfl, if_neg (by rw [hhead]; exact hrest)]
    rfl
  | case4 rest e hne ih =>
    have hrest : EndsLine rest := h.tail (by decide)
    have hleft : Lines e.rest := Lines.of_append (a := e.text) (by
      rw [escape_append]
      exact hrest.lines)
    have hvalue : (quotedText q e.rest).value ≠ none := by
      intro hnone
      simp [Taken.behind, Taken.followedBy, hnone, Contents.afterEscape_none] at hclosed
    rw [List.cons_append, quotedText, if_neg hne, if_pos rfl]
    simp only [escape_onto hrest]
    rw [show (e.onto more).rest = e.rest ++ more from rfl, ih hleft hvalue]
    rfl
  | case5 c rest hne hback ih =>
    have hrest : Lines rest := Lines.of_append (a := [c]) h
    have hvalue : (quotedText q rest).value ≠ none := by
      intro hnone
      simp [Taken.behind, Taken.map, Contents.cons, hnone] at hclosed
    rw [List.cons_append, quotedText, if_neg hne, if_neg hback, ih hrest hvalue,
      Taken.behind_onto, Taken.map_onto]

/-! ## Numerals -/

theorem charCode_onto (h : EndsLine cs) (more : List Char) :
    charCode (cs ++ more) = (charCode cs).onto more := by
  cases cs with
  | nil => exact absurd rfl h.ne_nil
  | cons c rest =>
    simp only [List.cons_append, charCode]
    split
    · rename_i hback
      have hrest : EndsLine rest := h.tail (by rw [hback]; decide)
      rw [escape_onto hrest, Taken.behind_onto, Taken.map_onto]
    · by_cases hquote : c = '\''
      · have hrest : EndsLine rest := h.tail (by rw [hquote]; decide)
        rw [hrest.head?_append more]
        split
        · rw [List.tail_append_of_ne_nil hrest.ne_nil]
          rfl
        · rfl
      · simp [hquote, Taken.onto]

/-- The same run of digits in a text that goes on. -/
def DigitRun.onto (run : DigitRun) (more : List Char) : DigitRun :=
  { run with rest := run.rest ++ more }

theorem takeDigits_onto (h : EndsLine cs) (more : List Char) :
    takeDigits (cs ++ more) = (takeDigits cs).onto more ∧ EndsLine (takeDigits cs).rest := by
  induction cs with
  | nil => exact absurd rfl h.ne_nil
  | cons c rest ih =>
    simp only [List.cons_append, takeDigits]
    split
    · rename_i hdigit
      obtain ⟨heq, hends⟩ := ih (h.tail (ne_newline_of_isDigitIn (by omega) hdigit))
      exact ⟨by rw [heq]; rfl, hends⟩
    · by_cases hunder : c = '_'
      · have hrest : EndsLine rest := h.tail (by rw [hunder]; decide)
        rw [hrest.head?_append more]
        split
        · obtain ⟨heq, hends⟩ := ih hrest
          exact ⟨by rw [heq]; rfl, hends⟩
        · exact ⟨rfl, h⟩
      · simpa [hunder, DigitRun.onto] using h

theorem exponentPart_onto (h : EndsLine cs) (more : List Char) :
    exponentPart (cs ++ more) = (exponentPart cs).onto more := by
  cases cs with
  | nil => exact absurd rfl h.ne_nil
  | cons c rest =>
    simp only [List.cons_append, exponentPart]
    split
    · rename_i hletter
      have hrest : EndsLine rest := h.tail (by rcases hletter with rfl | rfl <;> decide)
      cases rest with
      | nil => exact absurd rfl hrest.ne_nil
      | cons d others =>
        simp only [List.cons_append]
        split
        · rw [← List.cons_append, (takeDigits_onto hrest more).1]
          rfl
        · by_cases hsign : d = '+' ∨ d = '-'
          · have hothers : EndsLine others := hrest.tail (by rcases hsign with rfl | rfl <;> decide)
            rw [hothers.head?_append more]
            split
            · rw [(takeDigits_onto hothers more).1]
              rfl
            · rfl
          · simp [hsign, Taken.onto]
    · rfl

theorem radixInteger_onto {radix : Nat} (hradix : radix ≤ 36) (h : EndsLine cs)
    (more : List Char) : radixInteger radix (cs ++ more) = (radixInteger radix cs).onto more := by
  obtain ⟨htake, hdrop⟩ := h.takeWhile_append (not_isDigitIn_newline hradix) more
  simp only [radixInteger, htake, hdrop]
  rfl

theorem pointNumeral_onto (whole : DigitRun) (h : EndsLine cs) (more : List Char) :
    pointNumeral (whole.onto more) (cs ++ more) = (pointNumeral whole cs).onto more := by
  obtain ⟨hfraction, hends⟩ := takeDigits_onto h more
  have hexponent := exponentPart_onto hends more
  simp only [pointNumeral, hfraction, DigitRun.onto, hexponent]
  rfl

theorem decimalNumeral_onto (h : EndsLine cs) (more : List Char) :
    decimalNumeral (cs ++ more) = (decimalNumeral cs).onto more := by
  obtain ⟨hwhole, hends⟩ := takeDigits_onto h more
  have hrest : (takeDigits (cs ++ more)).rest = (takeDigits cs).rest ++ more := by rw [hwhole]; rfl
  unfold decimalNumeral
  rw [hrest, hwhole]
  cases hleft : (takeDigits cs).rest with
  | nil => exact absurd hleft hends.ne_nil
  | cons c rest =>
    rw [hleft] at hends
    by_cases hpoint : c = '.'
    · subst hpoint
      have hfraction : EndsLine rest := hends.tail (by decide)
      simp only [List.cons_append, hfraction.head?_append more]
      split
      · exact pointNumeral_onto _ hfraction more
      · rfl
    · simp only [List.cons_append]
      split
      · rename_i heq
        exact absurd (List.cons.inj heq).1 hpoint
      · split
        · rename_i heq
          exact absurd (List.cons.inj heq).1 hpoint
        · rfl

theorem numeral_of_ne {c : Char} (rest : List Char) (hc : c ≠ '0') :
    numeral (c :: rest) = decimalNumeral (c :: rest) := by
  unfold numeral
  split
  · rename_i heq
    exact absurd (List.cons.inj heq).1 hc
  · rename_i heq
    exact absurd (List.cons.inj heq).1 hc
  · rfl

theorem numeral_of_ne_quote {d : Char} (e : Char) (rest : List Char) (hd : d ≠ '\'') :
    numeral ('0' :: d :: e :: rest) =
      match radixOf? d with
      | some radix =>
        if isDigitIn radix e then (radixInteger radix (e :: rest)).behind ['0', d]
        else decimalNumeral ('0' :: d :: e :: rest)
      | none => decimalNumeral ('0' :: d :: e :: rest) := by
  unfold numeral
  split
  · rename_i heq
    cases heq
    exact absurd rfl hd
  · rename_i heq
    cases heq
    rfl
  · rename_i hno
    exact absurd rfl (hno d e rest)

theorem radixOf?_le {c : Char} {radix : Nat} (h : radixOf? c = some radix) : radix ≤ 36 := by
  unfold radixOf? at h
  split at h <;> cases h <;> decide

theorem numeral_onto (h : EndsLine cs) (more : List Char) :
    numeral (cs ++ more) = (numeral cs).onto more := by
  have hdecimal := decimalNumeral_onto h more
  match cs, h with
  | [], h => exact absurd rfl h.ne_nil
  | [c], h =>
    obtain rfl : c = '\n' := Option.some.inj h
    exact hdecimal
  | [c, d], h =>
    obtain rfl : d = '\n' := Option.some.inj h
    by_cases hc : c = '0'
    · subst hc
      cases more <;> exact hdecimal
    · rw [List.cons_append, numeral_of_ne _ hc, numeral_of_ne _ hc]
      exact hdecimal
  | c :: d :: e :: rest, h =>
    by_cases hc : c = '0'
    · subst hc
      have hbehind : EndsLine (e :: rest) := EndsLine.of_append (a := ['0', d]) h (by simp)
      by_cases hquote : d = '\''
      · subst hquote
        show (charCode ((e :: rest) ++ more)).behind _ = _
        rw [charCode_onto hbehind more]
        rfl
      · simp only [List.cons_append] at hdecimal ⊢
        rw [numeral_of_ne_quote _ _ hquote, numeral_of_ne_quote _ _ hquote]
        cases hradix : radixOf? d with
        | none => exact hdecimal
        | some radix =>
          simp only
          split
          · rw [← List.cons_append, radixInteger_onto (radixOf?_le hradix) hbehind]
            rfl
          · exact hdecimal
    · rw [List.cons_append, numeral_of_ne _ hc, numeral_of_ne _ hc]
      exact hdecimal

/-! ## Tokens -/

theorem symbolRun_onto (h : EndsLine cs) (more : List Char) :
    symbolRun (cs ++ more) = symbolRun cs := by
  induction cs with
  | nil => exact absurd rfl h.ne_nil
  | cons c rest ih =>
    by_cases hsymbol : isSymbolChar c = true
    · have hrest : EndsLine rest := h.tail (by rintro rfl; revert hsymbol; decide)
      simp only [List.cons_append, symbolRun, hrest.head?_append more, ih hrest]
    · simp [symbolRun, hsymbol]

theorem symbolRun_length_le (cs : List Char) : (symbolRun cs).length ≤ cs.length := by
  have := congrArg List.length (symbolRun_append cs)
  simp only [List.length_append] at this
  omega

theorem quoteToken_ne_newline {c : Char} {make : String → Token} (h : quoteToken c = some make) :
    c ≠ '\n' := by
  rintro rfl
  cases h

/-- A token is the same in a text that goes on, if it is no quoted text that is not
closed. -/
theorem scan_onto {c : Char} {rest : List Char} (h : EndsLine rest)
    (hclosed : (scan c rest).value ≠ .error .unterminatedQuote) (more : List Char) :
    scan c (rest ++ more) = (scan c rest).onto more := by
  unfold scan at hclosed ⊢
  split
  · rfl
  · rename_i hsolo hquote
    have hvalue : (quotedText c rest).value ≠ none := by
      intro hnone
      simp [hsolo, hquote, Taken.behind, Taken.map, hnone, quotedToken] at hclosed
    rw [quotedText_onto (quoteToken_ne_newline hquote) h.lines hvalue, Taken.behind_onto,
      Taken.map_onto]
  · split
    · rw [← List.cons_append, numeral_onto (h.cons c)]
    · split
      · obtain ⟨htake, hdrop⟩ := h.takeWhile_append (p := isIdentChar) (by decide) more
        simp only [htake, hdrop]
        rfl
      · have hends : endsClause (rest ++ more) = endsClause rest := by
          rw [endsClause, h.head?_append more]
          rfl
        rw [hends]
        split
        · rfl
        · split
          · have hlength : (c :: symbolRun rest).length ≤ (c :: rest).length :=
              Nat.succ_le_succ (symbolRun_length_le rest)
            simp only [symbolRun_onto h more]
            rw [← List.cons_append, List.drop_append_of_le_length hlength]
            rfl
          · rfl

/-! ## Layout -/

/-- A comment that is closed is closed in a text that goes on. -/
theorem closeComment_onto {depth : Nat} {text left : List Char}
    (h : closeComment depth cs = some (text, left)) (more : List Char) :
    closeComment depth (cs ++ more) = some (text, left ++ more) := by
  fun_induction closeComment depth cs generalizing text with
  | case1 cs =>
    cases h
    rw [closeComment]
  | case2 => cases h
  | case3 depth rest ih =>
    obtain ⟨⟨inner, last⟩, hrest, heq⟩ := Option.map_eq_some_iff.mp h
    cases heq
    simp [closeComment, ih hrest]
  | case4 depth rest ih =>
    obtain ⟨⟨inner, last⟩, hrest, heq⟩ := Option.map_eq_some_iff.mp h
    cases heq
    simp [closeComment, ih hrest]
  | case5 depth c rest hclose hopen ih =>
    obtain ⟨⟨inner, last⟩, hrest, heq⟩ := Option.map_eq_some_iff.mp h
    cases heq
    -- The comment is not closed yet, so something follows in the text itself.
    cases rest with
    | nil => simp [closeComment] at hrest
    | cons d rest =>
      have hstep : closeComment (depth + 1) (c :: d :: rest ++ more) =
          (closeComment (depth + 1) (d :: rest ++ more)).map
            fun inner => (c :: inner.1, inner.2) := by
        rewrite [List.cons_append, List.cons_append, closeComment]
        · rfl
        · exact fun _ hc heq => hclose rest hc (by rw [(List.cons.inj heq).1])
        · exact fun _ hc heq => hopen rest hc (by rw [(List.cons.inj heq).1])
      rw [hstep, ih hrest]
      rfl

/-- The same layout in a text that goes on: when it reaches the seam, what stands
behind the seam before the next token belongs to it. -/
def Layout.onto (l : Layout) (more : List Char) : Layout :=
  if l.rest = [] then (layout more).behind l.skipped else { l with rest := l.rest ++ more }

theorem Layout.behind_onto (l : Layout) (text more : List Char) :
    (l.behind text).onto more = (l.onto more).behind text := by
  by_cases h : l.rest = [] <;> simp [onto, behind, h]

theorem layout_onto (h : Lines cs) (hclosed : (layout cs).unclosed = []) (more : List Char) :
    layout (cs ++ more) = (layout cs).onto more := by
  fun_induction layout cs with
  | case1 => rfl
  | case2 c rest hblank ih =>
    have hrest : Lines rest := Lines.of_append (a := [c]) h
    rw [List.cons_append, layout, if_pos hblank, ih hrest hclosed, Layout.behind_onto]
  | case3 rest hblank ih =>
    have hline : EndsLine rest := h.tail (by decide)
    obtain ⟨htake, hdrop⟩ := hline.takeWhile_append (p := (· != '\n')) (by decide) more
    have hrest : Lines (rest.dropWhile (· != '\n')) :=
      Lines.of_append (a := rest.takeWhile (· != '\n')) (by
        rw [List.takeWhile_append_dropWhile]
        exact hline.lines)
    rw [List.cons_append, layout, if_neg hblank, if_pos rfl, htake, hdrop, ih hrest hclosed,
      Layout.behind_onto]
  | case4 c rest hblank hpercent hc text left hcomment ih =>
    obtain ⟨rfl, hstar⟩ := hc
    obtain ⟨inner, rfl⟩ := List.head?_eq_some_iff.mp hstar
    have hleft : Lines left := Lines.of_append (a := '/' :: '*' :: text) (by
      rw [List.cons_append, List.cons_append, closeComment_append hcomment]
      exact h)
    rw [List.cons_append, layout, if_neg hblank, if_neg hpercent,
      if_pos ⟨rfl, by simp⟩]
    split
    · rename_i heq
      simp only [List.cons_append, List.tail_cons] at heq hcomment
      rw [closeComment_onto hcomment more] at heq
      cases heq
      rw [ih hleft hclosed, Layout.behind_onto]
    · rename_i heq
      simp only [List.cons_append, List.tail_cons] at heq hcomment
      rw [closeComment_onto hcomment more] at heq
      cases heq
  | case5 c rest => exact absurd hclosed (List.cons_ne_nil c rest)
  | case6 c rest hblank hpercent hc =>
    have hcomment : ¬ (c = '/' ∧ (rest ++ more).head? = some '*') := by
      rintro ⟨rfl, hstar⟩
      rw [(h.tail (by decide)).head?_append more] at hstar
      exact hc ⟨rfl, hstar⟩
    rw [List.cons_append, layout, if_neg hblank, if_neg hpercent, if_neg hcomment]
    rfl

end Text

/-! ## The lexer -/

/-- The same reading, with layout before its first lexeme if there is a gap. -/
def Lexed.behind (gap : Bool) (r : Lexed) : Lexed :=
  match r.lexemes with
  | [] => { r with eof := { r.eof with layoutBefore := gap || r.eof.layoutBefore } }
  | l :: rest => { r with lexemes := { l with layoutBefore := gap || l.layoutBefore } :: rest }

/-- No quote and no comment of the text was left open. -/
def Lexed.Closed (r : Lexed) : Prop :=
  ∀ e ∈ r.errors, e.fault ≠ .unterminatedQuote ∧ e.fault ≠ .unterminatedComment

@[simp] theorem Lexed.behind_false (r : Lexed) : r.behind false = r := by
  unfold behind
  split
  · rfl
  · rename_i heq
    simp [← heq]

namespace Lexer

open Text (EndsLine Lines)

/-- The lexer before a text that goes on. -/
def onto (l : Lexer) (more : List Char) : Lexer := { l with rest := l.rest ++ more }

/-- The lexer with errors recorded earlier. -/
def recording (l : Lexer) (earlier : List LexicalError) : Lexer :=
  { l with errors := earlier ++ l.errors }

theorem skipLayout_recording (l : Lexer) (earlier : List LexicalError) :
    (l.recording earlier).skipLayout =
      (l.skipLayout.1, l.skipLayout.2.recording earlier) := by
  cases hopen : (Text.layout l.rest).unclosed.isEmpty <;> simp [skipLayout, recording, hopen]

theorem take_recording (l : Lexer) (earlier : List LexicalError) (gap : Bool) (c : Char)
    (rest : List Char) : (l.recording earlier).take gap c rest =
      ((l.take gap c rest).1, (l.take gap c rest).2.recording earlier) := rfl

/-- Errors recorded earlier are kept, and change nothing else. -/
theorem run_recording (l : Lexer) (earlier : List LexicalError) :
    (l.recording earlier).run = { l.run with errors := earlier ++ l.run.errors } := by
  have hskip := l.skipLayout_recording earlier
  cases hrest : l.skipLayout.2.rest with
  | nil =>
    rw [run_of_end hrest, run_of_end (by rw [hskip]; exact hrest), hskip]
    rfl
  | cons c rest =>
    obtain ⟨result, after, htake⟩ :
        ∃ result after, l.skipLayout.2.take l.skipLayout.1 c rest = (result, after) := ⟨_, _, rfl⟩
    have hlt := rest_length_lt hrest htake
    have hrest' : (l.recording earlier).skipLayout.2.rest = c :: rest := by rw [hskip]; exact hrest
    have htake' : (l.recording earlier).skipLayout.2.take (l.recording earlier).skipLayout.1 c
        rest = (result, after.recording earlier) := by rw [hskip, take_recording, htake]
    cases result with
    | ok lexeme => rw [run_of_lexeme hrest htake, run_of_lexeme hrest' htake', run_recording after]
    | error e =>
      rw [run_of_error hrest htake, run_of_error hrest' htake']
      have hnext : { after.recording earlier with
          errors := (after.recording earlier).errors ++ [e] } =
          recording { after with errors := after.errors ++ [e] } earlier := by
        simp [recording]
      rw [hnext, run_recording]
termination_by l.rest.length

/-- A gap before a token is kept with it and changes nothing else. -/
theorem take_lexeme {l after : Lexer} {gap : Bool} {c : Char} {rest : List Char} {lexeme : Lexeme}
    (h : l.take gap c rest = (.ok lexeme, after)) (gap' : Bool) :
    l.take gap' c rest = (.ok { lexeme with layoutBefore := gap' }, after) ∧
      lexeme.layoutBefore = gap := by
  unfold take at h ⊢
  cases hvalue : (Text.scan c rest).value <;> simp only [hvalue] at h ⊢ <;> cases h
  exact ⟨rfl, rfl⟩

theorem take_error {l after : Lexer} {gap : Bool} {c : Char} {rest : List Char} {e : LexicalError}
    (h : l.take gap c rest = (.error e, after)) (gap' : Bool) :
    l.take gap' c rest = (.error e, after) := by
  unfold take at h ⊢
  cases hvalue : (Text.scan c rest).value <;> simp only [hvalue] at h ⊢ <;> cases h
  rfl

/-- Lexers that come to the same behind layout read the same, but for what stands
before the first lexeme. -/
theorem run_of_skipLayout {l k : Lexer} {gap : Bool}
    (hgap : l.skipLayout.1 = (gap || k.skipLayout.1)) (hsame : l.skipLayout.2 = k.skipLayout.2) :
    ∃ gap, l.run = k.run.behind gap := by
  cases hrest : k.skipLayout.2.rest with
  | nil =>
    refine ⟨gap, ?_⟩
    rw [run_of_end hrest, run_of_end (by rw [hsame]; exact hrest), hsame, hgap]
    rfl
  | cons c rest =>
    obtain ⟨result, after, htake⟩ :
        ∃ result after, k.skipLayout.2.take k.skipLayout.1 c rest = (result, after) := ⟨_, _, rfl⟩
    have hrest' : l.skipLayout.2.rest = c :: rest := by rw [hsame]; exact hrest
    cases result with
    | ok lexeme =>
      obtain ⟨htake', hbefore⟩ := take_lexeme htake l.skipLayout.1
      rw [← hsame] at htake'
      refine ⟨gap, ?_⟩
      rw [run_of_lexeme hrest htake, run_of_lexeme hrest' htake', hgap, ← hbefore]
      rfl
    | error e =>
      have htake' := take_error htake l.skipLayout.1
      rw [← hsame] at htake'
      -- Layout before an error is not recorded anywhere.
      refine ⟨false, ?_⟩
      rw [run_of_error hrest htake, run_of_error hrest' htake', Lexed.behind_false]

theorem mem_run_errors {l : Lexer} {e : LexicalError} (h : e ∈ l.errors) : e ∈ l.run.errors := by
  obtain ⟨new, herrors, _⟩ := l.run_spread.errors
  rw [herrors]
  exact List.mem_append_left _ h

/-- Where no comment is left open, layout is closed. -/
theorem layout_closed {l : Lexer} (h : l.run.Closed) :
    (Text.layout l.rest).unclosed = [] := by
  by_cases hrest : l.skipLayout.2.rest = []
  · refine Decidable.byContradiction fun hopen => ?_
    have hmem : (⟨.unterminatedComment, Span.between (l.position.after (Text.layout l.rest).skipped)
        l.skipLayout.2.position⟩ : LexicalError) ∈ l.run.errors := by
      rw [run_of_end hrest]
      simp [skipLayout, hopen]
    exact (h _ hmem).2 rfl
  · exact Decidable.byContradiction fun hopen => hrest (Text.layout_rest_of_unclosed hopen)

/-- Where a token stands behind the layout, both are the same in a text that goes on. -/
theorem skipLayout_onto {l : Lexer} (hlines : Lines l.rest)
    (hclosed : (Text.layout l.rest).unclosed = []) (hrest : l.skipLayout.2.rest ≠ [])
    (more : List Char) :
    (l.onto more).skipLayout = (l.skipLayout.1, l.skipLayout.2.onto more) := by
  have hleft : (Text.layout l.rest).rest ≠ [] := hrest
  simp only [skipLayout, onto, Text.layout_onto hlines hclosed more, Text.Layout.onto, if_neg hleft]
  rfl

theorem take_onto {l after : Lexer} {gap : Bool} {c : Char} {rest : List Char}
    {result : Except LexicalError Lexeme} (hends : EndsLine rest)
    (htake : l.take gap c rest = (result, after))
    (hclosed : ∀ e, result = .error e → e.fault ≠ .unterminatedQuote) (more : List Char) :
    (l.onto more).take gap c (rest ++ more) = (result, after.onto more) := by
  have hscan : Text.scan c (rest ++ more) = (Text.scan c rest).onto more := by
    refine Text.scan_onto hends ?_ more
    intro hvalue
    simp only [take, hvalue] at htake
    cases htake
    exact hclosed _ rfl rfl
  cases htake
  simp only [take, hscan]
  rfl

/-- Every step takes its text from the front. -/
theorem skipLayout_position (l : Lexer) :
    l.skipLayout.2.position.after l.skipLayout.2.rest = l.position.after l.rest := by
  have happend := congrArg l.position.after (Text.layout_append l.rest)
  rwa [Position.after_append, Position.after_append] at happend

theorem take_position (l : Lexer) (gap : Bool) (c : Char) (rest : List Char) :
    (l.take gap c rest).2.position.after (l.take gap c rest).2.rest =
      l.position.after (c :: rest) := by
  have happend := congrArg l.position.after (Text.scan_append c rest)
  rwa [Position.after_append] at happend

/-- At the end of the text the lexer goes on with what the text goes on with. -/
theorem run_append_end {l : Lexer} (hlines : Lines l.rest) (hclosed : l.run.Closed)
    (hrest : l.skipLayout.2.rest = []) (more : List Char) :
    ∃ gap, (l.onto more).run = (run ⟨more, l.position.after l.rest, l.run.errors⟩).behind gap := by
  have hlayout := layout_closed hclosed
  have honto := Text.layout_onto hlines hlayout more
  have hleft : (Text.layout l.rest).rest = [] := hrest
  have hskipped : (Text.layout l.rest).skipped = l.rest := by
    have happend := Text.layout_append l.rest
    rwa [hlayout, hleft, List.append_nil, List.append_nil] at happend
  have herrors : l.run.errors = l.errors := by
    rw [run_of_end hrest]
    simp [skipLayout, hlayout]
  have hnext : (l.onto more).skipLayout.2 =
      (Lexer.mk more (l.position.after l.rest) l.run.errors).skipLayout.2 := by
    simp only [skipLayout, onto, honto, Text.Layout.onto, hleft, if_true, Text.Layout.behind,
      hskipped, Position.after_append, herrors]
  have hgap : (l.onto more).skipLayout.1 = (!l.rest.isEmpty ||
      (Lexer.mk more (l.position.after l.rest) l.run.errors).skipLayout.1) := by
    simp only [skipLayout, onto, honto, Text.Layout.onto, hleft, if_true, Text.Layout.behind,
      hskipped, Text.Layout.isSome]
    cases l.rest <;> simp
  exact run_of_skipLayout hgap hnext

/-- A step before the end is the same in a text that goes on. -/
theorem step_onto {l after : Lexer} {c : Char} {rest : List Char}
    {result : Except LexicalError Lexeme} (hlines : Lines l.rest)
    (hlayout : (Text.layout l.rest).unclosed = []) (hrest : l.skipLayout.2.rest = c :: rest)
    (htake : l.skipLayout.2.take l.skipLayout.1 c rest = (result, after))
    (hclosed : ∀ e, result = .error e → e.fault ≠ .unterminatedQuote) (more : List Char) :
    (l.onto more).skipLayout.2.rest = c :: (rest ++ more) ∧
      (l.onto more).skipLayout.2.take (l.onto more).skipLayout.1 c (rest ++ more) =
        (result, after.onto more) ∧
      Lines after.rest ∧ after.position.after after.rest = l.position.after l.rest := by
  have hskip := skipLayout_onto hlines hlayout (by rw [hrest]; simp) more
  have hleft : Lines (c :: rest) := by
    have hbehind : (Text.layout l.rest).rest = c :: rest := hrest
    rw [← Text.layout_append l.rest, hbehind] at hlines
    exact hlines.of_append
  have hends : EndsLine rest := by
    refine hleft.tail ?_
    rintro rfl
    exact absurd (Text.beginsToken_of_layout hrest).1 (by decide)
  refine ⟨?_, ?_, ?_, ?_⟩
  · rw [hskip, onto, hrest]
    rfl
  · rw [hskip]
    exact take_onto hends htake hclosed more
  · cases htake
    rw [← Text.scan_append c rest] at hleft
    exact hleft.of_append
  · have hstep := l.skipLayout.2.take_position l.skipLayout.1 c rest
    rwa [htake, ← hrest, skipLayout_position] at hstep

/-- Reading a text of lines that goes on is reading it, and then what it goes on with,
from where it ends. -/
theorem run_append (l : Lexer) (hlines : Lines l.rest) (hclosed : l.run.Closed)
    (more : List Char) : ∃ gap, ∃ next : Lexed,
      next = (run ⟨more, l.position.after l.rest, l.run.errors⟩).behind gap ∧
      (l.onto more).run = { next with lexemes := l.run.lexemes ++ next.lexemes } := by
  have hlayout := layout_closed hclosed
  cases hrest : l.skipLayout.2.rest with
  | nil =>
    obtain ⟨gap, hrun⟩ := run_append_end hlines hclosed hrest more
    refine ⟨gap, _, rfl, ?_⟩
    rw [hrun, run_of_end hrest]
    rfl
  | cons c rest =>
    obtain ⟨result, after, htake⟩ :
        ∃ result after, l.skipLayout.2.take l.skipLayout.1 c rest = (result, after) := ⟨_, _, rfl⟩
    have hlt := rest_length_lt hrest htake
    cases result with
    | ok lexeme =>
      obtain ⟨hrest', htake', hafter, hposition⟩ :=
        step_onto hlines hlayout hrest htake (fun e he => by cases he) more
      have hrun := run_of_lexeme hrest htake
      have hkept : after.run.errors = l.run.errors := by rw [hrun]
      obtain ⟨gap, next, hnext, ih⟩ :=
        run_append after hafter (by rw [Lexed.Closed, hkept]; exact hclosed) more
      refine ⟨gap, next, ?_, ?_⟩
      · rw [hnext, hkept, hposition]
      · rw [run_of_lexeme hrest' htake', ih, hrun]
        rfl
    | error e =>
      have hrun := run_of_error hrest htake
      have hmem : e ∈ l.run.errors := by
        rw [hrun]
        exact mem_run_errors (List.mem_append_right _ List.mem_cons_self)
      obtain ⟨hrest', htake', hafter, hposition⟩ := step_onto hlines hlayout hrest htake
        (fun e' he' => by cases he'; exact (hclosed e hmem).1) more
      obtain ⟨gap, next, hnext, ih⟩ := run_append { after with errors := after.errors ++ [e] }
        hafter (by rw [← hrun]; exact hclosed) more
      refine ⟨gap, next, ?_, ?_⟩
      · rw [hnext, ← hrun]
        simp only [hposition]
      · rw [run_of_error hrest' htake', hrun, ← ih]
        rfl
termination_by l.rest.length

end Lexer

theorem Lexed.behind_errors (gap : Bool) (r : Lexed) (errors : List LexicalError) :
    Lexed.behind gap { r with errors := errors } = { r.behind gap with errors := errors } := by
  unfold Lexed.behind
  cases r.lexemes <;> rfl

/-- A text cut behind a line end is read in two pieces as it is in one. Whether there is
layout before the second piece is seen only in the whole text. -/
theorem tokenize_append {head : String} {origin : Position} (tail : String)
    (hlines : Text.Lines head.toList) (hclosed : (tokenize head origin).Closed) :
    ∃ gap, ∃ next : Lexed,
      next = (tokenize tail (origin.after head.toList)).behind gap ∧
      tokenize (head ++ tail) origin =
        ⟨(tokenize head origin).lexemes ++ next.lexemes, next.eof,
          (tokenize head origin).errors ++ (tokenize tail (origin.after head.toList)).errors⟩ := by
  obtain ⟨gap, next, hnext, hrun⟩ :=
    Lexer.run_append (.ofText head origin) hlines hclosed tail.toList
  have hwhole : (Lexer.ofText head origin).onto tail.toList = .ofText (head ++ tail) origin := by
    simp [Lexer.onto, Lexer.ofText]
  have hread : (Lexer.mk tail.toList (origin.after head.toList)
      (tokenize head origin).errors).run = { tokenize tail (origin.after head.toList) with
        errors := (tokenize head origin).errors ++
          (tokenize tail (origin.after head.toList)).errors } := by
    have hrecording := (Lexer.ofText tail (origin.after head.toList)).run_recording
      (tokenize head origin).errors
    simp only [Lexer.recording, Lexer.ofText, List.append_nil] at hrecording
    exact hrecording
  have hnext : next = (Lexer.mk tail.toList (origin.after head.toList)
      (tokenize head origin).errors).run.behind gap := hnext
  rw [hread, Lexed.behind_errors] at hnext
  refine ⟨gap, _, rfl, ?_⟩
  rw [hwhole, hnext] at hrun
  exact hrun

/-! ## Positions -/

/-- Behind lines the column is the first, and each line end has opened a line. -/
theorem Position.after_endsLine {text : List Char} (h : Text.EndsLine text) (p : Position) :
    p.after text = ⟨p.line + text.count '\n', 1, p.offset + text.length⟩ := by
  induction text generalizing p with
  | nil => exact absurd rfl h.ne_nil
  | cons c rest ih =>
    by_cases hc : c = '\n'
    · subst hc
      by_cases hrest : rest = []
      · subst hrest
        rfl
      · rw [Position.after_cons, ih (Text.EndsLine.of_append (a := ['\n']) h hrest)]
        simp [Position.step]
        omega
    · rw [Position.after_cons, ih (h.tail hc)]
      simp [Position.step, hc]
      omega

end Clausal
