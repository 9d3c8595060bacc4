import Clausal.Proofs.Token.Tiling

/-
  Escapes — where quoted text ends when an escape in it is bad

  A bad escape spoils the text it stands in, and reading goes on to the closing
  quote. Most bad escapes are one character long. A numeric escape ends with the
  first character that is no digit; a backslash makes it a good one, anything else
  is lost with it. When that character is the closing quote, the quoted text goes
  on behind it.

  What is proved:
    1. `quotedText_whole` — contents made of whole pieces are passed over, whether
       their escapes are good or bad.
    2. `whole_or_endsInNumeric` — contents that do not end in a backslash are made
       of whole pieces or end inside a numeric escape.
    3. `Lexer.takes_quoted_iff` — the closing quote is found where it stands, just
       when it does not end a numeric escape or nothing stands behind it.
-/

namespace Clausal

namespace Text

/-! ## Pieces of quoted text -/

/-- A numeric escape behind its backslash, without the character that ends it: octal
digits, or an `x` and hexadecimal digits. -/
inductive NumericEscape : Nat → List Char → Prop where
  | octal {c : Char} {digits : List Char} : (∀ d ∈ c :: digits, isDigitIn 8 d = true) →
    NumericEscape 8 (c :: digits)
  | hexadecimal {digits : List Char} : (∀ d ∈ digits, isDigitIn 16 d = true) →
    NumericEscape 16 ('x' :: digits)

/-- Contents made of whole pieces: characters that stand for themselves, escapes of
one character, and numeric escapes with the character that ends them. -/
inductive Whole : List Char → Prop where
  | nil : Whole []
  | plain {c : Char} {rest : List Char} : c ≠ '\\' → Whole rest → Whole (c :: rest)
  | single {c : Char} {rest : List Char} : isDigitIn 8 c = false → c ≠ 'x' → Whole rest →
    Whole ('\\' :: c :: rest)
  | numeric {radix : Nat} {numeral : List Char} {c : Char} {rest : List Char} :
    NumericEscape radix numeral → isDigitIn radix c = false → Whole rest →
    Whole ('\\' :: (numeral ++ c :: rest))

/-- The contents end with a numeric escape that nothing has ended yet. -/
def EndsInNumeric (body : List Char) : Prop :=
  ∃ before radix numeral, Whole before ∧ NumericEscape radix numeral ∧
    body = before ++ '\\' :: numeral

/-! ## Reading a piece -/

section

variable {radix : Nat} {numeral digits more : List Char} {c q : Char}

/-- Digits are read up to the first character that is none, and that one too. -/
theorem numericEscape_ended (before more : List Char)
    (hdigits : ∀ d ∈ digits, isDigitIn radix d = true) (hslash : isDigitIn radix '\\' = false)
    (hc : isDigitIn radix c = false) :
    ∃ value, numericEscape radix before (digits ++ c :: more) = ⟨value, digits ++ [c], more⟩ := by
  induction digits generalizing before with
  | nil =>
    simp only [List.nil_append, numericEscape, hc]
    split
    · exact ⟨_, rfl⟩
    · exact ⟨_, rfl⟩
  | cons d digits ih =>
    obtain ⟨hd, hrest⟩ := List.forall_mem_cons.mp hdigits
    obtain ⟨value, hvalue⟩ := ih (before ++ [d]) hrest
    have hne : d ≠ '\\' := by
      rintro rfl
      rw [hslash] at hd
      cases hd
    refine ⟨value, ?_⟩
    simp only [List.cons_append, numericEscape, if_neg hne, hd, if_true, hvalue]
    rfl

theorem escape_numeric (h : NumericEscape radix numeral) (hc : isDigitIn radix c = false)
    (more : List Char) :
    ∃ value, escape (numeral ++ c :: more) = ⟨value, numeral ++ [c], more⟩ := by
  cases h with
  | @octal first digits hdigits =>
    obtain ⟨hfirst, hrest⟩ := List.forall_mem_cons.mp hdigits
    obtain ⟨value, hvalue⟩ := numericEscape_ended [first] more hrest (by decide) hc
    refine ⟨value.map some, ?_⟩
    simp only [List.cons_append, escape, hfirst, if_true, hvalue]
    rfl
  | @hexadecimal digits hdigits =>
    obtain ⟨value, hvalue⟩ := numericEscape_ended ['0'] more hdigits (by decide) hc
    have hx : isDigitIn 8 'x' = false := by decide
    refine ⟨value.map some, ?_⟩
    simp only [List.cons_append, escape, hx, if_true, hvalue]
    rfl

theorem escape_single (hc : isDigitIn 8 c = false) (hx : c ≠ 'x') :
    ∃ value, escape (c :: more) = ⟨value, [c], more⟩ := by
  simp only [escape, hc, if_neg hx]
  split
  · cases ‹false = true›
  · split
    · exact ⟨_, rfl⟩
    · split
      · exact ⟨_, rfl⟩
      · exact ⟨_, rfl⟩

/-! ## Reading whole contents -/

/-- The text is passed over in front of others, whatever it does to the contents. -/
def Precedes (q : Char) (text more : List Char) : Prop :=
  ∃ f : Contents → Contents,
    quotedText q (text ++ more) = ((quotedText q more).map f).behind text

theorem precedes_plain (hq : c ≠ q) (hslash : c ≠ '\\') : Precedes q [c] more := by
  refine ⟨Contents.cons c, ?_⟩
  rw [List.singleton_append, quotedText, if_neg hq, if_neg hslash]

/-- An escape that takes some text is passed over with it. -/
theorem precedes_escape (hq : q ≠ '\\') (text : List Char)
    (h : ∃ value, escape (text ++ more) = ⟨value, text, more⟩) :
    Precedes q ('\\' :: text) more := by
  obtain ⟨value, hescape⟩ := h
  refine ⟨Contents.afterEscape value, ?_⟩
  rw [List.cons_append, quotedText, if_neg hq.symm, if_pos rfl]
  simp only [hescape]
  rfl

theorem Precedes.append {text text' : List Char} (h : Precedes q text (text' ++ more))
    (h' : Precedes q text' more) : Precedes q (text ++ text') more := by
  obtain ⟨f, htext⟩ := h
  obtain ⟨f', htext'⟩ := h'
  refine ⟨f ∘ f', ?_⟩
  rw [List.append_assoc, htext, htext']
  simp [Taken.behind, Taken.map]

/-- Contents made of whole pieces are passed over. -/
theorem quotedText_whole {body : List Char} (h : Whole body) (hq : q ≠ '\\') (hbody : q ∉ body)
    (more : List Char) : Precedes q body more := by
  induction h with
  | nil => exact ⟨id, rfl⟩
  | @plain c rest hslash _ ih =>
    obtain ⟨hc, hrest⟩ : q ≠ c ∧ q ∉ rest := by simpa using hbody
    exact (precedes_plain hc.symm hslash).append (ih hrest)
  | @single c rest hc hx _ ih =>
    have hrest : q ∉ rest := fun hmem => hbody (by simp [hmem])
    exact (precedes_escape hq [c] (escape_single hc hx)).append (ih hrest)
  | @numeric radix numeral c rest hnumeral hc _ ih =>
    have hrest : q ∉ rest := fun hmem => hbody (by simp [hmem])
    have hescape := escape_numeric hnumeral hc (rest ++ more)
    have hpiece : Precedes q ('\\' :: (numeral ++ [c])) (rest ++ more) :=
      precedes_escape hq (numeral ++ [c]) (by simpa using hescape)
    simpa using hpiece.append (ih hrest)

end

/-! ## How contents end -/

section

variable {piece body : List Char}

theorem EndsInNumeric.behind (h : EndsInNumeric body)
    (hpiece : ∀ rest, Whole rest → Whole (piece ++ rest)) : EndsInNumeric (piece ++ body) := by
  obtain ⟨before, radix, numeral, hbefore, hnumeral, rfl⟩ := h
  exact ⟨piece ++ before, radix, numeral, hpiece before hbefore, hnumeral, by simp⟩

/-- A whole piece in front of the contents does not change how they end. -/
theorem whole_or_endsInNumeric_behind (h : Whole body ∨ EndsInNumeric body)
    (hpiece : ∀ rest, Whole rest → Whole (piece ++ rest)) :
    Whole (piece ++ body) ∨ EndsInNumeric (piece ++ body) :=
  h.imp (hpiece body) (·.behind hpiece)

theorem getLast?_ne_of_append {c : Char} (h : (piece ++ body).getLast? ≠ some c) :
    body.getLast? ≠ some c := by
  intro hlast
  rw [List.getLast?_append, hlast] at h
  exact h rfl

/-- Digits at the front of a text, and what stands behind them. -/
theorem exists_digits (radix : Nat) (cs : List Char) :
    ∃ digits rest, cs = digits ++ rest ∧ (∀ d ∈ digits, isDigitIn radix d = true) ∧
      ∀ c ∈ rest.head?, isDigitIn radix c = false := by
  induction cs with
  | nil => exact ⟨[], [], rfl, by simp, by simp⟩
  | cons c cs ih =>
    by_cases hc : isDigitIn radix c = true
    · obtain ⟨digits, rest, rfl, hdigits, hrest⟩ := ih
      exact ⟨c :: digits, rest, rfl, List.forall_mem_cons.mpr ⟨hc, hdigits⟩, hrest⟩
    · exact ⟨[], c :: cs, rfl, by simp, by simpa using hc⟩

/-- A numeric escape with digits up to the end, or up to the character that ends it. -/
theorem numeric_piece {radix : Nat} {numeral rest : List Char} (h : NumericEscape radix numeral)
    (hrest : ∀ c ∈ rest.head?, isDigitIn radix c = false) :
    EndsInNumeric ('\\' :: (numeral ++ rest)) ∨ ∃ piece others,
      '\\' :: (numeral ++ rest) = piece ++ others ∧ piece ≠ [] ∧
        ∀ more, Whole more → Whole (piece ++ more) := by
  cases rest with
  | nil => exact Or.inl ⟨[], radix, numeral, .nil, h, by simp⟩
  | cons c rest =>
    refine Or.inr ⟨'\\' :: (numeral ++ [c]), rest, by simp, List.cons_ne_nil _ _, ?_⟩
    intro more hmore
    simpa using Whole.numeric h (hrest c rfl) hmore

/-- Contents that do not end in a backslash begin with a whole piece, or are a numeric
escape that nothing ends. -/
theorem first_piece {c : Char} {rest : List Char} (h : (c :: rest).getLast? ≠ some '\\') :
    EndsInNumeric (c :: rest) ∨ ∃ piece others, c :: rest = piece ++ others ∧ piece ≠ [] ∧
      ∀ more, Whole more → Whole (piece ++ more) := by
  by_cases hslash : c = '\\'
  · subst hslash
    cases rest with
    | nil => exact absurd rfl h
    | cons d rest =>
      by_cases hoctal : isDigitIn 8 d = true
      · obtain ⟨digits, others, rfl, hdigits, hothers⟩ := exists_digits 8 rest
        have hnumeral : NumericEscape 8 (d :: digits) :=
          .octal (List.forall_mem_cons.mpr ⟨hoctal, hdigits⟩)
        exact numeric_piece hnumeral hothers
      · by_cases hx : d = 'x'
        · subst hx
          obtain ⟨digits, others, rfl, hdigits, hothers⟩ := exists_digits 16 rest
          exact numeric_piece (.hexadecimal hdigits) hothers
        · refine Or.inr ⟨['\\', d], rest, rfl, List.cons_ne_nil _ _, fun more hmore => ?_⟩
          exact .single (by simpa using hoctal) hx hmore
  · exact Or.inr ⟨[c], rest, rfl, List.cons_ne_nil _ _, fun more hmore => .plain hslash hmore⟩

/-- Contents that do not end in a backslash end where a piece does, or inside a numeric
escape. -/
theorem whole_or_endsInNumeric (body : List Char) (h : body.getLast? ≠ some '\\') :
    Whole body ∨ EndsInNumeric body := by
  cases body with
  | nil => exact Or.inl .nil
  | cons c rest =>
    rcases first_piece h with hend | ⟨piece, others, hbody, hne, hpiece⟩
    · exact Or.inr hend
    · have : others.length < (c :: rest).length := by
        have := congrArg List.length hbody
        have := List.length_pos_iff.mpr hne
        simp only [List.length_append] at *
        omega
      rw [hbody] at h ⊢
      exact whole_or_endsInNumeric_behind
        (whole_or_endsInNumeric others (getLast?_ne_of_append h)) hpiece
termination_by body.length

/-- Contents that end inside a numeric escape end with an `x` or a digit. -/
theorem EndsInNumeric.getLast (h : EndsInNumeric body) :
    ∃ c ∈ body.getLast?, c = 'x' ∨ isDigitIn 16 c = true := by
  obtain ⟨before, radix, numeral, _, hnumeral, rfl⟩ := h
  cases hnumeral with
  | @octal c digits hdigits =>
    have hlast := List.getLast_mem (List.cons_ne_nil c digits)
    have hdigit := hdigits _ hlast
    refine ⟨(c :: digits).getLast (List.cons_ne_nil c digits), ?_, Or.inr ?_⟩
    · simp [List.getLast?_eq_some_getLast]
    · simp only [isDigitIn, decide_eq_true_eq] at hdigit ⊢
      omega
  | @hexadecimal digits hdigits =>
    refine ⟨('x' :: digits).getLast (List.cons_ne_nil 'x' digits), ?_, ?_⟩
    · simp [List.getLast?_eq_some_getLast]
    · rcases List.mem_cons.mp (List.getLast_mem (List.cons_ne_nil 'x' digits)) with hx | hmem
      · exact Or.inl hx
      · exact Or.inr (hdigits _ hmem)

end

/-! ## The closing quote -/

section

variable {body more : List Char} {q : Char}

/-- Whole contents are read up to the closing quote behind them. -/
theorem quotedText_closed (h : Whole body) (hq : q ≠ '\\') (hbody : q ∉ body)
    (hmore : more.head? ≠ some q) :
    ∃ contents, quotedText q (body ++ q :: more) = ⟨contents, body ++ [q], more⟩ := by
  obtain ⟨f, htext⟩ := quotedText_whole h hq hbody (q :: more)
  refine ⟨f (some (.ok [])), ?_⟩
  rw [htext, quotedText, if_pos rfl, if_neg hmore]
  rfl

/-- The closing quote behind a numeric escape ends the escape, and the text goes on. -/
theorem quotedText_swallowed (h : EndsInNumeric body) (hq : q ≠ '\\') (hbody : q ∉ body)
    (hdigit : ∀ radix ≤ 16, isDigitIn radix q = false) :
    (quotedText q (body ++ q :: more)).rest = (quotedText q more).rest := by
  obtain ⟨before, radix, numeral, hbefore, hnumeral, rfl⟩ := h
  have hradix : radix ≤ 16 := by cases hnumeral <;> omega
  have hbeforeq : q ∉ before := fun hmem => hbody (by simp [hmem])
  obtain ⟨f, htext⟩ := quotedText_whole hbefore hq hbeforeq ('\\' :: (numeral ++ q :: more))
  obtain ⟨value, hescape⟩ := escape_numeric hnumeral (hdigit radix hradix) more
  obtain ⟨g, hpiece⟩ : Precedes q ('\\' :: (numeral ++ [q])) more :=
    precedes_escape hq (numeral ++ [q]) ⟨value, by simpa using hescape⟩
  calc (quotedText q ((before ++ '\\' :: numeral) ++ q :: more)).rest
      = (quotedText q (before ++ '\\' :: (numeral ++ q :: more))).rest := by simp
    _ = (quotedText q ('\\' :: (numeral ++ q :: more))).rest := by rw [htext]; rfl
    _ = (quotedText q ('\\' :: (numeral ++ [q]) ++ more)).rest := by simp
    _ = (quotedText q more).rest := by rw [hpiece]; rfl

/-- Quoted text takes at least one character, where there is one. -/
theorem quotedText_rest_ne {q : Char} {cs : List Char} (h : cs ≠ []) :
    (quotedText q cs).rest ≠ cs := by
  intro hrest
  have hnil : (quotedText q cs).text = [] := by
    have happend := quotedText_append q cs
    rw [hrest] at happend
    simpa using happend
  cases cs with
  | nil => exact h rfl
  | cons c cs =>
    rw [quotedText] at hnil
    split at hnil
    · split at hnil <;> cases hnil
    · split at hnil <;> cases hnil

end

end Text

namespace Lexer

/-- The next thing read is one token, or one error, with exactly this text, and reading
goes on with `rest`. -/
def Takes (l : Lexer) (text rest : List Char) : Prop :=
  let behind := l.position.after text
  let span := Span.between l.position behind
  (∃ token, token ≠ .endOfText ∧
    l.next = (.ok ⟨token, span, false⟩, ⟨rest, behind, l.errors⟩)) ∨
  ∃ fault, l.next = (.error ⟨fault, span⟩, ⟨rest, behind, l.errors⟩)

section

variable {q : Char} {make : String → Token} {l : Lexer} {cs text rest : List Char}

/-- A quote is not skipped as layout. -/
theorem next_quote (hq : Text.quoteToken q = some make) (hl : l.rest = q :: cs) :
    l.next = l.take false q cs := by
  have hbegins : Text.BeginsToken q cs := by
    unfold Text.quoteToken at hq
    split at hq <;> first | exact ⟨by decide, by decide, by simp⟩ | cases hq
  exact next_of_beginsToken hbegins hl

theorem scan_quote (hq : Text.quoteToken q = some make) (cs : List Char) :
    Text.scan q cs = ((Text.quotedText q cs).map (Text.quotedToken make)).behind [q] := by
  unfold Text.scan
  rw [hq]
  unfold Text.quoteToken at hq
  split at hq <;> first | rfl | cases hq

/-- Behind a quote the lexer takes what quoted text takes. -/
theorem takes_quote_iff (hq : Text.quoteToken q = some make) (hl : l.rest = q :: (text ++ rest)) :
    l.Takes (q :: text) rest ↔ (Text.quotedText q (text ++ rest)).rest = rest := by
  have hnext := next_quote hq hl
  rw [take, scan_quote hq] at hnext
  constructor
  · rintro (⟨token, _, h⟩ | ⟨fault, h⟩)
    · exact congrArg (·.2.rest) (hnext.symm.trans h)
    · exact congrArg (·.2.rest) (hnext.symm.trans h)
  · intro hrest
    have htext : (Text.quotedText q (text ++ rest)).text = text := by
      have happend := Text.quotedText_append q (text ++ rest)
      rw [hrest] at happend
      exact List.append_cancel_right happend
    simp only [Text.Taken.behind, Text.Taken.map, htext, hrest, List.singleton_append] at hnext
    cases hvalue : Text.quotedToken make (Text.quotedText q (text ++ rest)).value with
    | ok token =>
      have htoken := Text.quotedToken_inText hq (Text.quotedText q (text ++ rest)).value
      rw [hvalue] at hnext htoken
      exact Or.inl ⟨token, htoken, hnext⟩
    | error fault =>
      rw [hvalue] at hnext
      exact Or.inr ⟨fault, hnext⟩

end

/-- Quoted text whose contents have no closing quote and do not end in a backslash is
taken up to the closing quote behind them, whatever escapes are in it, just when the
contents do not end inside a numeric escape or nothing stands behind the quote. -/
theorem takes_quoted_iff {q : Char} {make : String → Token} {l : Lexer} {body rest : List Char}
    (hq : Text.quoteToken q = some make) (hl : l.rest = q :: (body ++ q :: rest))
    (hbody : q ∉ body) (hlast : body.getLast? ≠ some '\\') (hrest : rest.head? ≠ some q) :
    l.Takes (q :: (body ++ [q])) rest ↔ rest = [] ∨ ¬ Text.EndsInNumeric body := by
  have hsplit : body ++ q :: rest = (body ++ [q]) ++ rest := by simp
  have hquote : q ≠ '\\' ∧ ∀ radix ≤ 16, Text.isDigitIn radix q = false := by
    have hvalue : q ≠ '\\' ∧ Text.digitValue q = 36 := by
      unfold Text.quoteToken at hq
      split at hq <;> first | decide | cases hq
    refine ⟨hvalue.1, fun radix hradix => ?_⟩
    simp only [Text.isDigitIn, hvalue.2, decide_eq_false_iff_not]
    omega
  rw [takes_quote_iff hq (hsplit ▸ hl), ← hsplit]
  constructor
  · intro htaken
    by_cases hne : rest = []
    · exact Or.inl hne
    · refine Or.inr fun hend => ?_
      rw [Text.quotedText_swallowed hend hquote.1 hbody hquote.2] at htaken
      exact Text.quotedText_rest_ne hne htaken
  · intro h
    rcases Text.whole_or_endsInNumeric body hlast with hwhole | hend
    · obtain ⟨contents, htaken⟩ := Text.quotedText_closed hwhole hquote.1 hbody hrest
      rw [htaken]
    · rcases h with rfl | hnot
      · rw [Text.quotedText_swallowed hend hquote.1 hbody hquote.2, Text.quotedText]
      · exact absurd hend hnot

/-- In `'\xg\q'.` both escapes are bad, and the text still ends at its quote. -/
theorem takes_quoted_iff_spoilt :
    let l := ofText "'\\xg\\q'." .start
    let body := ['\\', 'x', 'g', '\\', 'q']
    Text.quoteToken '\'' = some .quotedName ∧ l.rest = '\'' :: (body ++ '\'' :: ['.']) ∧
      '\'' ∉ body ∧ body.getLast? ≠ some '\\' ∧ ['.'].head? ≠ some '\'' ∧
      l.Takes ('\'' :: (body ++ ['\''])) ['.'] := by
  intro l body
  have hend : ¬ Text.EndsInNumeric body := by
    intro h
    obtain ⟨c, hc, hlast⟩ := h.getLast
    obtain rfl : 'q' = c := by simpa [body] using hc
    revert hlast
    decide
  have hl : l.rest = '\'' :: (body ++ '\'' :: ['.']) := by decide
  refine ⟨rfl, hl, by decide, by decide, by decide, ?_⟩
  exact (takes_quoted_iff rfl hl (by decide) (by decide) (by decide)).mpr (Or.inr hend)

/-- In `'\x4'.` the escape takes the closing quote, and the rest of the text with it. -/
theorem not_takes_quoted_open :
    let l := ofText "'\\x4'." .start
    let body := ['\\', 'x', '4']
    Text.quoteToken '\'' = some .quotedName ∧ l.rest = '\'' :: (body ++ '\'' :: ['.']) ∧
      '\'' ∉ body ∧ body.getLast? ≠ some '\\' ∧ ['.'].head? ≠ some '\'' ∧
      l.next.2.rest = [] ∧ ¬ l.Takes ('\'' :: (body ++ ['\''])) ['.'] := by
  intro l body
  have hrest : l.next.2.rest = [] := by decide +kernel
  refine ⟨rfl, by decide, by decide, by decide, by decide, hrest, ?_⟩
  rintro (⟨token, _, h⟩ | ⟨fault, h⟩)
  · rw [h] at hrest
    cases hrest
  · rw [h] at hrest
    cases hrest

end Lexer

end Clausal
