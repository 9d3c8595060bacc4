import Clausal.Proofs.Text.Classes
import Clausal.Proofs.Token.Spelling
import Clausal.Text.AtomText

/-
  Munch — which token the lexer takes from a text that is cut off clearly

  Names, variables and numerals are read as far as they go. A blank, a comma,
  the bar and round or closing brackets go on with none of them, so before one
  of these a token ends where its text does.

  What is proved:
    1. `scan_identifier`, `scan_symbol`, `scan_quoted` — a name is read back
       from its text, bare or between quotes.
    2. `scan_variable` and `scan_natural` — so are variables and whole numbers.
    3. `valueOf_natChars` — the digits of a number spell that number.
    4. `numeral_grouped` — a numeral is read with the underscores between its
       digits, up to a character that continues no literal.
-/

namespace Clausal.Text

/-- The characters that end every token before them. -/
def delimiters : List Char := [' ', ',', '(', ')', ']', '}', '|']

/-- The text is empty or begins with a delimiter. -/
def Delimited (more : List Char) : Prop := ∀ c ∈ more.head?, c ∈ delimiters

theorem delimited_nil : Delimited [] := by
  intro c hc
  simp at hc

theorem delimited_cons {c : Char} {more : List Char} (h : c ∈ delimiters) :
    Delimited (c :: more) := by
  intro d hd
  rw [List.head?_cons, Option.mem_some_iff] at hd
  rwa [← hd]

theorem Delimited.not_head {more : List Char} {c : Char} (h : Delimited more)
    (hc : c ∉ delimiters) : more.head? ≠ some c := by
  intro heq
  exact hc (h c heq)

/-- A run of characters of a class ends where the class does. -/
theorem takeWhile_stops {p : Char → Bool} {w more : List Char} (hw : ∀ c ∈ w, p c = true)
    (hmore : ∀ c ∈ more.head?, p c = false) :
    (w ++ more).takeWhile p = w ∧ (w ++ more).dropWhile p = more := by
  rw [List.takeWhile_append_of_pos hw, List.dropWhile_append_of_pos hw]
  cases more with
  | nil => simp
  | cons c rest =>
    have hc : p c = false := hmore c rfl
    simp [hc]

/-! ## Which kind of token begins -/

/-- The characters that are a token alone or open a quoted text. -/
def specials : List Char :=
  ['(', ')', '[', ']', '{', '}', ',', '|', '!', ';', '\'', '"', '\x60']

theorem scan_of_not_special {c : Char} (rest : List Char) (h : c ∉ specials) :
    scan c rest =
      if isDigitIn 10 c then numeral (c :: rest)
      else if isAlphabetic c || isUppercase c || c == '_' then
        ⟨.ok (if c == '_' || isUppercase c
            then .var (String.ofList (c :: rest.takeWhile isIdentChar))
            else .name (String.ofList (c :: rest.takeWhile isIdentChar))),
          c :: rest.takeWhile isIdentChar, rest.dropWhile isIdentChar⟩
      else if c == '.' && endsClause rest then ⟨.ok .stop, [c], rest⟩
      else if isSymbolChar c then
        ⟨.ok (.name (String.ofList (c :: symbolRun rest))), c :: symbolRun rest,
          (c :: rest).drop (c :: symbolRun rest).length⟩
      else ⟨.error (.unrecognized c), [c], rest⟩ := by
  have hsolo : soloToken c = none := by
    unfold soloToken
    split <;> simp_all [specials]
  have hquote : quoteToken c = none := by
    unfold quoteToken
    split <;> simp_all [specials]
  rw [scan, hsolo, hquote]

/-- What a computed pass over the characters of a list finds of each of them. -/
theorem forall_mem_of_all {Q : Char → Prop} [DecidablePred Q] {cs : List Char}
    (h : cs.all (fun c => decide (Q c)) = true) : ∀ c ∈ cs, Q c := by
  intro c hc
  exact of_decide_eq_true (List.all_eq_true.mp h c hc)

/-- A character of a class is none of those that do not belong to it. -/
theorem not_mem_of_class {p : Char → Bool} {cs : List Char} {c : Char}
    (hp : cs.all (fun d => decide (p d = false)) = true) (h : p c = true) : c ∉ cs := by
  intro hc
  rw [forall_mem_of_all hp c hc] at h
  exact Bool.false_ne_true h

/-! ## Names -/

theorem Delimited.not_isIdentChar {more : List Char} (h : Delimited more) :
    ∀ c ∈ more.head?, isIdentChar c = false := by
  have hnone : ∀ c ∈ delimiters, isIdentChar c = false := forall_mem_of_all (by decide)
  exact fun c hc => hnone c (h c hc)

theorem scan_identifier {c : Char} {tail more : List Char} (hc : isLowercase c = true)
    (htail : ∀ d ∈ tail, isIdentChar d = true) (hmore : Delimited more) :
    scan c (tail ++ more) = ⟨.ok (.name (String.ofList (c :: tail))), c :: tail, more⟩ := by
  have hspecial : c ∉ specials := not_mem_of_class (p := isLowercase) (by decide) hc
  have hunder : (c == '_') = false := by
    have hne : c ∉ ['_'] := not_mem_of_class (p := isLowercase) (by decide) hc
    simpa using hne
  obtain ⟨htake, hdrop⟩ := takeWhile_stops htail hmore.not_isIdentChar
  rw [scan_of_not_special _ hspecial]
  simp [not_isDigit_of_isLowercase hc, isAlphabetic_of_isLowercase hc,
    not_isUppercase_of_isLowercase hc, hunder, htake, hdrop]

/-- A variable begins with an underscore or an uppercase letter and goes on with
identifier characters. -/
def IsVariableName (name : String) : Prop :=
  ∃ c tail, name.toList = c :: tail ∧ (c = '_' ∨ isUppercase c = true) ∧
    ∀ d ∈ tail, isIdentChar d = true

theorem scan_variable {c : Char} {tail more : List Char} (hc : c = '_' ∨ isUppercase c = true)
    (htail : ∀ d ∈ tail, isIdentChar d = true) (hmore : Delimited more) :
    scan c (tail ++ more) = ⟨.ok (.var (String.ofList (c :: tail))), c :: tail, more⟩ := by
  have hclass : (c == '_' || isUppercase c) = true := by simpa using hc
  have hspecial : c ∉ specials :=
    not_mem_of_class (p := fun d => d == '_' || isUppercase d) (by decide) hclass
  have hdigit : isDigitIn 10 c = false := by
    rcases hc with rfl | hc
    · decide
    · exact not_isDigit_of_isUppercase hc
  obtain ⟨htake, hdrop⟩ := takeWhile_stops htail hmore.not_isIdentChar
  rw [scan_of_not_special _ hspecial]
  have hletter : (isAlphabetic c || isUppercase c || c == '_') = true := by
    rcases hc with rfl | hc
    · decide
    · simp [hc]
  simp [hdigit, hletter, hclass, htake, hdrop]

theorem symbolRun_delimited {w more : List Char} (hw : ∀ c ∈ w, isSymbolChar c = true)
    (hcomment : opensComment w = false) (hmore : Delimited more) : symbolRun (w ++ more) = w := by
  induction w with
  | nil =>
    cases more with
    | nil => rfl
    | cons c rest =>
      have hc : c ∈ delimiters := hmore c rfl
      have hnone : ∀ d ∈ delimiters, isSymbolChar d = false := forall_mem_of_all (by decide)
      have hnot : isSymbolChar c = false := hnone c hc
      simp [symbolRun, hnot]
  | cons c rest ih =>
    have hc : isSymbolChar c = true := hw c List.mem_cons_self
    have hrest : ∀ d ∈ rest, isSymbolChar d = true := fun d hd => hw d (List.mem_cons_of_mem c hd)
    -- A slash at the end of the name opens no comment with a delimiter behind it,
    -- and one before that would open the comment inside of the name.
    have hopen : (c == '/' && (rest ++ more).head? == some '*') = false := by
      rw [Bool.eq_false_iff, Ne, Bool.and_eq_true, beq_iff_eq, beq_iff_eq]
      rintro ⟨rfl, hstar⟩
      cases rest with
      | nil => exact hmore.not_head (by decide) hstar
      | cons d more =>
        rw [List.cons_append, List.head?_cons, Option.some.injEq] at hstar
        subst hstar
        simp [opensComment] at hcomment
    have hbehind : opensComment rest = false := by
      unfold opensComment at hcomment
      split at hcomment
      · cases hcomment
      · rename_i heq
        obtain ⟨rfl, rfl⟩ := List.cons.inj heq
        exact hcomment
      · rename_i heq
        cases heq
    rw [List.cons_append, symbolRun, hc, hopen, ih hrest hbehind]
    rfl

/-- A run of symbol characters that opens no comment, and is no dot alone. -/
structure IsSymbolName (c : Char) (tail : List Char) : Prop where
  symbols : ∀ d ∈ c :: tail, isSymbolChar d = true
  noComment : opensComment (c :: tail) = false
  noDot : c :: tail ≠ ['.']

theorem symbol_classes : ∀ c ∈ symbolChars, c ∉ specials ∧ isDigitIn 10 c = false ∧
    (isAlphabetic c || isUppercase c || c == '_') = false ∧ isBlank c = false ∧ c ≠ '%' :=
  forall_mem_of_all (by decide)

theorem mem_symbolChars {c : Char} (h : isSymbolChar c = true) : c ∈ symbolChars := by
  simpa [isSymbolChar] using h

theorem scan_symbol {c : Char} {tail more : List Char} (h : IsSymbolName c tail)
    (hmore : Delimited more) :
    scan c (tail ++ more) = ⟨.ok (.name (String.ofList (c :: tail))), c :: tail, more⟩ := by
  have hc : isSymbolChar c = true := h.symbols c List.mem_cons_self
  have htail : ∀ d ∈ tail, isSymbolChar d = true :=
    fun d hd => h.symbols d (List.mem_cons_of_mem c hd)
  obtain ⟨hspecial, hdigit, hletter, _, _⟩ := symbol_classes c (mem_symbolChars hc)
  -- A dot alone could end a clause; in a longer run it stands before a symbol
  -- character, and none of these is layout.
  have hstop : (c == '.' && endsClause (tail ++ more)) = false := by
    cases tail with
    | nil =>
      have hne : c ≠ '.' := fun heq => h.noDot (by rw [heq])
      simp [hne]
    | cons d rest =>
      obtain ⟨_, _, _, hblank, hpercent⟩ :=
        symbol_classes d (mem_symbolChars (htail d List.mem_cons_self))
      simp [endsClause, hblank, hpercent]
  have hrun : symbolRun (tail ++ more) = tail := by
    have hwhole := symbolRun_delimited h.symbols h.noComment hmore
    rw [List.cons_append, symbolRun] at hwhole
    split at hwhole
    · exact (List.cons.inj hwhole).2
    · cases hwhole
  rw [scan_of_not_special _ hspecial]
  simp [hdigit, hletter, hstop, hc, hrun]

/-- What a name must be to stand without quotes. -/
theorem bare_cases {name : String} (h : needsQuotes name = false) :
    name ∈ bareNames ∨ ∃ c tail, name.toList = c :: tail ∧
      ((isLowercase c = true ∧ ∀ d ∈ tail, isIdentChar d = true) ∨ IsSymbolName c tail) := by
  unfold needsQuotes at h
  split at h
  · rename_i hbare
    exact Or.inl (by simpa using hbare)
  · right
    split at h
    · cases h
    · cases h
    · rename_i c tail hdot heq
      refine ⟨c, tail, heq, ?_⟩
      split at h
      · rename_i hc
        exact Or.inl ⟨hc, by simpa using h⟩
      · split at h
        · rename_i hall
          refine Or.inr ⟨by simpa using hall, h, ?_⟩
          intro hcontra
          obtain ⟨rfl, rfl⟩ := List.cons.inj hcontra
          exact hdot rfl rfl
        · cases h

/-! ## Quoted names -/

/-- An escaped character stands for itself between quotes. -/
theorem quotedText_escapeChar (c : Char) (rest : List Char) :
    quotedText '\'' (escapeChar c ++ rest) =
      ((quotedText '\'' rest).map (·.cons c)).behind (escapeChar c) := by
  unfold escapeChar
  split
  · rw [List.cons_append, quotedText]
    rfl
  · rw [List.cons_append, quotedText]
    rfl
  · rw [List.cons_append, quotedText]
    rfl
  · rw [List.cons_append, quotedText]
    rfl
  · rename_i hquote hslash _ _
    rw [List.cons_append, quotedText, if_neg hquote, if_neg hslash]
    rfl

theorem quotedText_flatMap (cs : List Char) {more : List Char} (h : more.head? ≠ some '\'') :
    quotedText '\'' (cs.flatMap escapeChar ++ '\'' :: more) =
      ⟨some (.ok cs), cs.flatMap escapeChar ++ ['\''], more⟩ := by
  induction cs with
  | nil =>
    rw [List.flatMap_nil, List.nil_append, quotedText, if_pos rfl, if_neg h]
    rfl
  | cons c rest ih =>
    rw [List.flatMap_cons, List.append_assoc, quotedText_escapeChar, ih]
    simp [Taken.map, Taken.behind, Contents.cons, Except.map]

theorem scan_quoted (name : String) {more : List Char} (h : Delimited more) :
    scan '\'' (name.toList.flatMap escapeChar ++ '\'' :: more) =
      ⟨.ok (.quotedName name), quoted name, more⟩ := by
  have hquote : more.head? ≠ some '\'' := h.not_head (by decide)
  show ((quotedText '\'' _).map (quotedToken .quotedName)).behind ['\''] = _
  rw [quotedText_flatMap name.toList hquote]
  simp [Taken.map, Taken.behind, quotedToken, quoted]

/-! ## Whole numbers -/

theorem digitValue_digitChar : ∀ d < 10, digitValue (Number.digitChar d) = d := by decide

theorem natChars_eq (n : Nat) :
    Number.natChars n =
      if n < 10 then [Number.digitChar n]
      else Number.natChars (n / 10) ++ [Number.digitChar (n % 10)] := by
  unfold Number.natChars
  rw [Number.digitsOf]
  split <;> simp

theorem natChars_ne_nil (n : Nat) : Number.natChars n ≠ [] := by
  rw [natChars_eq]
  split <;> simp

theorem isDigit_natChars (n : Nat) : ∀ c ∈ Number.natChars n, isDigitIn 10 c = true := by
  intro c hc
  rw [natChars_eq] at hc
  split at hc
  · rename_i hn
    rw [List.mem_singleton] at hc
    subst hc
    simp [isDigitIn, digitValue_digitChar n hn, hn]
  · rcases List.mem_append.mp hc with hc | hc
    · exact isDigit_natChars (n / 10) c hc
    · have hlt : n % 10 < 10 := Nat.mod_lt n (by decide)
      rw [List.mem_singleton] at hc
      subst hc
      simp [isDigitIn, digitValue_digitChar (n % 10) hlt, hlt]
termination_by n

/-- The digits of a number spell that number. -/
theorem valueOf_natChars (n : Nat) : valueOf 10 (Number.natChars n) = n := by
  rw [natChars_eq]
  split
  · rename_i hn
    simp [valueOf, digitValue_digitChar n hn]
  · have hlt : n % 10 < 10 := Nat.mod_lt n (by decide)
    have hlast : valueOf 10 [Number.digitChar (n % 10)] = n % 10 := by
      simp [valueOf, digitValue_digitChar (n % 10) hlt]
    calc valueOf 10 (Number.natChars (n / 10) ++ [Number.digitChar (n % 10)])
        = n / 10 * 10 + n % 10 := by
          rw [valueOf_append, valueOf_natChars (n / 10), hlast]
          rfl
      _ = n := Nat.div_add_mod' n 10
termination_by n

/-! ## Literals -/

/-- The characters that a literal may go on with: letters and digits, an underscore, a
dot, a quote. -/
def continuesLiteral (c : Char) : Bool := c.isAlphanum || c == '_' || c == '.' || c == '\''

/-- The text is empty or begins with a character that no literal goes on with. -/
def EndsLiteral (more : List Char) : Prop := ∀ c ∈ more.head?, continuesLiteral c = false

theorem Delimited.endsLiteral {more : List Char} (h : Delimited more) : EndsLiteral more := by
  have hnone : ∀ c ∈ delimiters, continuesLiteral c = false := forall_mem_of_all (by decide)
  exact fun c hc => hnone c (h c hc)

theorem digitValue_of_not_isAlphanum {c : Char} (h : c.isAlphanum = false) :
    digitValue c = 36 := by
  unfold Char.isAlphanum Char.isAlpha Char.isUpper Char.isLower Char.isDigit at h
  simp only [Bool.or_eq_false_iff, Bool.and_eq_false_imp, decide_eq_true_eq,
    decide_eq_false_iff_not] at h
  obtain ⟨⟨hupper, hlower⟩, hdigit⟩ := h
  have hdecimal : ¬ ('0' ≤ c ∧ c ≤ '9') := fun hc => hdigit hc.1 hc.2
  have hsmall : ¬ ('a' ≤ c ∧ c ≤ 'z') := fun hc => hlower hc.1 hc.2
  have hlarge : ¬ ('A' ≤ c ∧ c ≤ 'Z') := hupper
  rw [digitValue, if_neg hdecimal, if_neg hsmall, if_neg hlarge]

theorem EndsLiteral.not_isDigitIn {more : List Char} (h : EndsLiteral more) {radix : Nat}
    (hradix : radix ≤ 36) : ∀ c ∈ more.head?, isDigitIn radix c = false := by
  intro c hc
  have hclass := h c hc
  simp only [continuesLiteral, Bool.or_eq_false_iff] at hclass
  simp only [isDigitIn, digitValue_of_not_isAlphanum hclass.1.1.1, decide_eq_false_iff_not]
  omega

theorem EndsLiteral.not_head {more : List Char} {c : Char} (h : EndsLiteral more)
    (hc : continuesLiteral c = true) : more.head? ≠ some c := by
  intro heq
  rw [h c heq] at hc
  cases hc

/-- Digits, with an underscore between some of them. -/
inductive Grouped : List Char → List Char → Prop where
  | single (d : Char) : Grouped [d] [d]
  | next (d : Char) {digits text : List Char} : Grouped digits text →
    Grouped (d :: digits) (d :: text)
  | group (d : Char) {digits text : List Char} : Grouped digits text →
    Grouped (d :: digits) (d :: '_' :: text)

theorem grouped_self {digits : List Char} (h : digits ≠ []) : Grouped digits digits := by
  induction digits with
  | nil => exact absurd rfl h
  | cons d rest ih =>
    cases rest with
    | nil => exact .single d
    | cons e others => exact .next d (ih (List.cons_ne_nil e others))

/-- Grouped digits begin with their first digit. -/
theorem Grouped.head {digits text : List Char} (h : Grouped digits text) :
    ∃ d ∈ digits, text.head? = some d := by
  cases h with
  | single d => exact ⟨d, List.mem_cons_self, rfl⟩
  | next d _ => exact ⟨d, List.mem_cons_self, rfl⟩
  | group d _ => exact ⟨d, List.mem_cons_self, rfl⟩

theorem takeDigits_endsLiteral {more : List Char} (h : EndsLiteral more) :
    takeDigits more = ⟨[], [], more⟩ := by
  cases more with
  | nil => rfl
  | cons c rest =>
    have hdigit : isDigitIn 10 c = false := h.not_isDigitIn (by decide) c rfl
    have hunder : c ≠ '_' := fun heq => h.not_head (c := '_') rfl (by rw [heq]; rfl)
    simp [takeDigits, hdigit, hunder]

section

variable {digits text more : List Char}

theorem takeDigits_grouped (h : Grouped digits text)
    (hdigits : ∀ d ∈ digits, isDigitIn 10 d = true) (hmore : EndsLiteral more) :
    takeDigits (text ++ more) = ⟨digits, text, more⟩ := by
  induction h with
  | single d =>
    have hd : isDigitIn 10 d = true := hdigits d List.mem_cons_self
    rw [List.singleton_append, takeDigits, if_pos hd, takeDigits_endsLiteral hmore]
  | next d _ ih =>
    obtain ⟨hd, hrest⟩ := List.forall_mem_cons.mp hdigits
    rw [List.cons_append, takeDigits, if_pos hd, ih hrest]
  | @group d digits text hgroup ih =>
    obtain ⟨hd, hrest⟩ := List.forall_mem_cons.mp hdigits
    obtain ⟨e, he, hhead⟩ := hgroup.head
    have hunder : '_' = '_' ∧ (text ++ more).head?.any (isDigitIn 10) = true := by
      rw [List.head?_append, hhead]
      exact ⟨rfl, hrest e he⟩
    rw [List.cons_append, takeDigits, if_pos hd, List.cons_append, takeDigits,
      if_neg (by decide), if_pos hunder, ih hrest]

theorem decimalNumeral_grouped (h : Grouped digits text)
    (hdigits : ∀ d ∈ digits, isDigitIn 10 d = true) (hmore : EndsLiteral more) :
    decimalNumeral (text ++ more) = wholeNumeral ⟨digits, text, more⟩ := by
  have hrun := takeDigits_grouped h hdigits hmore
  unfold decimalNumeral
  rw [hrun]
  split
  · rename_i heq
    have hdot : more.head? = some '.' := congrArg List.head? heq
    exact absurd hdot (hmore.not_head rfl)
  · rfl

/-- Neither a digit nor an underscore nor what ends a literal makes a zero before it
anything but a decimal numeral. -/
theorem not_radix {c : Char}
    (h : isDigitIn 10 c = true ∨ c = '_' ∨ continuesLiteral c = false) :
    c ≠ '\'' ∧ radixOf? c = none := by
  have hne : c ∉ ['\'', 'x', 'o', 'b'] := by
    rcases h with h | rfl | h
    · exact not_mem_of_class (p := isDigitIn 10) (by decide) h
    · decide
    · exact not_mem_of_class (p := fun d => !continuesLiteral d) (by decide) (by simp [h])
  unfold radixOf?
  split <;> simp_all

/-- What stands behind the first digit of grouped digits. -/
theorem Grouped.second {c : Char} {tail : List Char} (h : Grouped digits (c :: tail))
    (hdigits : ∀ d ∈ digits, isDigitIn 10 d = true) (hmore : EndsLiteral more) :
    ∀ d ∈ (tail ++ more).head?, d ≠ '\'' ∧ radixOf? d = none := by
  intro d hd
  refine not_radix ?_
  cases h with
  | single => exact Or.inr (Or.inr (hmore d hd))
  | next _ hgroup =>
    obtain ⟨e, he, hhead⟩ := hgroup.head
    rw [List.head?_append, hhead] at hd
    obtain rfl := Option.some.inj hd
    exact Or.inl (hdigits e (List.mem_cons_of_mem _ he))
  | group =>
    obtain rfl := Option.some.inj hd
    exact Or.inr (Or.inl rfl)

/-- A decimal literal is read as far as it goes. -/
theorem numeral_grouped (h : Grouped digits text)
    (hdigits : ∀ d ∈ digits, isDigitIn 10 d = true) (hmore : EndsLiteral more) :
    numeral (text ++ more) = wholeNumeral ⟨digits, text, more⟩ := by
  rw [← decimalNumeral_grouped h hdigits hmore]
  cases text with
  | nil => cases h
  | cons c tail =>
    have hsecond := h.second hdigits hmore
    -- Only a quote or the letter of a radix behind a leading zero would be read on.
    rw [List.cons_append]
    unfold numeral
    split
    · rename_i heq
      rw [(List.cons.inj heq).2] at hsecond
      exact absurd rfl (hsecond _ rfl).1
    · rename_i heq
      rw [(List.cons.inj heq).2] at hsecond
      rw [(hsecond _ rfl).2]
    · rfl

end

theorem scan_digit {c : Char} (rest : List Char) (h : isDigitIn 10 c = true) :
    scan c rest = numeral (c :: rest) := by
  rw [scan_of_not_special _ (not_mem_of_class (p := isDigitIn 10) (by decide) h), if_pos h]

theorem scan_natural {n : Nat} {c : Char} {tail more : List Char} (hn : n ≤ maxInteger)
    (hc : Number.natChars n = c :: tail) (hmore : Delimited more) :
    scan c (tail ++ more) = ⟨.ok (.integer n), c :: tail, more⟩ := by
  have hdigits : ∀ d ∈ c :: tail, isDigitIn 10 d = true := by
    rw [← hc]
    exact isDigit_natChars n
  have hvalue : valueOf 10 (c :: tail) = n := by rw [← hc, valueOf_natChars]
  rw [scan_digit _ (hdigits c List.mem_cons_self), ← List.cons_append,
    numeral_grouped (grouped_self (List.cons_ne_nil c tail)) hdigits hmore.endsLiteral]
  simp [wholeNumeral, hvalue, integerOr, hn]

/-- A minus is a name of its own before a digit. -/
theorem scan_minus {c : Char} (rest : List Char) (hc : isDigitIn 10 c = true) :
    scan '-' (c :: rest) = ⟨.ok (.name "-"), ['-'], c :: rest⟩ := by
  have hsymbol : isSymbolChar c = false := by
    have hne : c ∉ symbolChars := not_mem_of_class (p := isDigitIn 10) (by decide) hc
    simpa [isSymbolChar] using hne
  have hrun : symbolRun (c :: rest) = [] := by simp [symbolRun, hsymbol]
  rw [scan_of_not_special _ (by decide), hrun]
  rfl

end Clausal.Text
