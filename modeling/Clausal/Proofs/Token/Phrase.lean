import Clausal.Proofs.Token.Munch

/-
  Phrases — words that a text spells before any delimiter

  A phrase is a token and the words behind it; whether a blank stands before
  the phrase is left open. A text spells a phrase when, before a delimiter, it
  is read as the words of the phrase and what follows is read as it would be
  alone. So texts can be put together out of smaller ones.

  What is proved:
    1. `SpellsPhrase.append`, `append_blank`, `solo` — a phrase after a phrase,
       after a blank, and after a bracket or a comma.
    2. `scan_atomChars` — the text of a name is one token, and that the name.
    3. `spells_atomChars`, `spells_variable`, `spells_intChars` — the texts of
       names, variables and whole numbers spell what they are read as.
-/

namespace Clausal

/-- A token and the words behind it. -/
structure Phrase where
  first : Token
  others : List Word
  deriving DecidableEq, Repr

namespace Phrase

/-- One token. -/
def single (token : Token) : Phrase := ⟨token, []⟩

/-- The words of the phrase, behind a blank or not. -/
def words (p : Phrase) (gap : Bool) : List Word := ⟨gap, p.first⟩ :: p.others

/-- A phrase and then another, with a blank between them or not. -/
def before (p : Phrase) (gap : Bool) (q : Phrase) : Phrase := ⟨p.first, p.others ++ q.words gap⟩

@[simp] theorem words_before (p q : Phrase) (gap inner : Bool) :
    (p.before inner q).words gap = p.words gap ++ q.words inner := rfl

end Phrase

namespace Text

/-- Before a delimiter the text is read as the words of the phrase. -/
def SpellsPhrase (cs : List Char) (p : Phrase) : Prop :=
  ∀ (gap : Bool) (more : List Char) (ws : List Word), Delimited more → Spells more ws →
    Spells (blankIf gap ++ (cs ++ more)) (p.words gap ++ ws)

/-- A text of its own that spells a phrase is read as its words. -/
theorem SpellsPhrase.spells {cs : List Char} {p : Phrase} (h : SpellsPhrase cs p) :
    Spells cs (p.words false) := by
  have h := h false [] [] delimited_nil spells_nil
  rw [List.append_nil, List.append_nil] at h
  exact h

theorem spells_token {c : Char} {tail : List Char} {token : Token}
    (h : ∀ more, Delimited more → BeginsToken c (tail ++ more) ∧
      scan c (tail ++ more) = ⟨.ok token, c :: tail, more⟩) :
    SpellsPhrase (c :: tail) (.single token) := by
  intro gap more ws hmore hws
  obtain ⟨hbegin, hscan⟩ := h more hmore
  exact Spells.word_behind gap hbegin hscan hws

/-! ## Texts after texts -/

/-- The text begins with a delimiter, whatever follows it. -/
theorem delimited_append {cs more : List Char} {c : Char} (h : cs.head? = some c)
    (hc : c ∈ delimiters) : Delimited (cs ++ more) := by
  intro d hd
  rw [List.head?_append, h, Option.some_or, Option.mem_some_iff] at hd
  rwa [← hd]

theorem SpellsPhrase.append {a b : List Char} {p q : Phrase} {c : Char} (ha : SpellsPhrase a p)
    (hb : SpellsPhrase b q) (hhead : b.head? = some c) (hc : c ∈ delimiters) :
    SpellsPhrase (a ++ b) (p.before false q) := by
  intro gap more ws hmore hws
  have hbehind := hb false more ws hmore hws
  have h := ha gap (b ++ more) _ (delimited_append hhead hc) hbehind
  rw [Phrase.words_before, List.append_assoc, List.append_assoc]
  exact h

theorem SpellsPhrase.append_blank {a b : List Char} {p q : Phrase} (ha : SpellsPhrase a p)
    (hb : SpellsPhrase b q) : SpellsPhrase (a ++ ' ' :: b) (p.before true q) := by
  intro gap more ws hmore hws
  have hbehind := hb true more ws hmore hws
  have h := ha gap (' ' :: (b ++ more)) _ (delimited_cons (by decide)) hbehind
  rw [Phrase.words_before, List.append_assoc, List.append_assoc]
  exact h

theorem beginsToken_solo {c : Char} {token : Token} (rest : List Char)
    (h : soloToken c = some token) : BeginsToken c rest := by
  have hc : c ∈ specials := by
    unfold soloToken at h
    split at h <;> first | decide | cases h
  have hall : ∀ d ∈ specials, isBlank d = false ∧ d ≠ '%' ∧ d ≠ '/' :=
    forall_mem_of_all (by decide)
  obtain ⟨hblank, hpercent, hslash⟩ := hall c hc
  exact ⟨hblank, hpercent, fun h => hslash h.1⟩

theorem scan_solo {c : Char} {token : Token} (rest : List Char) (h : soloToken c = some token) :
    scan c rest = ⟨.ok token, [c], rest⟩ := by
  rw [scan, h]

theorem spells_solo {c : Char} {token : Token} (h : soloToken c = some token) :
    SpellsPhrase [c] (.single token) :=
  spells_token fun _ _ => ⟨beginsToken_solo _ h, scan_solo _ h⟩

/-- A bracket, a bar or a comma needs nothing between it and what follows. -/
theorem SpellsPhrase.solo {c : Char} {token : Token} {b : List Char} {q : Phrase}
    (hb : SpellsPhrase b q) (h : soloToken c = some token) :
    SpellsPhrase (c :: b) ((Phrase.single token).before false q) := by
  intro gap more ws hmore hws
  exact Spells.word_behind gap (beginsToken_solo _ h) (scan_solo _ h) (hb false more ws hmore hws)

theorem SpellsPhrase.solo_blank {c : Char} {token : Token} {b : List Char} {q : Phrase}
    (hb : SpellsPhrase b q) (h : soloToken c = some token) :
    SpellsPhrase (c :: ' ' :: b) ((Phrase.single token).before true q) := by
  intro gap more ws hmore hws
  exact Spells.word_behind gap (beginsToken_solo _ h) (scan_solo _ h) (hb true more ws hmore hws)

/-! ## Names, variables and whole numbers -/

/-- The token that a name is written as. -/
def nameToken (name : String) : Token :=
  if needsQuotes name then .quotedName name else .name name

theorem beginsToken_of_ne {c : Char} (rest : List Char) (hblank : isBlank c = false)
    (h : c ∉ ['%', '/']) : BeginsToken c rest := by
  refine ⟨hblank, ?_, ?_⟩
  · rintro rfl
    exact h (by decide)
  · rintro ⟨rfl, _⟩
    exact h (by decide)

theorem beginsToken_symbol {c : Char} {tail more : List Char} (h : IsSymbolName c tail)
    (hmore : Delimited more) : BeginsToken c (tail ++ more) := by
  obtain ⟨_, _, _, hblank, hpercent⟩ :=
    symbol_classes c (mem_symbolChars (h.symbols c List.mem_cons_self))
  refine ⟨hblank, hpercent, ?_⟩
  rintro ⟨rfl, hstar⟩
  cases tail with
  | nil => exact hmore.not_head (by decide) hstar
  | cons d rest =>
    obtain rfl := Option.some.inj hstar
    exact Bool.noConfusion h.noComment

/-- The text of a name is one token before a delimiter. -/
theorem scan_atomChars {name : String} (hsquare : name ≠ "[]") (hcurly : name ≠ "\x7b\x7d") :
    ∃ c tail, atomChars name = c :: tail ∧ ∀ more, Delimited more →
      BeginsToken c (tail ++ more) ∧
        scan c (tail ++ more) = ⟨.ok (nameToken name), c :: tail, more⟩ := by
  unfold atomChars nameToken
  cases hq : needsQuotes name with
  | true =>
    rw [if_pos rfl, if_pos rfl]
    refine ⟨'\'', name.toList.flatMap escapeChar ++ ['\''], rfl, fun more hmore => ⟨?_, ?_⟩⟩
    · exact beginsToken_of_ne _ (by decide) (by decide)
    · rw [List.append_assoc]
      exact scan_quoted name hmore
  | false =>
    rw [if_neg Bool.false_ne_true, if_neg Bool.false_ne_true]
    rcases bare_cases hq with hbare | ⟨c, tail, hname, hc | hsymbol⟩
    · -- The two pairs of brackets are bare names as well, but not one token each.
      simp only [bareNames, List.mem_cons, List.not_mem_nil, or_false] at hbare
      rcases hbare with rfl | rfl | rfl | rfl
      · exact absurd rfl hsquare
      · exact absurd rfl hcurly
      · exact ⟨'!', [], rfl, fun more _ => ⟨beginsToken_solo more rfl, scan_solo more rfl⟩⟩
      · exact ⟨';', [], rfl, fun more _ => ⟨beginsToken_solo more rfl, scan_solo more rfl⟩⟩
    · refine ⟨c, tail, hname, fun more hmore => ⟨?_, ?_⟩⟩
      · exact beginsToken_of_ne _ (not_isBlank_of_isLowercase hc.1)
          (not_mem_of_class (p := isLowercase) (by decide) hc.1)
      · rw [scan_identifier hc.1 hc.2 hmore, ← hname, String.ofList_toList]
    · refine ⟨c, tail, hname, fun more hmore => ⟨beginsToken_symbol hsymbol hmore, ?_⟩⟩
      rw [scan_symbol hsymbol hmore, ← hname, String.ofList_toList]

theorem spells_atomChars {name : String} (hsquare : name ≠ "[]") (hcurly : name ≠ "\x7b\x7d") :
    SpellsPhrase (atomChars name) (.single (nameToken name)) := by
  obtain ⟨c, tail, hchars, hscan⟩ := scan_atomChars hsquare hcurly
  rw [hchars]
  exact spells_token hscan

theorem spells_variable {name : String} (h : IsVariableName name) :
    SpellsPhrase name.toList (.single (.var name)) := by
  obtain ⟨c, tail, hname, hc, htail⟩ := h
  rw [hname]
  refine spells_token fun more hmore => ⟨?_, ?_⟩
  · refine beginsToken_of_ne _ ?_ ?_
    · rcases hc with rfl | hc
      · decide
      · exact not_isBlank_of_isUppercase hc
    · have hclass : (c == '_' || isUppercase c) = true := by simpa using hc
      exact not_mem_of_class (p := fun d => d == '_' || isUppercase d) (by decide) hclass
  · rw [scan_variable hc htail hmore, ← hname, String.ofList_toList]

theorem not_isBlank_of_isDigit {c : Char} (h : isDigitIn 10 c = true) : isBlank c = false := by
  cases hb : isBlank c with
  | false => rfl
  | true =>
    have hapart : blanks.apart decimalDigits = true := by decide
    have hn := not_isDigit_of_apart hapart hb
    rw [h] at hn
    cases hn

theorem beginsToken_digit {c : Char} (rest : List Char) (h : isDigitIn 10 c = true) :
    BeginsToken c rest :=
  beginsToken_of_ne rest (not_isBlank_of_isDigit h)
    (not_mem_of_class (p := isDigitIn 10) (by decide) h)

/-- The phrase that a whole number is read from: a minus stands directly before
the digits. -/
def intPhrase : Int → Phrase
  | .ofNat n => .single (.integer n)
  | .negSucc n => (Phrase.single (.name "-")).before false (.single (.integer (n + 1)))

theorem spells_natChars {n : Nat} (hn : n ≤ maxInteger) :
    SpellsPhrase (Number.natChars n) (.single (.integer n)) := by
  cases hc : Number.natChars n with
  | nil => exact absurd hc (natChars_ne_nil n)
  | cons c tail =>
    have hdigit : isDigitIn 10 c = true := by
      refine isDigit_natChars n c ?_
      rw [hc]
      exact List.mem_cons_self
    exact spells_token fun more hmore => ⟨beginsToken_digit _ hdigit, scan_natural hn hc hmore⟩

theorem spells_intChars {i : Int} (hlow : -(maxInteger : Int) ≤ i) (hhigh : i ≤ maxInteger) :
    SpellsPhrase (Number.intChars i) (intPhrase i) := by
  cases i with
  | ofNat n => exact spells_natChars (Int.ofNat_le.mp hhigh)
  | negSucc n =>
    -- The minus does not stand before a delimiter but before a digit, so that it
    -- is no phrase for itself.
    intro gap more ws hmore hws
    have hn : n + 1 ≤ maxInteger := by omega
    have hbehind := spells_natChars hn false more ws hmore hws
    cases hc : Number.natChars (n + 1) with
    | nil => exact absurd hc (natChars_ne_nil (n + 1))
    | cons c tail =>
      rw [hc] at hbehind
      have hdigit : isDigitIn 10 c = true := by
        refine isDigit_natChars (n + 1) c ?_
        rw [hc]
        exact List.mem_cons_self
      show Spells (blankIf gap ++ '-' :: (Number.natChars (n + 1) ++ more)) _
      rw [hc]
      exact Spells.word_behind gap (beginsToken_of_ne _ (by decide) (by decide))
        (scan_minus _ hdigit) hbehind

end Text

end Clausal
