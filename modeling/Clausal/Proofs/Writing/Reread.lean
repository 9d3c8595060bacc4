import Clausal.Proofs.Reading.Depth
import Clausal.Proofs.Reading.Image
import Clausal.Proofs.Writing.RoundTrip

/-
  Rereading — what a text is read as, written and read again

  A text can hold names that only quotes keep from being two brackets, and such a name
  can be a functor. Written, it stands without its quotes, and what is read then is the
  brackets and not the functor. These are all the terms that are not read back: in the
  text of a term no pair of brackets stands between quotes, so no compound that comes
  from one is read from it.

  What is proved:
    1. `bare_chars` — no quoted pair of brackets stands in the text of a term.
    2. `term_reread_iff` — a term that was read is read back from its text just when
       it is unambiguous.
    3. `term_reread_square` — one that is not.
-/

namespace Clausal

open Reading Text
open Term (Readable)

/-! ## Texts without quoted brackets -/

/-- The tokens of the phrase. -/
def Phrase.tokens (p : Phrase) : List Token := (p.words false).map Word.token

theorem Phrase.tokens_words (p : Phrase) (gap : Bool) : (p.words gap).map Word.token = p.tokens :=
  rfl

theorem Phrase.tokens_before (p q : Phrase) (gap : Bool) :
    (p.before gap q).tokens = p.tokens ++ q.tokens := by
  rw [tokens, words_before, List.map_append, tokens_words, tokens_words]

/-- The token is a pair of brackets between quotes. -/
def IsQuotedBrackets (token : Token) : Prop := ∃ name ∈ bracketNames, token = .quotedName name

/-- The text spells a phrase in which no pair of brackets stands between quotes. -/
inductive Bare (cs : List Char) : Prop where
  | of {p : Phrase} : SpellsPhrase cs p → (∀ token ∈ p.tokens, ¬ IsQuotedBrackets token) → Bare cs

section

variable {cs bs : List Char} {t : Term} {max : Nat}

theorem bare_single {token : Token} (h : SpellsPhrase cs (.single token))
    (htoken : ¬ IsQuotedBrackets token) : Bare cs :=
  .of h (List.forall_mem_singleton.mpr htoken)

theorem Bare.before {p q r : Phrase} {gap : Bool} (h : SpellsPhrase cs r)
    (hr : r.tokens = (p.before gap q).tokens) (hp : ∀ token ∈ p.tokens, ¬ IsQuotedBrackets token)
    (hq : ∀ token ∈ q.tokens, ¬ IsQuotedBrackets token) : Bare cs := by
  refine .of h ?_
  rw [hr, Phrase.tokens_before]
  exact List.forall_mem_append.mpr ⟨hp, hq⟩

theorem not_isQuotedBrackets {token : Token} (h : ∀ name, token ≠ .quotedName name) :
    ¬ IsQuotedBrackets token := by
  rintro ⟨name, _, heq⟩
  exact h name heq

theorem not_isQuotedBrackets_solo {c : Char} {token : Token} (h : soloToken c = some token) :
    ¬ IsQuotedBrackets token := by
  refine not_isQuotedBrackets ?_
  rintro name rfl
  unfold soloToken at h
  split at h <;> cases h

theorem bare_solo {c : Char} {token : Token} (h : soloToken c = some token) : Bare [c] :=
  bare_single (spells_solo h) (not_isQuotedBrackets_solo h)

theorem Bare.append {c : Char} (hcs : Bare cs) (hbs : Bare bs) (hhead : bs.head? = some c)
    (hc : c ∈ delimiters) : Bare (cs ++ bs) := by
  obtain ⟨hp, hptokens⟩ := hcs
  obtain ⟨hq, hqtokens⟩ := hbs
  exact .before (hp.append hq hhead hc) rfl hptokens hqtokens

theorem Bare.append_blank (hcs : Bare cs) (hbs : Bare bs) : Bare (cs ++ ' ' :: bs) := by
  obtain ⟨hp, hptokens⟩ := hcs
  obtain ⟨hq, hqtokens⟩ := hbs
  exact .before (hp.append_blank hq) rfl hptokens hqtokens

theorem Bare.solo {c : Char} {token : Token} (hbs : Bare bs) (h : soloToken c = some token) :
    Bare (c :: bs) := by
  obtain ⟨hq, hqtokens⟩ := hbs
  exact .before (hq.solo h) rfl (List.forall_mem_singleton.mpr (not_isQuotedBrackets_solo h))
    hqtokens

theorem Bare.solo_blank {c : Char} {token : Token} (hbs : Bare bs) (h : soloToken c = some token) :
    Bare (c :: ' ' :: bs) := by
  obtain ⟨hq, hqtokens⟩ := hbs
  exact .before (hq.solo_blank h) rfl (List.forall_mem_singleton.mpr (not_isQuotedBrackets_solo h))
    hqtokens

/-- Brackets around a text. -/
theorem Bare.between (opening closing : Char) {first last : Token} (h : Bare cs)
    (hopening : soloToken opening = some first) (hclosing : soloToken closing = some last)
    (hdelimiter : closing ∈ delimiters) : Bare (opening :: cs ++ [closing]) :=
  (h.append (bare_solo hclosing) rfl hdelimiter).solo hopening

theorem Bare.bracketed (h : Bare cs) (wanted : Bool) : Bare (Term.bracketed wanted cs) := by
  unfold Term.bracketed
  split
  · exact h.between '(' ')' rfl rfl (by decide)
  · exact h

/-! ## The text of a term -/

theorem bare_atomChars (name : String) : Bare (atomChars name) := by
  by_cases hsquare : name = "[]"
  · subst hsquare
    have hclose : Bare [']'] := bare_solo rfl
    exact hclose.solo (c := '[') rfl
  · by_cases hcurly : name = "\x7b\x7d"
    · subst hcurly
      have hclose : Bare ['}'] := bare_solo rfl
      exact hclose.solo (c := '{') rfl
    · refine bare_single (spells_atomChars hsquare hcurly) ?_
      rintro ⟨other, hmem, heq⟩
      unfold nameToken at heq
      split at heq
      · obtain rfl := Token.quotedName.inj heq
        simp only [bracketNames, List.mem_cons, List.not_mem_nil, or_false] at hmem
        exact hmem.elim hsquare hcurly
      · cases heq

theorem bare_intChars {i : Int} (hlow : -(maxInteger : Int) ≤ i) (hhigh : i ≤ maxInteger) :
    Bare (Number.intChars i) := by
  refine .of (spells_intChars hlow hhigh) ?_
  have hinteger : ∀ n, ¬ IsQuotedBrackets (.integer n) := fun n => not_isQuotedBrackets (by simp)
  cases i with
  | ofNat n => exact List.forall_mem_singleton.mpr (hinteger n)
  | negSucc n =>
    have hminus : ¬ IsQuotedBrackets (.name "-") := not_isQuotedBrackets (by simp)
    rw [intPhrase, Phrase.tokens_before]
    exact List.forall_mem_append.mpr ⟨List.forall_mem_singleton.mpr hminus,
      List.forall_mem_singleton.mpr (hinteger (n + 1))⟩

theorem bare_betweenChars (f : String) (hcs : Bare cs) (hbs : Bare bs) :
    Bare (cs ++ Term.betweenChars f ++ bs) := by
  unfold Term.betweenChars
  split
  · have hcomma : Bare (',' :: ' ' :: bs) := hbs.solo_blank rfl
    have h := hcs.append hcomma rfl (by decide)
    simpa using h
  · have h := hcs.append_blank ((bare_atomChars f).append_blank hbs)
    simpa using h

theorem bare_arguments {args : List Term} (hne : args ≠ [])
    (h : ∀ t ∈ args, Bare (t.chars argumentPriority)) : Bare (Term.argumentChars args) := by
  induction args with
  | nil => exact absurd rfl hne
  | cons arg args ih =>
    have harg := h arg List.mem_cons_self
    cases args with
    | nil =>
      rw [Term.argumentChars]
      exact harg
    | cons next args =>
      have hothers := ih (List.cons_ne_nil next args) fun t ht => h t (List.mem_cons_of_mem arg ht)
      rw [Term.argumentChars_cons]
      exact harg.append (hothers.solo_blank (c := ',') rfl) rfl (by decide)

theorem bare_functional (f : String) {args : List Term} (hne : args ≠ [])
    (h : ∀ t ∈ args, Bare (t.chars argumentPriority)) :
    Bare (atomChars f ++ '(' :: Term.argumentChars args ++ [')']) := by
  have harguments := (bare_arguments hne h).between '(' ')' rfl rfl (by decide)
  rw [List.append_assoc]
  exact (bare_atomChars f).append harguments rfl (by decide)

/-- A compound of bare arguments is bare, whichever way it is written. -/
theorem bare_form {f : String} {args : List Term} (hform : Term.Form f args)
    (h : ∀ t ∈ args, ∀ max, Bare (t.chars max)) : Bare (Term.chars max (.compound f args)) := by
  have hoperand : ∀ t ∈ args, ∀ max, Bare (t.operandChars max) := by
    intro t ht max
    rw [Term.operandChars]
    exact (h t ht max).bracketed _
  cases hform with
  | curly arg =>
    rw [Term.chars_curly]
    exact (h arg (by simp) _).between '{' '}' rfl rfl (by decide)
  | before arg hf hop =>
    rw [Term.chars_before max arg hf hop]
    exact ((bare_atomChars f).append_blank (hoperand arg (by simp) _)).bracketed _
  | between left right hf hop =>
    rw [Term.chars_between max left right hf hop]
    exact (bare_betweenChars f (hoperand left (by simp) _) (hoperand right (by simp) _)).bracketed _
  | functional hne hfun =>
    rw [Term.chars_functional max hne hfun]
    exact bare_functional f hne fun t ht => h t ht argumentPriority

theorem bare_list {heads : List Term} {last : Term} (hheads : Bare (Term.argumentChars heads))
    (hlast : Bare (last.chars argumentPriority)) :
    Bare ('[' :: Term.argumentChars heads ++ Term.endChars last) := by
  unfold Term.endChars
  split
  · exact hheads.between '[' ']' rfl rfl (by decide)
  · have hbar := hlast.between '|' ']' rfl rfl (by decide)
    have hall := (hheads.append hbar rfl (by decide)).solo (c := '[') rfl
    rwa [List.cons_append] at hall ⊢

end

/-- No quoted pair of brackets stands in the text of a term. -/
theorem bare_chars {F : String → List Term → Prop} {t : Term} (h : Readable F t ∧ t.FloatFree)
    (max : Nat) : Bare (t.chars max) := by
  have hargs : ∀ f us, Readable F (.compound f us) ∧ Term.FloatFree (.compound f us) →
      ∀ u ∈ us, Readable F u ∧ u.FloatFree :=
    fun _ _ h u hu => ⟨h.1.args u hu, Term.floatFree_compound.mp h.2 u hu⟩
  induction t using Term.indChains generalizing max with
  | atom name =>
    rw [Term.chars]
    exact bare_atomChars name
  | var name =>
    cases h.1 with
    | var hname =>
      rw [Term.chars]
      exact bare_single (spells_variable hname) (not_isQuotedBrackets (by simp))
  | integer i =>
    cases h.1 with
    | integer hlow hhigh =>
      rw [Term.chars]
      exact bare_intChars hlow hhigh
  | float x => exact absurd .whole (h.2 x)
  | chain head heads last hend ih ihlast =>
    obtain ⟨hlast, hheads⟩ := Term.chain_of_args (P := fun u => Readable F u ∧ u.FloatFree) hargs h
    rw [Term.chars_chain max head heads hend]
    exact bare_list (bare_arguments (List.cons_ne_nil head heads) fun u hu =>
      ih u hu (hheads u hu) argumentPriority) (ihlast hlast argumentPriority)
  | compound f args hcell ih =>
    have hall : ∀ u ∈ args, ∀ max, Bare (u.chars max) :=
      fun u hu max => ih u hu (hargs f args h u hu) max
    cases h.1 with
    | compound hne _ _ =>
      by_cases hcurly : f = "\x7b\x7d" → args.length = 1
      · exact bare_form (Term.form_cases hne hcurly hcell) hall
      · obtain ⟨rfl, hlength⟩ := Classical.not_imp.mp hcurly
        rw [Term.chars_curlyFunctional max hne hlength]
        exact bare_functional _ hne fun u hu => hall u hu argumentPriority

/-! ## Read, written and read again -/

namespace Document

variable {text : String} {origin : Place} {options : Options} {t : Term} {place : Place}

/-- An unambiguous term that was read is read back, under every limit that is no fault. -/
theorem term_reread_of_unambiguous
    (h : (ofText text origin options).term = ⟨.ok (some ⟨t, place⟩), ∅⟩) (hfloat : t.FloatFree)
    (hplain : t.Unambiguous) (again : Place) (options' : Options)
    (hfault : ∀ fault, (ofText t.text again options').term.result ≠ .error fault) :
    ∃ place', (ofText t.text again options').term = ⟨.ok (some ⟨t, place'⟩), ∅⟩ := by
  have hwritable := (readable_of_term_any h).writable hfloat hplain
  let high := Nat.max options'.maxDepth (2 * t.nodes + 1)
  have hhigh : options'.maxDepth ≤ high := Nat.le_max_left _ _
  have hdeeper := term_deeper hhigh hfault
  obtain ⟨hlexical, priority, hread⟩ := read_text hwritable again
    { options' with maxDepth := high } (Nat.le_max_right _ _)
  exact ⟨_, hdeeper.symm.trans (term_of_read hlexical (hread .thorough))⟩

/-- The text of a term is read as unambiguous terms only. -/
theorem unambiguous_of_reread
    (h : (ofText text origin options).term = ⟨.ok (some ⟨t, place⟩), ∅⟩) (hfloat : t.FloatFree)
    {again place' : Place} {options' : Options}
    (hagain : (ofText t.text again options').term = ⟨.ok (some ⟨t, place'⟩), ∅⟩) :
    t.Unambiguous := by
  obtain @⟨p, hspells, hbare⟩ := bare_chars ⟨readable_of_term_any h, hfloat⟩ maxPriority
  have htext : Spells t.text.toList (p.words false) := by
    rw [Term.text, String.toList_ofList]
    exact hspells.spells
  obtain ⟨hwords, _⟩ := tokenize_of_spells again.position htext
  refine (readable_of_term admits_unbracketed ?_ hagain).unambiguous
  intro l hl f hquoted
  have hmem : l.token ∈ p.tokens := by
    rw [Phrase.tokens, ← hwords, List.map_map]
    exact List.mem_map.mpr ⟨l, hl, rfl⟩
  exact Term.unbracketed_of_name fun hf => hbare _ hmem ⟨f, hf, hquoted⟩

/-- A term without floats that a text is read as without a diagnostic is read back from
its own text, without a diagnostic, just when every compound in it is told from others
by how it is written. Text, quotes, origin and limit of the second reading do not matter,
as long as the limit is no fault. -/
theorem term_reread_iff
    (h : (ofText text origin options).term = ⟨.ok (some ⟨t, place⟩), ∅⟩) (hfloat : t.FloatFree)
    (again : Place) (options' : Options)
    (hfault : ∀ fault, (ofText t.text again options').term.result ≠ .error fault) :
    (∃ place', (ofText t.text again options').term = ⟨.ok (some ⟨t, place'⟩), ∅⟩) ↔
      t.Unambiguous := by
  constructor
  · rintro ⟨place', hagain⟩
    exact unambiguous_of_reread h hfloat hagain
  · intro hplain
    exact term_reread_of_unambiguous h hfloat hplain again options' hfault

/-- In `- ['a'|{b}]` only the quotes are lost, for `{}` has one argument; the operator and the
list are read back with it. -/
theorem term_reread_iff_compound :
    let t : Term := .compound "-" [.listWithTail [.atom "a"] (.compound "\x7b\x7d" [.atom "b"])]
    (ofText "- ['a'|\x7bb\x7d]" .origin {}).term = ⟨.ok (some ⟨t, ⟨none, 1, 1, 0, 11⟩⟩), ∅⟩ ∧
      t.FloatFree ∧ t.text = "- [a|\x7bb\x7d]" ∧
      (∀ fault, (ofText t.text .origin {}).term.result ≠ .error fault) ∧ t.Unambiguous ∧
      ∃ place, (ofText t.text .origin {}).term = ⟨.ok (some ⟨t, place⟩), ∅⟩ := by
  intro t
  let quoted := ofText "- ['a'|\x7bb\x7d]" .origin {}
  have hop : Operator.before? "-" = some ⟨200, .fy⟩ := by decide
  have hatom : ReadsAs (.single (.name "b")) (.atom "b") 0 0 false 0 := readsAs_bareName "b"
  have hcurly := readsAs_curly hatom (by decide) (by decide) rfl
  have hlist := readsAs_listWithTail
    (readsAllAs_single (readsAs_quotedName "a" false) (by decide) (by decide)) rfl hcurly
    (by decide) (by decide)
  have hminus := readsAs_before hop hlist (by decide) (by decide) rfl
  have hwords : quoted.lexemes.map Lexeme.word = [⟨false, .name "-"⟩, ⟨true, .openSquare⟩,
      ⟨false, .quotedName "a"⟩, ⟨false, .bar⟩, ⟨false, .openCurly⟩, ⟨false, .name "b"⟩,
      ⟨false, .closeCurly⟩, ⟨false, .closeSquare⟩] := by decide +kernel
  have hfirst : quoted.term = ⟨.ok (some ⟨t, ⟨none, 1, 1, 0, 11⟩⟩), ∅⟩ := by
    have hread : (quoted.reader .thorough).read maxPriority .term quoted.lexemes =
        .read (t, 200) [] none :=
      hminus.whole .term (by decide) (by decide) (by decide) hwords
    have hplace : quoted.stretch quoted.lexemes [] = ⟨none, 1, 1, 0, 11⟩ := by decide +kernel
    rw [term_of_read (by decide +kernel) hread, hplace]
  have hfloat : t.FloatFree := by simp [t, Term.listWithTail, Term.cons]
  have hplain : t.Unambiguous := by
    simp [t, Term.listWithTail, Term.cons, Term.consName, Term.Unbracketed]
  have htext : t.text = "- [a|\x7bb\x7d]" := by
    have hlast : (Term.compound "\x7b\x7d" [.atom "b"]).uncons? = none := by decide
    rw [Term.text, Term.chars_before _ _ (by decide) hop, Term.operandChars,
      Term.chars_chain _ _ _ hlast, Term.endChars, Term.chars_curly, Term.argumentChars,
      Term.chars, Term.chars]
    decide +kernel
  have hfault : ∀ fault, (ofText t.text .origin {}).term.result ≠ .error fault := by
    have hwritable := (readable_of_term_any hfirst).writable hfloat hplain
    intro fault hresult
    rw [term_text hwritable .origin {} (by decide)] at hresult
    cases hresult
  exact ⟨hfirst, hfloat, htext, hfault, hplain,
    (term_reread_iff hfirst hfloat .origin {} hfault).mpr hplain⟩

/-- The functor of `'[]'(a)` is written without its quotes, and then the empty list is read
and the rest is spurious. -/
theorem term_reread_square :
    let t : Term := .compound "[]" [.atom "a"]
    (ofText "'[]'(a)" .origin {}).term = ⟨.ok (some ⟨t, ⟨none, 1, 1, 0, 7⟩⟩), ∅⟩ ∧
      t.FloatFree ∧ t.text = "[](a)" ∧
      (ofText t.text .origin {}).term = ⟨.ok (some ⟨.nil, ⟨none, 1, 1, 0, 2⟩⟩),
        .ofList [⟨spuriousInput, ⟨none, 1, 3, 2, 5⟩⟩]⟩ := by
  intro t
  let quoted := ofText "'[]'(a)" .origin {}
  let bare := ofText "[](a)" .origin {}
  have hquoted : quoted.lexemes = [⟨.quotedName "[]", ⟨1, 1, 0, 4⟩, false⟩,
      ⟨.openRound, ⟨1, 5, 4, 5⟩, false⟩, ⟨.name "a", ⟨1, 6, 5, 6⟩, false⟩,
      ⟨.closeRound, ⟨1, 7, 6, 7⟩, false⟩] := by decide +kernel
  have hbare : bare.lexemes = [⟨.openSquare, ⟨1, 1, 0, 1⟩, false⟩,
      ⟨.closeSquare, ⟨1, 2, 1, 2⟩, false⟩, ⟨.openRound, ⟨1, 3, 2, 3⟩, false⟩,
      ⟨.name "a", ⟨1, 4, 3, 4⟩, false⟩, ⟨.closeRound, ⟨1, 5, 4, 5⟩, false⟩] := by decide +kernel
  have htext : t.text = "[](a)" := by
    have hchars : t.chars maxPriority = "[](a)".toList := by
      rw [Term.chars_functional _ (by simp) ⟨by decide, rfl, by decide⟩]
      simp only [Term.argumentChars, Term.chars]
      decide
    rw [Term.text, hchars, String.ofList_toList]
  have hfirst : quoted.term = ⟨.ok (some ⟨t, ⟨none, 1, 1, 0, 7⟩⟩), ∅⟩ := by
    have hread : (quoted.reader .thorough).read maxPriority .term quoted.lexemes =
        .read (t, 0) [] none := by
      have hatom : ReadsAs (.single (.name "a")) (.atom "a") 0 0 false 0 := readsAs_bareName "a"
      have harguments := readsAllAs_single hatom (by decide) (by decide)
      rw [hquoted]
      exact (readsAs_functor (.inr rfl) harguments (List.cons_ne_nil _ _)).whole .term (by decide)
        (by decide) (by decide) rfl
    rw [term_of_read (by decide +kernel) hread, hquoted]
    rfl
  have hagain : bare.term = ⟨.ok (some ⟨.nil, ⟨none, 1, 1, 0, 2⟩⟩),
      .ofList [⟨spuriousInput, ⟨none, 1, 3, 2, 5⟩⟩]⟩ := by
    have hread : (bare.reader .thorough).read maxPriority .term bare.lexemes =
        .read (.nil, 0) (bare.lexemes.drop 2) none := by
      rw [hbare]
      exact terms_read (start_of_primary [] rfl) rfl
    have hlexical : bare.lexical = [] := by decide +kernel
    have heof : bare.eof = ⟨.endOfText, ⟨1, 6, 5, 5⟩, false⟩ := by decide +kernel
    have hpass : bare.onePass (fun t place => .ok (⟨t, place⟩ : Located Term)) .thorough =
        .finished (some ⟨.nil, ⟨none, 1, 1, 0, 2⟩⟩) (bare.lexemes.drop 2) [] := by
      rw [onePass, hread, hbare]
      rfl
    rw [term_eq_conclude, hpass, conclude, diagnosticsWith, hlexical, spurious, hbare, heof]
    rfl
  have hfloat : t.FloatFree := by simp [t]
  exact ⟨hfirst, hfloat, htext, by rw [htext]; exact hagain⟩

end Document

end Clausal
