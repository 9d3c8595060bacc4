import Clausal.Reading.Document
import Clausal.Proofs.Reading.TwoPass
import Clausal.Proofs.Writing.Forms
import Clausal.Proofs.Writing.ReadBack
import Clausal.Proofs.Token.Spelling

/-
  Round trip — a written term is read back as itself

  A text is legible as a term when it spells a phrase that reads as the term.
  What is put together out of legible texts in one of the written forms is
  legible again. The brackets that are written are those that the priorities of
  the loop ask for: an operator's term stays open to what follows it up to the
  bound of its right argument, which lies below every operator that can take the
  term as its left argument.

  What is proved:
    1. `legible_chars` — a term that can be read back is legible, under any
       bound, with two levels for every node.
    2. `term_text` — reading what a term is written as gives the term and no
       diagnostic.
-/

namespace Clausal

open Reading Text

/-- The priority and the edge of a phrase that is closed or that ends in the
right argument of an operator. -/
def Tight (priority edge : Nat) : Prop :=
  priority = 0 ∧ edge = 0 ∨
    ∃ op : Operator, op.Listed ∧ priority = op.priority ∧ edge = op.rightMax

theorem Tight.edge_le {priority edge : Nat} (h : Tight priority edge) : edge ≤ priority := by
  rcases h with ⟨rfl, rfl⟩ | ⟨op, _, rfl, rfl⟩
  · exact Nat.le_refl 0
  · exact op.rightMax_le

/-- An operator that may stand behind a phrase is out of reach of its edge. -/
theorem Tight.edge_lt {priority edge : Nat} {op : Operator} (h : Tight priority edge)
    (hop : op.Listed) (hle : priority ≤ op.leftMax) : edge < op.priority := by
  rcases h with ⟨rfl, rfl⟩ | ⟨inner, hinner, rfl, rfl⟩
  · exact hop.priority_pos
  · exact Operator.rightMax_lt_of_le_leftMax hinner hop hle

/-- The text is read as the term wherever a term up to `max` may stand. -/
inductive Legible (cs : List Char) (t : Term) (max : Nat) (alone : Bool) (levels : Nat) : Prop where
  | of {p : Phrase} {priority edge : Nat} : SpellsPhrase cs p → p.first.startsTerm = true →
    ReadsAs p t priority edge alone levels → priority ≤ max → Tight priority edge →
    Legible cs t max alone levels

/-- The text is read as these terms with commas between them. -/
inductive LegibleAll (cs : List Char) (ts : List Term) (levels : Nat) : Prop where
  | of {p : Phrase} : SpellsPhrase cs p → p.first.startsTerm = true → ReadsAllAs p ts levels →
    LegibleAll cs ts levels

section

variable {cs as bs : List Char} {t u : Term} {max levels : Nat} {alone : Bool}

/-- A phrase of priority 0 may stand anywhere. -/
theorem legible_closed {p : Phrase} (hspells : SpellsPhrase cs p)
    (hstart : p.first.startsTerm = true) (hreads : ReadsAs p t 0 0 alone levels) :
    Legible cs t max alone levels :=
  .of hspells hstart hreads (Nat.zero_le max) (Or.inl ⟨rfl, rfl⟩)

theorem Legible.mono (h : Legible cs t max alone levels) {more : Nat} (hle : levels ≤ more) :
    Legible cs t max alone more := by
  obtain ⟨hspells, hstart, hreads, hfits, htight⟩ := h
  exact .of hspells hstart (hreads.mono hle) hfits htight

/-! ## Brackets around a text -/

theorem spells_between_solo (opening closing : Char) {p : Phrase} {first last : Token}
    (h : SpellsPhrase cs p) (hopening : soloToken opening = some first)
    (hclosing : soloToken closing = some last) (hdelimiter : closing ∈ delimiters) :
    SpellsPhrase (opening :: cs ++ [closing])
      ((Phrase.single first).before false (p.before false (.single last))) :=
  (h.append (spells_solo hclosing) rfl hdelimiter).solo hopening

theorem Legible.inBrackets (h : Legible cs t max alone levels) (hmax : max ≤ maxPriority)
    (bound : Nat) : Legible ('(' :: cs ++ [')']) t bound false (levels + 1) := by
  obtain ⟨hspells, _, hreads, hle, htight⟩ := h
  exact legible_closed (spells_between_solo '(' ')' hspells rfl rfl (by decide)) rfl
    (readsAs_bracketed hreads htight.edge_le (Nat.le_trans hle hmax))

/-- The term of an operator, in brackets where the bound does not allow it. -/
theorem legible_operator {p : Phrase} {op : Operator} (hop : op.Listed)
    (hspells : SpellsPhrase cs p) (hstart : p.first.startsTerm = true)
    (hreads : ReadsAs p t op.priority op.rightMax false levels) :
    Legible (Term.bracketed (max < op.priority) cs) t max false (levels + 1) := by
  have htight : Tight op.priority op.rightMax := Or.inr ⟨op, hop, rfl, rfl⟩
  unfold Term.bracketed
  split
  · have hopen : Legible cs t op.priority false levels :=
      .of hspells hstart hreads (Nat.le_refl _) htight
    exact hopen.inBrackets hop.priority_le max
  · rename_i hfits
    have hle : op.priority ≤ max := Nat.le_of_not_lt (by simpa using hfits)
    exact .of hspells hstart (hreads.mono (Nat.le_succ levels)) hle htight

/-! ## Leaves -/

theorem startsTerm_nameToken (name : String) : (nameToken name).startsTerm = true := by
  unfold nameToken
  split <;> rfl

theorem legible_atom (name : String) :
    Legible (atomChars name) (.atom name) max (Term.isOperatorAtom (.atom name)) levels := by
  by_cases hsquare : name = "[]"
  · subst hsquare
    have hspells : SpellsPhrase ['[', ']'] _ := (spells_solo rfl).solo rfl
    exact legible_closed hspells rfl readsAs_emptyList
  · by_cases hcurly : name = "\x7b\x7d"
    · subst hcurly
      have hspells : SpellsPhrase ['{', '}'] _ := (spells_solo rfl).solo rfl
      exact legible_closed hspells rfl readsAs_emptyCurly
    · exact legible_closed (spells_atomChars hsquare hcurly) (startsTerm_nameToken name)
        (readsAs_name name)

theorem legible_var {name : String} (h : IsVariableName name) :
    Legible name.toList (.var name) max false levels :=
  legible_closed (spells_variable h) rfl (readsAs_variable name)

theorem legible_integer {i : Int} (hlow : -(maxInteger : Int) ≤ i) (hhigh : i ≤ maxInteger) :
    Legible (Number.intChars i) (.integer i) max false levels := by
  refine legible_closed (spells_intChars hlow hhigh) ?_ (readsAs_int i)
  cases i <;> rfl

/-! ## Operators -/

theorem isOperatorAtom_compound (f : String) {args : List Term} (h : args ≠ []) :
    Term.isOperatorAtom (.compound f args) = false := by
  cases args with
  | nil => exact absurd rfl h
  | cons arg args => rfl

/-- An argument of an operator, in brackets when it is the name of an operator. -/
theorem legible_operand (hw : t.Writable) (hmax : max ≤ maxPriority) (hlevels : 0 < levels)
    (h : Legible (t.chars max) t max t.isOperatorAtom levels) :
    Legible (t.operandChars max) t max false levels := by
  unfold Term.operandChars Term.bracketed
  split
  · rename_i halone
    obtain ⟨levels, rfl⟩ : ∃ n, levels = n + 1 := ⟨levels - 1, by omega⟩
    cases hw with
    | atom name =>
      rw [Term.chars]
      exact (legible_atom name).inBrackets hmax max
    | var _ => cases halone
    | integer _ _ => cases halone
    | compound hne _ _ _ =>
      rw [isOperatorAtom_compound _ hne] at halone
      cases halone
  · rename_i halone
    rwa [Bool.eq_false_iff.mpr halone] at h

theorem spells_operatorName {f : String} (h : Operator.isName f = true) (hcomma : f ≠ ",") :
    SpellsPhrase (atomChars f) (.single (.name f)) := by
  obtain ⟨hsquare, hcurly⟩ := Operator.not_isName_brackets
  have hname : nameToken f = .name f := by
    rw [nameToken, Operator.needsQuotes_of_isName h hcomma, if_neg Bool.false_ne_true]
  rw [← hname]
  refine spells_atomChars ?_ ?_
  · rintro rfl
    rw [h] at hsquare
    cases hsquare
  · rintro rfl
    rw [h] at hcurly
    cases hcurly

theorem legible_before {f : String} {op : Operator} (hop : Operator.before? f = some op)
    (h : Legible bs t op.rightMax false levels) :
    Legible (Term.bracketed (max < op.priority) (atomChars f ++ ' ' :: bs)) (.compound f [t]) max
      false (levels + 2) := by
  obtain ⟨hspells, hstart, hreads, hle, htight⟩ := h
  have hcomma : f ≠ "," := by
    rintro rfl
    cases hop
  have hname := spells_operatorName (Operator.isName_of_find? hop) hcomma
  exact legible_operator (Operator.listed_of_find? hop) (hname.append_blank hspells) rfl
    (readsAs_before hop hreads htight.edge_le hle hstart)

/-- An operator between two texts is a comma or stands between blanks. -/
theorem spells_between {p q : Phrase} {f : String} {op : Operator}
    (hop : Operator.between? f = some op) (hcs : SpellsPhrase cs p) (hbs : SpellsPhrase bs q) :
    SpellsPhrase (cs ++ Term.betweenChars f ++ bs)
      (p.before (decide (f ≠ ",")) ((Phrase.single (operatorToken f)).before true q)) := by
  unfold Term.betweenChars operatorToken
  by_cases hcomma : f = ","
  · -- The comma is a token of its own and stands directly behind its left operand.
    subst hcomma
    have hcomma : SpellsPhrase (',' :: ' ' :: bs) _ := hbs.solo_blank rfl
    have h := hcs.append hcomma rfl (by decide)
    simpa using h
  · have hname := spells_operatorName (Operator.isName_of_find? hop) hcomma
    have h := hcs.append_blank (hname.append_blank hbs)
    simpa [hcomma] using h

theorem legible_between {f : String} {op : Operator} (hop : Operator.between? f = some op)
    (hleft : Legible cs t op.leftMax false levels)
    (hright : Legible bs u op.rightMax false levels) :
    Legible (Term.bracketed (max < op.priority) (cs ++ Term.betweenChars f ++ bs))
      (.compound f [t, u]) max false (levels + 1) := by
  obtain ⟨hcs, hstart, hleft, hleftMax, htight⟩ := hleft
  obtain ⟨hbs, _, hright, hrightMax, hedge⟩ := hright
  have hlisted := Operator.listed_of_find? hop
  refine legible_operator hlisted (spells_between hop hcs hbs) hstart ?_
  exact readsAs_between hop hleft hright hleftMax (htight.edge_lt hlisted hleftMax) hrightMax
    hedge.edge_le

/-! ## Arguments and elements -/

theorem legibleAll_arguments {args : List Term} (hne : args ≠ [])
    (h : ∀ t ∈ args,
      Legible (t.chars argumentPriority) t argumentPriority t.isOperatorAtom levels) :
    LegibleAll (Term.argumentChars args) args levels := by
  induction args with
  | nil => exact absurd rfl hne
  | cons arg args ih =>
    obtain ⟨hspells, hstart, hreads, hle, htight⟩ := h arg List.mem_cons_self
    cases args with
    | nil =>
      rw [Term.argumentChars]
      exact .of hspells hstart (readsAllAs_single hreads htight.edge_le hle)
    | cons next args =>
      obtain ⟨hothers, _, hreadsAll⟩ := ih (List.cons_ne_nil next args)
        fun t ht => h t (List.mem_cons_of_mem arg ht)
      rw [Term.argumentChars_cons]
      have hall := readsAllAs_cons hreads htight.edge_le hle hreadsAll
      exact .of (hspells.append (hothers.solo_blank (c := ',') rfl) rfl (by decide)) hstart hall

theorem legible_functional {f : String} {args : List Term} (hne : args ≠ []) (hsquare : f ≠ "[]")
    (hcurly : f ≠ "\x7b\x7d") (h : LegibleAll cs args levels) :
    Legible (atomChars f ++ '(' :: cs ++ [')']) (.compound f args) max false (levels + 1) := by
  obtain ⟨hspells, _, hreads⟩ := h
  have harguments := spells_between_solo '(' ')' hspells rfl rfl (by decide)
  have hall := (spells_atomChars hsquare hcurly).append harguments rfl (by decide)
  rw [List.append_assoc]
  exact legible_closed hall (startsTerm_nameToken f) (readsAs_compound hreads hne)

theorem legible_curly (h : Legible cs t maxPriority alone levels) :
    Legible ('{' :: cs ++ ['}']) (.compound "\x7b\x7d" [t]) max false (levels + 1) := by
  obtain ⟨hspells, hstart, hreads, hle, htight⟩ := h
  exact legible_closed (spells_between_solo '{' '}' hspells rfl rfl (by decide)) rfl
    (readsAs_curly hreads htight.edge_le hle hstart)

theorem eq_nil_of_isNil (h : t.isNil = true) : t = .nil := by
  cases t with
  | atom name =>
    rw [beq_iff_eq.mp (show (name == "[]") = true from h)]
    rfl
  | _ => cases h

theorem legible_list {ts : List Term} (h : LegibleAll cs ts levels)
    (hlast : Legible (t.chars argumentPriority) t argumentPriority alone levels) :
    Legible ('[' :: cs ++ Term.endChars t) (.listWithTail ts t) max false (levels + 1) := by
  obtain ⟨hspells, hstart, hreads⟩ := h
  unfold Term.endChars
  split
  · rename_i hnil
    rw [eq_nil_of_isNil hnil]
    exact legible_closed (spells_between_solo '[' ']' hspells rfl rfl (by decide)) rfl
      (readsAs_list hreads hstart)
  · obtain ⟨htail, _, hreadsTail, hle, htight⟩ := hlast
    have hbar := spells_between_solo '|' ']' htail rfl rfl (by decide)
    have hall := (hspells.append hbar rfl (by decide)).solo (c := '[') rfl
    rw [List.cons_append] at hall ⊢
    exact legible_closed hall rfl (readsAs_listWithTail hreads hstart hreadsTail htight.edge_le hle)

/-! ## All terms -/

/-- A compound of legible arguments is legible, whichever way it is written. It
takes one level for an argument in brackets and one for brackets around itself. -/
theorem legible_form {f : String} {args : List Term} (hform : Term.Form f args)
    (hsquare : f ≠ "[]") (hlevels : 0 < levels)
    (hargs : ∀ t ∈ args, t.Writable ∧
      ∀ max, Legible (t.chars max) t max t.isOperatorAtom levels) :
    Legible (Term.chars max (.compound f args)) (.compound f args) max false (levels + 2) := by
  have hoperand : ∀ t ∈ args, ∀ max ≤ maxPriority,
      Legible (t.operandChars max) t max false levels := by
    intro t ht max hmax
    obtain ⟨hwritable, hlegible⟩ := hargs t ht
    exact legible_operand hwritable hmax hlevels (hlegible max)
  cases hform with
  | curly arg =>
    rw [Term.chars_curly]
    have harg := (hargs arg (by simp)).2 maxPriority
    exact (legible_curly harg).mono (Nat.le_succ _)
  | before arg hf hop =>
    have hlisted := Operator.listed_of_find? hop
    have hright := Nat.le_trans (Operator.rightMax_le _) hlisted.priority_le
    rw [Term.chars_before max arg hf hop]
    exact legible_before hop (hoperand arg (by simp) _ hright)
  | between left right hf hop =>
    have hlisted := Operator.listed_of_find? hop
    have hleft := Nat.le_trans (Operator.leftMax_le _) hlisted.priority_le
    have hright := Nat.le_trans (Operator.rightMax_le _) hlisted.priority_le
    rw [Term.chars_between max left right hf hop]
    have hterm : Legible _ (.compound f [left, right]) max false (levels + 1) :=
      legible_between hop (hoperand left (by simp) _ hleft) (hoperand right (by simp) _ hright)
    exact hterm.mono (Nat.le_succ _)
  | functional hne hfun =>
    rw [Term.chars_functional max hne hfun]
    have hall := legibleAll_arguments hne fun t ht => (hargs t ht).2 argumentPriority
    exact (legible_functional hne hsquare hfun.1 hall).mono (Nat.le_succ _)

end

/-- A term that can be read back is legible with two levels for every node. -/
theorem legible_chars {t : Term} (h : t.Writable) (max : Nat) {levels : Nat}
    (hlevels : 2 * t.nodes ≤ levels + 1) :
    Legible (t.chars max) t max t.isOperatorAtom levels := by
  induction t using Term.indChains generalizing max levels with
  | atom name =>
    rw [Term.chars]
    exact legible_atom name
  | var name =>
    cases h with
    | var hname =>
      rw [Term.chars]
      exact legible_var hname
  | integer i =>
    cases h with
    | integer hlow hhigh =>
      rw [Term.chars]
      exact legible_integer hlow hhigh
  | float x => cases h
  | chain head heads last hend ih ihlast =>
    obtain ⟨hlast, hall⟩ := h.chain
    obtain ⟨hlastNodes, hnodes⟩ := Term.nodes_chain head heads last
    obtain ⟨levels, rfl⟩ : ∃ n, levels = n + 1 := ⟨levels - 1, by have := last.nodes_pos; omega⟩
    rw [Term.chars_chain max head heads hend]
    refine legible_list (legibleAll_arguments (List.cons_ne_nil head heads) fun t ht => ?_)
      (ihlast hlast argumentPriority (by omega))
    have := hnodes t ht
    exact ih t ht (hall t ht) argumentPriority (by omega)
  | compound f args hcell ih =>
    cases h with
    | compound hne hsquare hcurly hargs =>
      have hform := Term.form_cases hne hcurly hcell
      rw [isOperatorAtom_compound f hne]
      -- An argument is a node less, which leaves two levels less for it, but not none.
      obtain ⟨arg, harg⟩ := List.exists_mem_of_ne_nil args hne
      have hlt := Term.nodes_lt_of_mem (f := f) harg
      have hpos := arg.nodes_pos
      obtain ⟨n, rfl⟩ : ∃ n, levels = n + 2 := ⟨levels - 2, by omega⟩
      refine legible_form hform hsquare (by omega) fun t ht => ⟨hargs t ht, fun max => ?_⟩
      have hlt := Term.nodes_lt_of_mem (f := f) ht
      exact ih t ht (hargs t ht) max (by omega)

/-! ## Whole documents -/

namespace Document

/-- A document whose text was read without an error has no diagnostic yet. -/
theorem diagnosticsWith_nil {d : Document} (h : d.lexical = []) : d.diagnosticsWith [] = ∅ := by
  rw [diagnosticsWith, h]
  rfl

/-- A document that is read to its end as one term comes to that term; only the diagnostics
of its characters are left. -/
theorem term_of_reads {d : Document} {t : Term} {priority : Nat}
    (h : (d.reader .thorough).read maxPriority .term d.lexemes = .read (t, priority) [] none) :
    d.term = ⟨.ok (some ⟨t, d.stretch d.lexemes []⟩), d.diagnosticsWith []⟩ := by
  rw [term_eq_conclude, onePass, h]
  rfl

theorem term_of_read {d : Document} {t : Term} {priority : Nat} (hlexical : d.lexical = [])
    (h : (d.reader .thorough).read maxPriority .term d.lexemes = .read (t, priority) [] none) :
    d.term = ⟨.ok (some ⟨t, d.stretch d.lexemes []⟩), ∅⟩ := by
  rw [term_of_reads h, diagnosticsWith_nil hlexical]

/-- A legible text is read as its term, in both ways of reading, to its end. -/
theorem read_legible {t : Term} {alone : Bool} {levels : Nat}
    (h : Legible (t.chars maxPriority) t maxPriority alone levels) (origin : Place)
    (options : Options) (hdepth : levels < options.maxDepth) :
    let d := ofText t.text origin options
    d.lexical = [] ∧ ∃ priority, ∀ mode, (d.reader mode).read maxPriority .term d.lexemes =
      .read (t, priority) [] none := by
  intro d
  obtain @⟨p, priority, edge, hspells, _, hreads, hle, htight⟩ := h
  have htext : Spells t.text.toList (p.words false) := by
    rw [Term.text, String.toList_ofList]
    exact hspells.spells
  obtain ⟨hwords, herrors⟩ := tokenize_of_spells origin.position htext
  exact ⟨List.map_eq_nil_iff.mpr herrors, priority,
    fun _ => hreads.whole .term hdepth htight.edge_le hle hwords⟩

/-- What a term is written as is read as the term, in both ways of reading, to its end. -/
theorem read_text {t : Term} (h : t.Writable) (origin : Place) (options : Options)
    (hdepth : 2 * t.nodes + 1 ≤ options.maxDepth) :
    let d := ofText t.text origin options
    d.lexical = [] ∧ ∃ priority, ∀ mode, (d.reader mode).read maxPriority .term d.lexemes =
      .read (t, priority) [] none :=
  read_legible (legible_chars h maxPriority (Nat.le_succ _)) origin options hdepth

/-- Reading what a term is written as gives the term and no diagnostic. -/
theorem term_text {t : Term} (h : t.Writable) (origin : Place) (options : Options)
    (hdepth : 2 * t.nodes + 1 ≤ options.maxDepth) :
    let d := ofText t.text origin options
    d.term = ⟨.ok (some ⟨t, d.stretch d.lexemes []⟩), ∅⟩ := by
  intro d
  obtain ⟨hlexical, priority, hread⟩ := read_text h origin options hdepth
  exact term_of_read hlexical (hread .thorough)

/-- The operators of `- (:-) + [a|B]` need brackets, blanks and a list of their own. -/
theorem term_text_nested :
    let t : Term := .compound "+" [.compound "-" [.atom ":-"], .listWithTail [.atom "a"] (.var "B")]
    let d := ofText t.text .origin {}
    t.Writable ∧ 2 * t.nodes + 1 ≤ ({} : Options).maxDepth ∧
      d.term = ⟨.ok (some ⟨t, d.stretch d.lexemes []⟩), ∅⟩ := by
  intro t d
  have hvar : Text.IsVariableName "B" := ⟨'B', [], rfl, Or.inr (by decide +kernel), nofun⟩
  have hwritable : t.Writable := by
    refine .compound nofun (by decide) (by decide) ?_
    simp only [List.mem_cons, List.not_mem_nil, or_false, forall_eq_or_imp, forall_eq]
    refine ⟨.compound nofun (by decide) (by decide) ?_, .compound nofun (by decide) (by decide) ?_⟩
    · simp only [List.mem_cons, List.not_mem_nil, or_false, forall_eq]
      exact .atom ":-"
    · simp only [List.mem_cons, List.not_mem_nil, or_false, forall_eq_or_imp, forall_eq]
      exact ⟨.atom "a", .var hvar⟩
  have hdepth : 2 * t.nodes + 1 ≤ ({} : Options).maxDepth := by decide
  exact ⟨hwritable, hdepth, term_text hwritable .origin {} hdepth⟩

end Document

end Clausal
