import Clausal.Proofs.Reading.Sound
import Clausal.Proofs.Reading.Segments
import Clausal.Proofs.Writing.RoundTrip

/-
  Listings — clauses written one after the other and read again

  In a listing every clause stands on a line of its own, with a blank and the end
  token behind it. The blank keeps the end token apart from a clause that ends in a
  symbol, the line end keeps it from running into the next clause. So the words of a
  listing fall into one segment for each clause, and a segment is read as the clause
  that it was written for.

  What is proved:
    1. `spells_listing` — the words of a listing.
    2. `verdicts_listing` — what is made of its segments.
    3. `program_listing` — a listing is read as the clauses it was written for.
-/

namespace Clausal

open Reading Text

/-- The clause on a line of its own. -/
def Clause.line (c : Clause) : String := c.text ++ " .\n"

/-- The clauses one after the other. -/
def listing (clauses : List Clause) : String := String.join (clauses.map Clause.line)

theorem listing_cons (c : Clause) (clauses : List Clause) :
    (listing (c :: clauses)).toList =
      c.term.chars maxPriority ++ ' ' :: '.' :: '\n' :: (listing clauses).toList := by
  simp [listing, Clause.line, Clause.text, Term.text]

/-! ## The words of a listing -/

/-- The words with a blank before the first of them. -/
def behindBlank : List Word → List Word
  | [] => []
  | w :: ws => ⟨true, w.token⟩ :: ws

/-- A line end before a text is a blank before its first word. -/
theorem Text.Spells.behind_line {cs : List Char} {ws : List Word} (h : Spells cs ws) :
    Spells ('\n' :: cs) (behindBlank ws) := by
  have hlayout : layout ('\n' :: cs) = (layout cs).behind ['\n'] := by
    rw [layout, if_pos (by decide)]
  cases h with
  | done hclosed hend => exact .done (by rw [hlayout]; exact hclosed) (by rw [hlayout]; exact hend)
  | word hclosed hrest hscan hmore =>
    have hword : Spells ('\n' :: cs) _ := .word (by rw [hlayout]; exact hclosed)
      (by rw [hlayout]; exact hrest) hscan hmore
    rw [hlayout] at hword
    exact hword

theorem scan_stop (more : List Char) :
    scan '.' ('\n' :: more) = ⟨.ok .stop, ['.'], '\n' :: more⟩ := by
  rw [scan_of_not_special _ (by decide)]
  rfl

/-- The words are those of the clauses: a phrase that is read as the term, and the end
token. -/
inductive ListedAs : List Clause → List Word → Prop where
  | nil : ListedAs [] []
  | cons {c : Clause} {clauses : List Clause} {p : Phrase} {priority edge : Nat} {gap : Bool}
    {ws : List Word} :
    ReadsAs p c.term priority edge c.term.isOperatorAtom (2 * c.term.nodes) →
    priority ≤ maxPriority → edge ≤ priority → ListedAs clauses ws →
    ListedAs (c :: clauses) (p.words gap ++ ⟨true, .stop⟩ :: ws)

theorem ListedAs.behindBlank {clauses : List Clause} {ws : List Word} (h : ListedAs clauses ws) :
    ListedAs clauses (behindBlank ws) := by
  cases h with
  | nil => exact .nil
  | cons hreads hmax hedge hothers => exact .cons hreads hmax hedge hothers

theorem spells_listing {clauses : List Clause} (h : ∀ c ∈ clauses, c.term.Writable) :
    ∃ ws, Spells (listing clauses).toList ws ∧ ListedAs clauses ws := by
  induction clauses with
  | nil => exact ⟨[], spells_nil, .nil⟩
  | cons c clauses ih =>
    obtain ⟨ws, hspells, hlisted⟩ := ih fun c hc => h c (List.mem_cons_of_mem _ hc)
    have hlegible : Legible (c.term.chars maxPriority) c.term maxPriority c.term.isOperatorAtom
        (2 * c.term.nodes) := legible_chars (h c List.mem_cons_self) maxPriority (Nat.le_succ _)
    obtain @⟨p, priority, edge, hphrase, _, hreads, hmax, htight⟩ := hlegible
    have hstop : Spells (' ' :: '.' :: '\n' :: (listing clauses).toList)
        (⟨true, .stop⟩ :: Clausal.behindBlank ws) :=
      Spells.word_behind true (beginsToken_of_ne _ (by decide) (by decide)) (scan_stop _)
        hspells.behind_line
    rw [listing_cons]
    refine ⟨_, hphrase false _ _ (delimited_cons (by decide)) hstop, ?_⟩
    exact .cons hreads hmax htight.edge_le hlisted.behindBlank

/-! ## Reading a listing -/

namespace Document

variable {d : Document}

/-- What is read before an end token has no end token in it. -/
theorem inClause_of_read {mode : Mode} {max priority : Nat} {rule : Rule} {t : Term}
    {front more : List Lexeme} {a : Option Miss}
    (h : (d.reader mode).read max rule (front ++ more) = .read (t, priority) more a) :
    ∀ l ∈ front, InClause l := by
  have htook : Outcome.Took _ (front ++ more) ((d.reader mode).read max rule (front ++ more)) :=
    terms_took d.options.quotes mode d.options.maxDepth max rule (front ++ more)
  rw [h] at htook
  obtain ⟨run, hrun, hderives⟩ := htook
  obtain rfl := List.append_cancel_right hrun
  exact hderives.inside_clause

/-- A clause of a listing is read from its segment. -/
theorem verdict_listed {c : Clause} {p : Phrase} {priority edge : Nat} {gap : Bool}
    {front : List Lexeme} {stop : Lexeme}
    (hreads : ReadsAs p c.term priority edge c.term.isOperatorAtom (2 * c.term.nodes))
    (hmax : priority ≤ maxPriority) (hedge : edge ≤ priority)
    (hfront : front.map Lexeme.word = p.words gap) (hstop : stop.token = .stop)
    (haccepted : checkClause c.term = .ok ()) (hdepth : 2 * c.term.nodes + 1 ≤ d.options.maxDepth) :
    (∀ l ∈ front, l.token ≠ .stop) ∧
      ∃ place, d.verdict .program Clause.ofTerm (front ++ [stop]) = .value ⟨c.term, place⟩ := by
  have hpeek : peek [stop] = .stop := hstop
  have hfollows : Follows maxPriority c.term.isOperatorAtom (peek [stop]) := by
    rw [hpeek]
    exact follows_terminator rfl rfl
  have hread : (d.reader .thorough).read maxPriority .program (front ++ [stop]) =
      .read (c.term, priority) [stop] none := hreads.term .program hdepth hedge hmax hfront hfollows
  have hclause : d.clause .thorough .program (front ++ [stop]) = .read c.term [] none := by
    rw [clause, hread, Outcome.andThen_read, expect_read _ hpeek]
    rfl
  refine ⟨fun l hl => (inClause_of_read hread l hl).1, d.stretch (front ++ [stop]) [], ?_⟩
  simp only [verdict, hclause, Clause.ofTerm, haccepted]
  rfl

/-- The segments of a listing are the clauses it was written for. -/
theorem verdicts_listing {clauses : List Clause} {ws : List Word} {toks : List Lexeme}
    (h : ListedAs clauses ws) (htoks : toks.map Lexeme.word = ws)
    (haccepted : ∀ c ∈ clauses, checkClause c.term = .ok ())
    (hdepth : ∀ c ∈ clauses, 2 * c.term.nodes + 1 ≤ d.options.maxDepth) :
    ∃ reloaded : List Clause, reloaded.map Clause.term = clauses.map Clause.term ∧
      d.verdicts .program Clause.ofTerm toks = reloaded.map .value := by
  induction h generalizing toks with
  | nil =>
    obtain rfl := lexemes_nil htoks
    exact ⟨[], rfl, rfl⟩
  | @cons c clauses p priority edge gap ws hreads hmax hedge _ ih =>
    obtain ⟨front, behind, rfl, hfront, hbehind⟩ := lexemes_append htoks
    obtain ⟨stop, more, rfl, hstop, _, hmore⟩ := lexemes_cons hbehind
    obtain ⟨hinside, place, hverdict⟩ := verdict_listed hreads hmax hedge hfront hstop
      (haccepted c List.mem_cons_self) (hdepth c List.mem_cons_self)
    obtain ⟨reloaded, hterms, hverdicts⟩ := ih hmore
      (fun c hc => haccepted c (List.mem_cons_of_mem _ hc))
      fun c hc => hdepth c (List.mem_cons_of_mem _ hc)
    refine ⟨⟨c.term, place⟩ :: reloaded, by simp [hterms], ?_⟩
    rw [verdicts, segments_clause hinside hstop, List.map_cons, hverdict, List.map_cons,
      ← hverdicts, verdicts]

/-- Clauses that are legal and can be written are read back from their listing, in
their order and without a diagnostic. -/
theorem program_listing {clauses : List Clause}
    (haccepted : ∀ c ∈ clauses, Clause.ofTerm c.term c.place = .ok c)
    (hwritable : ∀ c ∈ clauses, c.term.Writable) (origin : Place) (options : Options)
    (hdepth : ∀ c ∈ clauses, 2 * c.term.nodes + 1 ≤ options.maxDepth) :
    ∃ reloaded : List Clause, reloaded.map Clause.term = clauses.map Clause.term ∧
      (ofText (listing clauses) origin options).program = ⟨.ok reloaded, ∅⟩ := by
  let d := ofText (listing clauses) origin options
  obtain ⟨ws, hspells, hlisted⟩ := spells_listing hwritable
  obtain ⟨hwords, herrors⟩ := tokenize_of_spells origin.position hspells
  have hlexical : d.lexical = [] := List.map_eq_nil_iff.mpr herrors
  have hchecked : ∀ c ∈ clauses, checkClause c.term = .ok () := by
    intro c hc
    have h := haccepted c hc
    unfold Clause.ofTerm at h
    cases hcheck : checkClause c.term with
    | ok _ => rfl
    | error e =>
      rw [hcheck] at h
      cases h
  obtain ⟨reloaded, hterms, hverdicts⟩ : ∃ reloaded : List Clause,
      reloaded.map Clause.term = clauses.map Clause.term ∧
        d.verdicts .program Clause.ofTerm d.lexemes = reloaded.map .value :=
    verdicts_listing hlisted hwords hchecked hdepth
  refine ⟨reloaded, hterms, ?_⟩
  have hvalues : (d.verdicts .program Clause.ofTerm d.lexemes).filterMap Verdict.value? =
      reloaded := by
    rw [hverdicts, List.filterMap_map]
    exact List.filterMap_some
  have hdiagnostics : (d.verdicts .program Clause.ofTerm d.lexemes).filterMap
      Verdict.diagnostic? = [] := by
    rw [hverdicts, List.filterMap_map]
    exact List.filterMap_eq_nil_iff.mpr fun _ _ => rfl
  rcases d.clauseList_verdicts .program Clause.ofTerm with ⟨hdeep, _⟩ | ⟨_, hread⟩
  · rw [hverdicts] at hdeep
    simp at hdeep
  · rw [program_eq, hread, hvalues, hdiagnostics, diagnosticsWith_nil hlexical]

/-- `likes('Mary', X) .` and `quiet :- ... .`, a rule that ends in a symbol. -/
theorem program_listing_rule :
    let clauses : List Clause := [⟨.compound "likes" [.atom "Mary", .var "X"], .origin⟩,
      ⟨.compound ":-" [.atom "quiet", .atom "..."], .origin⟩]
    (∀ c ∈ clauses, Clause.ofTerm c.term c.place = .ok c) ∧ (∀ c ∈ clauses, c.term.Writable) ∧
      ∃ reloaded : List Clause, reloaded.map Clause.term = clauses.map Clause.term ∧
        (ofText (listing clauses) .origin {}).program = ⟨.ok reloaded, ∅⟩ := by
  intro clauses
  have haccepted : ∀ c ∈ clauses, Clause.ofTerm c.term c.place = .ok c := by decide +kernel
  have hdepth : ∀ c ∈ clauses, 2 * c.term.nodes + 1 ≤ ({} : Options).maxDepth := by decide
  have hvar : IsVariableName "X" := ⟨'X', [], rfl, Or.inr (by decide +kernel), nofun⟩
  have hwritable : ∀ c ∈ clauses, c.term.Writable := by
    simp only [clauses, List.mem_cons, List.not_mem_nil, or_false, forall_eq_or_imp, forall_eq]
    refine ⟨.compound nofun (by decide) (by decide) ?_, .compound nofun (by decide) (by decide) ?_⟩
    · simp only [List.mem_cons, List.not_mem_nil, or_false, forall_eq_or_imp, forall_eq]
      exact ⟨.atom "Mary", .var hvar⟩
    · simp only [List.mem_cons, List.not_mem_nil, or_false, forall_eq_or_imp, forall_eq]
      exact ⟨.atom "quiet", .atom "..."⟩
  exact ⟨haccepted, hwritable, program_listing haccepted hwritable .origin {} hdepth⟩

end Document

end Clausal
