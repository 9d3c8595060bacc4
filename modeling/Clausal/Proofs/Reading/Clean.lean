import Clausal.Proofs.Reading.Pieces
import Clausal.Proofs.Reading.Sound
import Clausal.Proofs.Term.Equality

/-
  Clean readings — no diagnostic is left just when all was read and accepted

  A reading that leaves no diagnostic met no character that is no token, read
  every lexeme of its document, and its terms are legal for the kind of document;
  and a reading of which that holds leaves none. The thorough pass decides, for
  the fast one comes to the same wherever it counts.

  What is proved:
    1. `onePass_whole`, `termsPass_whole`, `variablePass_whole` — a pass that
       comes to the end without a diagnostic has read the whole document.
    2. `clauseList_clean` — so has one over a list of clauses, segment by segment.
    3. `diagnostics_eq_empty_iff` — readings of every kind, after any other.
-/

namespace Clausal

namespace Outcome

variable {α β : Type} {o : Outcome α}

/-! ## Outcomes that are values -/

theorem map_eq_read {f : α → β} {w : β} {rest : List Lexeme} {a : Option Miss}
    (h : o.map f = .read w rest a) : ∃ v, o = .read v rest a ∧ f v = w := by
  cases o with
  | read v last b =>
    cases h
    exact ⟨v, rfl, rfl⟩
  | miss m b => cases h
  | tooDeep last => cases h

theorem andThen_eq_read {next : α → List Lexeme → Outcome β} {w : β} {last : List Lexeme}
    {a : Option Miss} (h : o.andThen next = .read w last a) :
    ∃ v rest b c, o = .read v rest b ∧ next v rest = .read w last c := by
  cases o with
  | read v rest b =>
    rw [andThen] at h
    cases hnext : next v rest with
    | read u more c =>
      rw [hnext] at h
      cases h
      exact ⟨v, rest, b, c, rfl, hnext⟩
    | miss m c =>
      rw [hnext] at h
      cases h
    | tooDeep more =>
      rw [hnext] at h
      cases h
  | miss m b => cases h
  | tooDeep rest => cases h

end Outcome

theorem expect_eq_read {token : Token} {expected : Expected} {toks rest : List Lexeme}
    {a : Option Miss} (h : expect token expected toks = .read () rest a) :
    peek toks = token ∧ rest = toks.tail := by
  unfold expect at h
  split at h
  · rename_i hpeek
    cases h
    exact ⟨hpeek, rfl⟩
  · cases h

/-! ## Sets without a diagnostic -/

namespace DiagnosticSet

theorem ofList_eq_empty_iff {ds : List Diagnostic} : ofList ds = ∅ ↔ ds = [] := by
  constructor
  · intro h
    refine List.eq_nil_iff_forall_not_mem.mpr fun e he => ?_
    have hmem : e ∈ ofList ds := mem_ofList.mpr he
    rw [h] at hmem
    exact List.not_mem_nil hmem
  · rintro rfl
    rfl

end DiagnosticSet

namespace Document

variable {α β : Type} {d : Document}

theorem diagnosticsWith_eq_empty_iff {found : List Diagnostic} :
    d.diagnosticsWith found = ∅ ↔ d.lexical = [] ∧ found = [] := by
  rw [diagnosticsWith, DiagnosticSet.ofList_eq_empty_iff, List.append_eq_nil_iff]

theorem spurious_eq_nil_iff {rest : List Lexeme} : d.spurious rest = [] ↔ rest = [] := by
  unfold spurious
  split <;> simp_all

/-- What the thorough pass comes to is clean when it met nothing on its way and
left nothing. -/
theorem conclude_clean {pass : Pass α} {f : Option α → β} {r : β}
    (h : ((d.conclude pass).map f).result = .ok r) :
    ((d.conclude pass).map f).diagnostics = ∅ ↔
      d.lexical = [] ∧ ∃ v, pass = .finished v [] [] ∧ r = f (some v) := by
  cases pass with
  | finished v rest found =>
    have hr : f (some v) = r := Except.ok.inj h
    show d.diagnosticsWith (found ++ d.spurious rest) = ∅ ↔ _
    rw [diagnosticsWith_eq_empty_iff, List.append_eq_nil_iff, spurious_eq_nil_iff]
    simp only [Pass.finished.injEq]
    constructor
    · rintro ⟨hlexical, rfl, rfl⟩
      exact ⟨hlexical, v, ⟨rfl, rfl, rfl⟩, hr.symm⟩
    · rintro ⟨hlexical, _, ⟨_, hrest, hfound⟩, _⟩
      exact ⟨hlexical, hfound, hrest⟩
  | missed m a =>
    show d.diagnosticsWith [d.report m a] = ∅ ↔ _
    simp [diagnosticsWith_eq_empty_iff]
  | tooDeep rest found => cases h

/-! ## Documents read as a whole -/

/-- In one of the two ways of reading the lexemes are read as the term, as far as
`rest`. -/
def Reads (d : Document) (max : Nat) (rule : Rule) (toks : List Lexeme) (t : Term)
    (rest : List Lexeme) : Prop :=
  ∃ mode priority a, (d.reader mode).read max rule toks = .read (t, priority) rest a

/-- The document is one term, an end token behind it or not, that is accepted as the
value. -/
def IsOne (d : Document) (classify : Term → Place → Except ClauseError α) (v : α) : Prop :=
  ∃ t rest, d.Reads maxPriority .term d.lexemes t rest ∧ skipStop rest = [] ∧
    classify t (d.stretch d.lexemes []) = .ok v

/-- The lexemes are these terms with commas between them, an end token behind the last
one or not. -/
inductive AreTerms (d : Document) : List Lexeme → List (Located Term) → Prop where
  | last {toks rest : List Lexeme} {t : Term} : d.Reads argumentPriority .terms toks t rest →
    skipStop rest = [] → AreTerms d toks [⟨t, d.stretch toks rest⟩]
  | more {toks rest : List Lexeme} {t : Term} {ts : List (Located Term)} :
    d.Reads argumentPriority .terms toks t rest → peek rest = .comma → AreTerms d rest.tail ts →
    AreTerms d toks (⟨t, d.stretch toks rest⟩ :: ts)

/-- The document is these terms, or none of them and empty. -/
def IsTerms (d : Document) (ts : List (Located Term)) : Prop :=
  d.lexemes = [] ∧ ts = [] ∨ d.AreTerms d.lexemes ts

/-- The document is a variable and nothing else. -/
def IsVariable (d : Document) (v : Located Term) : Prop :=
  ∃ l name, d.lexemes = [l] ∧ l.token = .var name ∧ v = ⟨.var name, .ofSpan d.file l.span⟩

/-- The lexemes are a term and its end token, and the term is accepted as the value. -/
def IsClause (d : Document) (rule : Rule) (classify : Term → Place → Except ClauseError α)
    (toks : List Lexeme) (v : α) : Prop :=
  ∃ t stop, d.Reads maxPriority rule toks t [stop] ∧ stop.token = .stop ∧
    classify t (d.stretch toks []) = .ok v

/-- Every segment of the document is a clause, and they are accepted as these values. -/
def AreClauses (d : Document) (rule : Rule) (classify : Term → Place → Except ClauseError α)
    (vs : List α) : Prop :=
  List.Forall₂ (d.IsClause rule classify) (segments d.lexemes) vs

/-- A term before something plausible is what the thorough way reads. -/
theorem Reads.thorough {max : Nat} {rule : Rule} {toks rest : List Lexeme} {t : Term}
    (h : d.Reads max rule toks t rest) (hrest : Plausible rest) :
    ∃ priority a, (d.reader .thorough).read max rule toks = .read (t, priority) rest a := by
  obtain ⟨mode, priority, a, hread⟩ := h
  cases mode with
  | thorough => exact ⟨priority, a, hread⟩
  | fast =>
    have hsettled : ((d.reader .fast).read max rule toks).Settled Plausible := by
      rw [hread]
      exact hrest
    exact ⟨priority, a, (d.reader_agrees _ _ _ hsettled).trans hread⟩

/-! ## Passes that come to the end -/

theorem onePass_whole {classify : Term → Place → Except ClauseError α} {v : Option α} :
    d.onePass classify .thorough = .finished v [] [] ↔
      ∃ w, v = some w ∧ d.IsOne classify w := by
  constructor
  · intro h
    unfold onePass at h
    split at h
    · rename_i t priority rest a hread
      simp only at h
      split at h
      · rename_i w hclassify
        obtain ⟨hv, hrest, _⟩ := Pass.finished.inj h
        rw [hrest] at hclassify
        exact ⟨w, hv.symm, t, rest, ⟨.thorough, priority, a, hread⟩, hrest, hclassify⟩
      · cases (Pass.finished.inj h).2.2
    · cases h
    · cases h
  · rintro ⟨w, rfl, t, rest, hreads, hrest, hclassify⟩
    obtain ⟨priority, a, hread⟩ := hreads.thorough (plausible_of_skipStop hrest)
    simp only [onePass, hread, hrest, hclassify]

theorem areTerms_of_commaSeparated (toks : List Lexeme) {ts : List (Located Term)}
    {a : Option Miss} (h : d.commaSeparated .thorough toks = .read ts [] a) :
    d.AreTerms toks ts := by
  rw [commaSeparated_eq] at h
  obtain ⟨⟨t, priority⟩, rest, b, c, hread, hnext⟩ := Outcome.andThen_eq_read h
  have hreads : d.Reads argumentPriority .terms toks t rest := ⟨.thorough, priority, b, hread⟩
  have := (d.reader .thorough).pred_length_lt hread
  simp only at hnext
  split at hnext
  · rename_i hcomma
    obtain ⟨us, hmore, rfl⟩ := Outcome.map_eq_read hnext
    exact .more hreads hcomma (areTerms_of_commaSeparated rest.tail hmore)
  · obtain ⟨rfl, hrest, _⟩ := Outcome.read.inj hnext
    exact .last hreads hrest
termination_by toks.length

theorem commaSeparated_of_areTerms {toks : List Lexeme} {ts : List (Located Term)}
    (h : d.AreTerms toks ts) : ∃ a, d.commaSeparated .thorough toks = .read ts [] a := by
  induction h with
  | @last toks rest t hreads hrest =>
    obtain ⟨priority, a, hread⟩ := hreads.thorough (plausible_of_skipStop hrest)
    have hcomma : peek rest ≠ .comma := by
      intro hcomma
      rw [skipStop, hcomma, if_neg (by simp)] at hrest
      rw [hrest] at hcomma
      cases hcomma
    rw [commaSeparated_eq, hread]
    simp only [Outcome.andThen, hcomma, if_false, hrest]
    exact ⟨_, rfl⟩
  | more hreads hcomma _ ih =>
    obtain ⟨priority, a, hread⟩ := hreads.thorough (by rw [Plausible, hcomma]; rfl)
    obtain ⟨b, hmore⟩ := ih
    rw [commaSeparated_eq, hread]
    simp only [Outcome.andThen, hcomma, if_true, hmore]
    exact ⟨_, rfl⟩

theorem termsPass_whole {ts : List (Located Term)} :
    d.termsPass .thorough = .finished ts [] [] ↔ d.IsTerms ts := by
  unfold termsPass IsTerms
  cases hlexemes : d.lexemes with
  | nil =>
    simp only [List.isEmpty_nil, if_true, Pass.finished.injEq, and_true, true_and]
    constructor
    · exact fun h => Or.inl h.symm
    · rintro (rfl | h)
      · rfl
      · -- No term is read from no lexemes.
        obtain ⟨a, hread⟩ := commaSeparated_of_areTerms h
        rw [commaSeparated_eq] at hread
        obtain ⟨_, _, _, _, hfirst, _⟩ := Outcome.andThen_eq_read hread
        have hshorter := (d.reader .thorough).shortens argumentPriority .terms []
        rw [hfirst] at hshorter
        exact absurd hshorter (Nat.not_lt_zero _)
  | cons l toks =>
    simp only [List.isEmpty_cons, Bool.false_eq_true, if_false, reduceCtorEq, false_and, false_or]
    constructor
    · intro h
      cases hread : d.commaSeparated .thorough (l :: toks) with
      | read us rest a =>
        simp only [hread, Pass.finished.injEq] at h
        obtain ⟨rfl, rfl, _⟩ := h
        exact areTerms_of_commaSeparated _ hread
      | miss m a =>
        rw [hread] at h
        cases h
      | tooDeep rest =>
        rw [hread] at h
        cases h
    · intro h
      obtain ⟨a, hread⟩ := commaSeparated_of_areTerms h
      rw [hread]

theorem variablePass_whole {v : Located Term} :
    d.variablePass .thorough = .finished v [] [] ↔ d.IsVariable v := by
  unfold variablePass IsVariable
  constructor
  · intro h
    cases hpeek : peek d.lexemes with
    | var name =>
      simp only [hpeek, Pass.finished.injEq] at h
      obtain ⟨rfl, htail, _⟩ := h
      cases hlexemes : d.lexemes with
      | nil =>
        rw [hlexemes] at hpeek
        cases hpeek
      | cons l toks =>
        rw [hlexemes] at hpeek htail
        obtain rfl : toks = [] := htail
        exact ⟨l, name, rfl, hpeek, rfl⟩
    | _ => simp [hpeek] at h
  · rintro ⟨l, name, hlexemes, hl, rfl⟩
    have hpeek : peek d.lexemes = .var name := by
      rw [hlexemes]
      exact hl
    simp only [hpeek]
    rw [placeOf, hlexemes]
    rfl

/-! ## Lists of clauses -/

section

variable {rule : Rule} {classify : Term → Place → Except ClauseError α} {toks part : List Lexeme}

/-- A segment is closed by an end token or has none. -/
theorem mem_segments_cases (h : part ∈ segments toks) :
    (∃ run stop, (∀ l ∈ run, l.token ≠ .stop) ∧ stop.token = .stop ∧ part = run ++ [stop]) ∨
      ∀ l ∈ part, l.token ≠ .stop := by
  induction toks using segments_induction with
  | nil => cases h
  | last run hne hrun =>
    rw [segments_open hne hrun, List.mem_singleton] at h
    exact Or.inr (h ▸ hrun)
  | clause run stop more hrun hstop ih =>
    rw [segments_clause hrun hstop] at h
    rcases List.mem_cons.mp h with rfl | h
    · exact Or.inl ⟨run, stop, hrun, hstop, rfl⟩
    · exact ih h

/-- Of a segment nothing is left behind a clause. -/
theorem clause_rest {t : Term} {rest : List Lexeme} {a : Option Miss} (h : part ∈ segments toks)
    (hread : d.clause .thorough rule part = .read t rest a) : rest = [] := by
  rcases mem_segments_cases h with ⟨run, stop, hrun, hstop, rfl⟩ | hopen
  · have hsame : SameClause [] [] (run ++ [stop]) (run ++ [stop]) :=
      SameClause.of_run [] [] hrun hstop
    have halike := clause_alike rule (rfl : d.options = d.options) hsame
    rw [hread] at halike
    cases halike with
    | read _ hrest _ => exact hrest.1
  · exact absurd hread (clause_open_ne_read hopen)

theorem isClause_of_clause {t : Term} {v : α} {a : Option Miss}
    (hread : d.clause .thorough rule part = .read t [] a)
    (hclassify : classify t (d.stretch part []) = .ok v) : d.IsClause rule classify part v := by
  obtain ⟨⟨u, priority⟩, last, b, c, hterm, hnext⟩ := Outcome.andThen_eq_read hread
  obtain ⟨_, hexpect, rfl⟩ := Outcome.map_eq_read hnext
  obtain ⟨hpeek, htail⟩ := expect_eq_read hexpect
  obtain ⟨stop, hlast, hstop⟩ := cons_of_peek hpeek (by simp)
  rw [← htail] at hlast
  rw [hlast] at hterm
  exact ⟨u, stop, ⟨.thorough, priority, b, hterm⟩, hstop, hclassify⟩

theorem verdict_eq_value_iff {v : α} (h : part ∈ segments toks) :
    d.verdict rule classify part = .value v ↔ d.IsClause rule classify part v := by
  constructor
  · intro hverdict
    unfold verdict at hverdict
    split at hverdict
    · rename_i t rest a hread
      obtain rfl := clause_rest h hread
      split at hverdict
      · rename_i w hclassify
        cases hverdict
        exact isClause_of_clause hread hclassify
      · cases hverdict
    · cases hverdict
    · cases hverdict
  · rintro ⟨t, stop, hreads, hstop, hclassify⟩
    obtain ⟨priority, a, hread⟩ := hreads.thorough (by rw [Plausible, peek, hstop]; rfl)
    have hclause : d.clause .thorough rule part = .read t [] (Miss.furthest a none) := by
      rw [clause, hread]
      simp [Outcome.andThen, expect, peek, hstop, Outcome.map, Outcome.after]
    simp only [verdict, hclause, hclassify]

/-- Verdicts without a diagnostic are all values. -/
theorem verdicts_clean {verdicts : List (Verdict α)} (h : Verdict.tooDeep ∉ verdicts) :
    verdicts.filterMap Verdict.diagnostic? = [] ↔
      List.Forall₂ (fun verdict v => verdict = .value v) verdicts
        (verdicts.filterMap Verdict.value?) := by
  induction verdicts with
  | nil => simp
  | cons verdict verdicts ih =>
    have hrest := ih fun hmem => h (List.mem_cons_of_mem _ hmem)
    cases verdict with
    | value v => simpa [Verdict.diagnostic?, Verdict.value?] using hrest
    | faulty e =>
      have hlength : (verdicts.filterMap Verdict.value?).length < verdicts.length + 1 :=
        Nat.lt_succ_of_le (List.length_filterMap_le _ _)
      simp only [List.filterMap_cons, Verdict.diagnostic?, Verdict.value?, reduceCtorEq, false_iff]
      intro hall
      exact absurd hall.length_eq (Nat.ne_of_gt hlength)
    | tooDeep => exact absurd List.mem_cons_self h

/-- A list of clauses is clean when every segment of it is a clause that is accepted. -/
theorem clauseList_clean {vs : List α} (h : (d.clauseList rule classify).result = .ok vs) :
    (d.clauseList rule classify).diagnostics = ∅ ↔
      d.lexical = [] ∧ d.AreClauses rule classify vs := by
  obtain ⟨hdeep, rfl, hdiagnostics⟩ := clauseList_ok h
  rw [hdiagnostics, diagnosticsWith_eq_empty_iff, verdicts_clean hdeep, AreClauses]
  conv_lhs => rw [verdicts]
  rw [List.forall₂_map_left_iff]
  refine and_congr_right fun _ => ⟨fun hall => ?_, fun hall => ?_⟩
  · exact forall₂_imp_of_mem hall fun part hpart v => (verdict_eq_value_iff hpart).mp
  · exact forall₂_imp_of_mem hall fun part hpart v => (verdict_eq_value_iff hpart).mpr

end

end Document

/-! ## Readings of every kind -/

theorem Reading.map_id {α : Type} (r : Reading α) : r.map id = r := by
  obtain ⟨result, diagnostics⟩ := r
  cases result <;> rfl

/-- Where the parser comes to a value, no diagnostic is left just when the characters
were read without an error and the value is what the whole document comes to. -/
def Parser.CleanJust {α : Type} (p : Parser) (errors : List LexicalError)
    (entry : Document → Reading α) (whole : α → Prop) : Prop :=
  ∀ r, (p.read entry).1 = .ok r →
    ((p.read entry).2.diagnostics = ∅ ↔ errors = [] ∧ whole r)

namespace Document

theorem lexical_eq_nil_iff {text : String} {origin : Place} {options : Options} :
    (ofText text origin options).lexical = [] ↔ (tokenize text origin.position).errors = [] :=
  List.map_eq_nil_iff

/-- A kind of document whose whole is known, read in one pass or in two. -/
theorem drive_clean {α β : Type} {d : Document} {pass : Mode → Pass α} {f : Option α → β}
    {whole : β → Prop} (hagrees : (pass .fast).Settled → pass .thorough = pass .fast)
    (hwhole : ∀ r, whole r ↔ ∃ v, pass .thorough = .finished v [] [] ∧ r = f (some v)) {r : β}
    (h : ((d.drive pass).map f).result = .ok r) :
    ((d.drive pass).map f).diagnostics = ∅ ↔ d.lexical = [] ∧ whole r := by
  rw [drive_eq_conclude hagrees] at h ⊢
  rw [conclude_clean h, hwhole]

theorem onePass_clean {α : Type} {d : Document} {classify : Term → Place → Except ClauseError α}
    {r : Option α} (h : ((d.drive (d.onePass classify)).map Option.join).result = .ok r) :
    ((d.drive (d.onePass classify)).map Option.join).diagnostics = ∅ ↔
      d.lexical = [] ∧ ∃ v, r = some v ∧ d.IsOne classify v := by
  have hwhole : ∀ r : Option α, (∃ v, r = some v ∧ d.IsOne classify v) ↔
      ∃ v, d.onePass classify .thorough = .finished v [] [] ∧ r = Option.join (some v) := by
    intro r
    simp only [onePass_whole]
    constructor
    · rintro ⟨v, rfl, hv⟩
      exact ⟨some v, ⟨v, rfl, hv⟩, rfl⟩
    · rintro ⟨_, ⟨v, rfl, hv⟩, rfl⟩
      exact ⟨v, rfl, hv⟩
  exact drive_clean (onePass_agrees classify) hwhole h

theorem terms_clean {d : Document} {ts : List (Located Term)} (h : d.terms.result = .ok ts) :
    d.terms.diagnostics = ∅ ↔ d.lexical = [] ∧ d.IsTerms ts := by
  have hwhole : ∀ ts, d.IsTerms ts ↔
      ∃ us, d.termsPass .thorough = .finished us [] [] ∧ ts = (some us).getD [] := by
    intro ts
    simp only [termsPass_whole, Option.getD_some, exists_eq_right']
  exact drive_clean d.termsPass_agrees hwhole h

theorem soleVariable_clean {d : Document} {r : Option (Located Term)}
    (h : d.soleVariable.result = .ok r) :
    d.soleVariable.diagnostics = ∅ ↔ d.lexical = [] ∧ ∃ v, r = some v ∧ d.IsVariable v := by
  have hwhole : ∀ r, (∃ v, r = some v ∧ d.IsVariable v) ↔
      ∃ v, d.variablePass .thorough = .finished v [] [] ∧ r = id (some v) := by
    intro r
    simp only [variablePass_whole, id, and_comm]
  have hid : d.soleVariable = (d.drive d.variablePass).map id := (Reading.map_id _).symm
  rw [hid] at h ⊢
  exact drive_clean (fun _ => rfl) hwhole h

/-- Whatever a text is read as, and whatever was read before, no diagnostic is left just
when no character was at fault, every lexeme was read, and every term was legal for the
kind of document. So a reading that comes to nothing leaves a diagnostic, and of a list
of clauses without one no segment is missing. -/
theorem diagnostics_eq_empty_iff (text : String) (origin : Place) (options : Options)
    (earlier : DiagnosticSet) :
    let errors := (tokenize text origin.position).errors
    let d := ofText text origin options
    let p : Parser := ⟨d, earlier⟩
    p.CleanJust errors term
        (fun r => ∃ t, r = some t ∧ d.IsOne (fun t place => .ok ⟨t, place⟩) t) ∧
      p.CleanJust errors terms d.IsTerms ∧
      p.CleanJust errors soleVariable (fun r => ∃ v, r = some v ∧ d.IsVariable v) ∧
      p.CleanJust errors query (fun r => ∃ q, r = some q ∧ d.IsOne queryOf q) ∧
      p.CleanJust errors queries (d.AreClauses .queries queryOf) ∧
      p.CleanJust errors update (fun r => ∃ u, r = some u ∧ d.IsOne Update.ofTerm u) ∧
      p.CleanJust errors program (d.AreClauses .program Clause.ofTerm) ∧
      ∀ {α : Type} (entry : Document → Reading α),
        p.read entry = (Parser.ofText text origin options).read entry := by
  intro errors d p
  have hlexical : d.lexical = [] ↔ errors = [] := lexical_eq_nil_iff
  simp only [Parser.CleanJust, ← hlexical]
  refine ⟨fun r h => ?_, fun r h => ?_, fun r h => ?_, fun r h => ?_, fun r h => ?_,
    fun r h => ?_, fun r h => ?_, fun _ => rfl⟩
  · exact onePass_clean h
  · exact terms_clean h
  · exact soleVariable_clean h
  · exact onePass_clean h
  · exact clauseList_clean h
  · exact onePass_clean h
  · exact clauseList_clean h

/-- The fact `a.` read as a program, after a reading that left a diagnostic. -/
theorem diagnostics_eq_empty_iff_fact :
    let p : Parser := ⟨ofText "a." .origin {}, .ofList [⟨spuriousInput, .origin⟩]⟩
    p.diagnostics ≠ ∅ ∧ (p.read program).1 = .ok [⟨.atom "a", ⟨none, 1, 1, 0, 2⟩⟩] ∧
      (p.read program).2.diagnostics = ∅ := by
  intro p
  let a : Lexeme := ⟨.name "a", ⟨1, 1, 0, 1⟩, false⟩
  let stop : Lexeme := ⟨.stop, ⟨1, 2, 1, 2⟩, false⟩
  have hlexemes : p.document.lexemes = [a, stop] := by decide +kernel
  have herrors : (tokenize "a." Place.origin.position).errors = [] := by decide +kernel
  have hresult : (p.read program).1 = .ok [⟨.atom "a", ⟨none, 1, 1, 0, 2⟩⟩] :=
    program_atom hlexemes (by decide) rfl rfl (by decide) (by decide)
  have hsegments : segments ([a] ++ [stop]) = [[a] ++ [stop]] := segments_clause (by decide) rfl
  have hverdict : p.document.verdict .program Clause.ofTerm [a, stop] =
      .value ⟨.atom "a", ⟨none, 1, 1, 0, 2⟩⟩ :=
    verdict_atom (by decide) rfl rfl (by decide) (by decide +kernel)
  have hclauses : p.document.AreClauses .program Clause.ofTerm
      [⟨.atom "a", ⟨none, 1, 1, 0, 2⟩⟩] := by
    rw [AreClauses, hlexemes, show segments [a, stop] = [[a, stop]] from hsegments]
    have hmem : [a, stop] ∈ segments [a, stop] := by
      rw [show segments [a, stop] = [[a, stop]] from hsegments]
      exact List.mem_singleton_self _
    exact .cons ((verdict_eq_value_iff hmem).mp hverdict) .nil
  obtain ⟨_, _, _, _, _, _, hprogram, _⟩ :=
    diagnostics_eq_empty_iff "a." .origin {} (.ofList [⟨spuriousInput, .origin⟩])
  exact ⟨by decide, hresult, (hprogram _ hresult).mpr ⟨herrors, hclauses⟩⟩

end Document

end Clausal
