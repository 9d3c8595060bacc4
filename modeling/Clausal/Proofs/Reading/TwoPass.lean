import Clausal.Reading.Document
import Clausal.Proofs.Reading.Settled

/-
  Two passes — the fast pass changes nothing but the time

  The fast pass over a document counts when it comes to the end of the text or
  meets a nesting too deep. Then every part of it was settled, and the thorough
  pass comes to the same, with the same diagnostics on its way. Otherwise the
  thorough pass is run anyway.

  What is proved:
    1. `onePass_agrees`, `termsPass_agrees`, `clausesPass_agrees` — each pass.
    2. `drive_eq_conclude` — reading in one pass or two comes to what the
       thorough pass comes to.
    3. `readings_twoPass` — so does reading a text as any kind of document.
-/

namespace Clausal

/-- The pass came to the end of the text or met a nesting too deep. -/
def Pass.Settled {α : Type} : Pass α → Prop
  | .finished _ rest _ => rest = []
  | .missed _ _ => False
  | .tooDeep _ _ => True

namespace Pass

variable {α : Type}

@[simp] theorem settled_behind {p : Pass α} {earlier : List Diagnostic} :
    (p.behind earlier).Settled ↔ p.Settled := by
  cases p <;> exact Iff.rfl

@[simp] theorem settled_cons {p : Pass (List α)} {v : α} : (p.cons v).Settled ↔ p.Settled := by
  cases p <;> exact Iff.rfl

end Pass

namespace Document

variable {α : Type} {d : Document}

/-! ## Passes over a whole document -/

theorem reader_agrees (d : Document) : Reading.Agrees (d.reader .thorough) (d.reader .fast) :=
  Reading.terms_agrees d.options.quotes d.options.maxDepth

/-- At the end of the text, an end token before it or not, a term is settled. -/
theorem plausible_of_skipStop {toks : List Lexeme} (h : skipStop toks = []) : Plausible toks := by
  unfold skipStop at h
  split at h
  · rename_i hstop
    rw [Plausible, hstop]
    rfl
  · rw [h]
    rfl

theorem onePass_agrees (classify : Term → Place → Except ClauseError α)
    (h : (d.onePass classify .fast).Settled) :
    d.onePass classify .thorough = d.onePass classify .fast := by
  unfold onePass at h ⊢
  cases hread : (d.reader .fast).read maxPriority .term d.lexemes with
  | read v rest a =>
    obtain ⟨t, priority⟩ := v
    have hend : skipStop rest = [] := by
      simp only [hread] at h
      split at h <;> exact h
    have hsettled : Outcome.Settled Plausible
        ((d.reader .fast).read maxPriority .term d.lexemes) := by
      rw [hread]
      exact plausible_of_skipStop hend
    rw [d.reader_agrees _ _ _ hsettled, hread]
  | miss m a =>
    simp only [hread] at h
    cases h
  | tooDeep rest =>
    have hsettled : Outcome.Settled Plausible
        ((d.reader .fast).read maxPriority .term d.lexemes) := by
      rw [hread]
      trivial
    rw [d.reader_agrees _ _ _ hsettled, hread]

/-! ## Terms with commas between them -/

theorem commaSeparated_eq (d : Document) (mode : Mode) (toks : List Lexeme) :
    d.commaSeparated mode toks =
      ((d.reader mode).read argumentPriority .terms toks).andThen fun (t, _) rest =>
        if peek rest = .comma then
          (d.commaSeparated mode rest.tail).map (⟨t, d.stretch toks rest⟩ :: ·)
        else .read [⟨t, d.stretch toks rest⟩] (skipStop rest) none := by
  rw [commaSeparated.eq_def]
  split
  · rename_i rest a heq
    rw [heq, Outcome.andThen]
    split
    · rfl
    · rw [Outcome.after, Miss.furthest_none]
  · rename_i heq
    rw [heq, Outcome.andThen]
  · rename_i heq
    rw [heq, Outcome.andThen]

theorem commaSeparated_agrees (d : Document) (toks : List Lexeme)
    (h : (d.commaSeparated .fast toks).Settled (· = [])) :
    d.commaSeparated .thorough toks = d.commaSeparated .fast toks := by
  rw [commaSeparated_eq] at h
  rw [commaSeparated_eq, commaSeparated_eq]
  refine Outcome.andThen_agrees h (d.reader_agrees _ _ _) ?_
  rintro ⟨t, priority⟩ rest a hread hnext
  have := (d.reader .fast).pred_length_lt hread
  by_cases hcomma : peek rest = .comma
  · simp only [hcomma, if_true, Outcome.settled_map] at hnext ⊢
    rw [commaSeparated_agrees d rest.tail hnext]
    exact ⟨by rw [Plausible, hcomma]; rfl, rfl⟩
  · simp only [hcomma, if_false] at hnext ⊢
    exact ⟨plausible_of_skipStop hnext, trivial⟩
termination_by toks.length

theorem termsPass_agrees (d : Document) (h : (d.termsPass .fast).Settled) :
    d.termsPass .thorough = d.termsPass .fast := by
  unfold termsPass at h ⊢
  split
  · rfl
  · rename_i hne
    rw [if_neg hne] at h
    have hsettled : (d.commaSeparated .fast d.lexemes).Settled (· = []) := by
      cases hread : d.commaSeparated .fast d.lexemes <;> rw [hread] at h <;> exact h
    rw [commaSeparated_agrees d d.lexemes hsettled]

/-! ## Clauses -/

theorem clause_agrees (d : Document) {rule : Rule} {toks : List Lexeme}
    {before : List Lexeme → Prop} (h : (d.clause .fast rule toks).Settled before) :
    d.clause .thorough rule toks = d.clause .fast rule toks := by
  refine Outcome.andThen_agrees h (d.reader_agrees _ _ _) fun v rest a _ hnext => ⟨?_, rfl⟩
  exact plausible_of_expect rfl (Outcome.settled_map.mp hnext)

theorem clausesPass_eq (d : Document) (rule : Rule) (classify : Term → Place → Except ClauseError α)
    (mode : Mode) (toks : List Lexeme) :
    d.clausesPass rule classify mode toks =
      if toks = [] then .finished [] [] []
      else match d.clause mode rule toks with
        | .read t rest _ =>
          match classify t (d.stretch toks rest) with
          | .ok v => (d.clausesPass rule classify mode rest).cons v
          | .error e =>
            (d.clausesPass rule classify mode rest).behind [⟨e.message, d.stretch toks rest⟩]
        | .miss m a =>
          match mode with
          | .fast => .missed m a
          | .thorough =>
            (d.clausesPass rule classify .thorough (skipClause m.rest)).behind [d.report m a]
        | .tooDeep rest => .tooDeep rest [] := by
  rw [clausesPass.eq_def]
  split
  · rfl
  · split
    · rename_i t rest _ heq
      cases hclassify : classify t (d.stretch toks rest) <;> simp only [heq, hclassify]
    · rename_i heq
      cases mode <;> simp only [heq]
    · rename_i heq
      simp only [heq]

theorem clausesPass_agrees (d : Document) (rule : Rule)
    (classify : Term → Place → Except ClauseError α) (toks : List Lexeme)
    (h : (d.clausesPass rule classify .fast toks).Settled) :
    d.clausesPass rule classify .thorough toks = d.clausesPass rule classify .fast toks := by
  rw [clausesPass_eq] at h
  rw [clausesPass_eq, clausesPass_eq]
  split
  · rfl
  · rename_i hne
    rw [if_neg hne] at h
    have hlt := d.clause_shortens .fast rule toks
    cases hread : d.clause .fast rule toks with
    | read t rest a =>
      -- A clause is settled whatever follows it: its end token follows an operand.
      have hsettled : (d.clause .fast rule toks).Settled fun _ => True := by rw [hread]; trivial
      rw [hread] at hlt
      rw [d.clause_agrees hsettled, hread]
      simp only [hread] at h ⊢
      have : rest.length < toks.length := hlt
      cases hclassify : classify t (d.stretch toks rest) with
      | ok v =>
        simp only [hclassify, Pass.settled_cons] at h
        rw [clausesPass_agrees d rule classify rest h]
      | error e =>
        simp only [hclassify, Pass.settled_behind] at h
        rw [clausesPass_agrees d rule classify rest h]
    | miss m a =>
      simp only [hread] at h
      cases h
    | tooDeep rest =>
      have hsettled : (d.clause .fast rule toks).Settled fun _ => True := by rw [hread]; trivial
      rw [d.clause_agrees hsettled, hread]
termination_by toks.length

/-! ## One pass or two -/

/-- Where the fast pass counts, it is what the thorough pass comes to. -/
theorem drive_eq_conclude {pass : Mode → Pass α}
    (h : (pass .fast).Settled → pass .thorough = pass .fast) :
    d.drive pass = d.conclude (pass .thorough) := by
  unfold drive
  split
  · -- The fast pass counts in the first two cases, and is thrown away in the third.
    split
    · rename_i v found hpass
      rw [h (by rw [hpass]; rfl), hpass, conclude]
      simp [spurious]
    · rename_i rest found hpass
      rw [h (by rw [hpass]; trivial), hpass]
      rfl
    · rfl
  · rfl

/-- One term for the document is what the thorough pass comes to. -/
theorem term_eq_conclude (d : Document) :
    d.term = (d.conclude (d.onePass (fun t place => .ok ⟨t, place⟩) .thorough)).map
      Option.join := by
  rw [term, drive_eq_conclude (onePass_agrees _)]

/-- The document, to be read in one pass or in two. -/
def withPasses (d : Document) (twoPass : Bool) : Document :=
  { d with options := { d.options with twoPass := twoPass } }

/-- The passes themselves do not depend on how many there are. -/
theorem commaSeparated_withPasses (d : Document) (twoPass : Bool) (mode : Mode)
    (toks : List Lexeme) :
    (d.withPasses twoPass).commaSeparated mode toks = d.commaSeparated mode toks := by
  rw [commaSeparated_eq, commaSeparated_eq]
  have hreader : (d.withPasses twoPass).reader mode = d.reader mode := rfl
  rw [hreader]
  cases hread : (d.reader mode).read argumentPriority .terms toks with
  | read v rest a =>
    have := (d.reader mode).pred_length_lt hread
    simp only [Outcome.andThen, commaSeparated_withPasses d twoPass mode rest.tail]
    rfl
  | miss m a => rfl
  | tooDeep rest => rfl
termination_by toks.length

theorem termsPass_withPasses (d : Document) (twoPass : Bool) :
    (d.withPasses twoPass).termsPass = d.termsPass := by
  funext mode
  unfold termsPass
  rw [commaSeparated_withPasses]
  rfl

theorem clausesPass_withPasses (d : Document) (twoPass : Bool) (rule : Rule)
    (classify : Term → Place → Except ClauseError α) (mode : Mode) (toks : List Lexeme) :
    (d.withPasses twoPass).clausesPass rule classify mode toks =
      d.clausesPass rule classify mode toks := by
  rw [clausesPass_eq, clausesPass_eq]
  split
  · rfl
  · rename_i hne
    have hclause : (d.withPasses twoPass).clause mode rule toks = d.clause mode rule toks := rfl
    rw [hclause]
    cases hread : d.clause mode rule toks with
    | read t rest a =>
      have hlt := d.clause_shortens mode rule toks
      rw [hread] at hlt
      have : rest.length < toks.length := hlt
      simp only [clausesPass_withPasses d twoPass rule classify mode rest]
      rfl
    | miss m a =>
      have hin := d.clause_inside mode rule toks
      rw [hread] at hin
      have := skipClause_length_lt hin.1 hne
      simp only [clausesPass_withPasses d twoPass rule classify .thorough (skipClause m.rest)]
      rfl
    | tooDeep rest => rfl
termination_by toks.length

/-- Reading in one pass or in two comes to what the thorough pass comes to. -/
theorem drive_withPasses {pass : Mode → Pass α} (twoPass : Bool)
    (h : (pass .fast).Settled → pass .thorough = pass .fast) :
    (d.withPasses twoPass).drive pass = d.conclude (pass .thorough) := by
  rw [drive_eq_conclude h]
  cases pass .thorough <;> rfl

section

variable (d : Document) (twoPass : Bool)

/-- Every kind of document is read by way of one of the passes. -/
theorem onePass_withPasses (classify : Term → Place → Except ClauseError α) :
    (d.withPasses twoPass).drive ((d.withPasses twoPass).onePass classify) =
      d.conclude (d.onePass classify .thorough) :=
  drive_withPasses twoPass (onePass_agrees classify)

theorem terms_withPasses :
    (d.withPasses twoPass).terms = (d.conclude (d.termsPass .thorough)).map (·.getD []) := by
  rw [terms, termsPass_withPasses, drive_withPasses twoPass d.termsPass_agrees]

theorem soleVariable_withPasses :
    (d.withPasses twoPass).soleVariable = d.conclude (d.variablePass .thorough) :=
  drive_withPasses twoPass fun _ => rfl

theorem clauses_withPasses (rule : Rule) (classify : Term → Place → Except ClauseError α) :
    ((d.withPasses twoPass).drive fun mode =>
        (d.withPasses twoPass).clausesPass rule classify mode d.lexemes) =
      d.conclude (d.clausesPass rule classify .thorough d.lexemes) := by
  simp only [clausesPass_withPasses]
  exact drive_withPasses twoPass (d.clausesPass_agrees rule classify d.lexemes)

end

/-- A text is read as the same, with the same diagnostics and the same faults,
in one pass and in two, whatever it is read as. -/
theorem readings_twoPass (text : String) (origin : Place) (maxDepth : Nat) (quotes : DoubleQuotes) :
    let two := ofText text origin ⟨maxDepth, quotes, true⟩
    let one := ofText text origin ⟨maxDepth, quotes, false⟩
    two.term = one.term ∧ two.terms = one.terms ∧ two.soleVariable = one.soleVariable ∧
      two.query = one.query ∧ two.queries = one.queries ∧ two.update = one.update ∧
      two.program = one.program := by
  intro two one
  have hterms : two.terms = one.terms := calc
    two.terms = (one.conclude (one.termsPass .thorough)).map (·.getD []) :=
      one.terms_withPasses true
    _ = one.terms := (one.terms_withPasses false).symm
  have hvariable : two.soleVariable = one.soleVariable := calc
    two.soleVariable = one.conclude (one.variablePass .thorough) :=
      one.soleVariable_withPasses true
    _ = one.soleVariable := (one.soleVariable_withPasses false).symm
  have honePass : ∀ {β : Type} (classify : Term → Place → Except ClauseError β),
      two.drive (two.onePass classify) = one.drive (one.onePass classify) := by
    intro β classify
    calc two.drive (two.onePass classify) = one.conclude (one.onePass classify .thorough) :=
          one.onePass_withPasses true classify
      _ = one.drive (one.onePass classify) := (one.onePass_withPasses false classify).symm
  have hclauses : ∀ {β : Type} (rule : Rule) (classify : Term → Place → Except ClauseError β),
      (two.drive fun mode => two.clausesPass rule classify mode two.lexemes) =
        one.drive fun mode => one.clausesPass rule classify mode one.lexemes := by
    intro β rule classify
    calc (two.drive fun mode => two.clausesPass rule classify mode two.lexemes)
        = one.conclude (one.clausesPass rule classify .thorough one.lexemes) :=
          one.clauses_withPasses true rule classify
      _ = one.drive fun mode => one.clausesPass rule classify mode one.lexemes :=
        (one.clauses_withPasses false rule classify).symm
  refine ⟨?_, hterms, hvariable, ?_, ?_, ?_, ?_⟩
  · rw [term, term, honePass]
  · rw [query, query, honePass]
  · rw [queries, queries, hclauses]
  · rw [update, update, honePass]
  · rw [program, program, hclauses]

end Document

end Clausal
