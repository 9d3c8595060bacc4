import Clausal.Proofs.Reading.Local
import Clausal.Proofs.Reading.TwoPass
import Mathlib.Data.List.SplitBy
import Mathlib.Data.List.TakeWhile

/-
  Segments — a list of clauses is read one segment at a time

  The lexemes of a document fall into segments, each up to an end token, and a
  last one without it when something stands behind the last end token. The
  thorough pass makes one thing of each segment, by itself: a value, a
  diagnostic, or a nesting too deep. Recovery begins where a reading missed,
  wherever that is, and still ends behind the same end token.

  What is proved:
    1. `segments_clause`, `segments_open`, `segments_append` — how a text falls
       into segments.
    2. `verdict_alike` — what is made of a segment depends neither on what stands
       behind it nor on where the text ends.
    3. `clausesPass_clause` and `clausesPass_open` — one step of the pass.
    4. `clausesPass_verdicts` — the pass as a whole, by the verdicts on its segments.
    5. `clauseList_verdicts` — so is what a list of clauses is read as.
-/

namespace Clausal

/-- The lexemes up to each end token, and those behind the last one if there are
any. -/
def segments (toks : List Lexeme) : List (List Lexeme) := toks.splitBy fun l _ => l.token != .stop

/-- What the thorough pass makes of a clause. -/
inductive Verdict (α : Type) where
  | value (v : α)
  | faulty (e : Diagnostic)
  | tooDeep

namespace Verdict

variable {α : Type}

/-- The value, if it is one. -/
def value? : Verdict α → Option α
  | .value v => some v
  | _ => none

/-- The diagnostic, if it is one. -/
def diagnostic? : Verdict α → Option Diagnostic
  | .faulty e => some e
  | _ => none

/-- The pass over some lexemes, given the verdict on the first segment and the pass
over the others. -/
def Before (verdict : Verdict α) (others whole : Pass (List α)) : Prop :=
  match verdict with
  | .value v => whole = others.cons v
  | .faulty e => whole = others.behind [e]
  | .tooDeep => ∃ rest, whole = .tooDeep rest []

end Verdict

/-- What is made of the lexemes of one segment. -/
def Document.verdict {α : Type} (d : Document) (rule : Rule)
    (classify : Term → Place → Except ClauseError α) (toks : List Lexeme) : Verdict α :=
  match d.clause .thorough rule toks with
  | .read t rest _ =>
    match classify t (d.stretch toks rest) with
    | .ok v => .value v
    | .error e => .faulty ⟨e.message, d.stretch toks rest⟩
  | .miss m a => .faulty (d.report m a)
  | .tooDeep _ => .tooDeep

/-- What is made of each segment. -/
def Document.verdicts {α : Type} (d : Document) (rule : Rule)
    (classify : Term → Place → Except ClauseError α) (toks : List Lexeme) : List (Verdict α) :=
  (segments toks).map (d.verdict rule classify)

/-- The pass has the values and the diagnostics of the verdicts, unless one of them
is a nesting too deep. -/
def Pass.Collects {α : Type} (verdicts : List (Verdict α)) (pass : Pass (List α)) : Prop :=
  (Verdict.tooDeep ∈ verdicts ∧ ∃ rest found, pass = .tooDeep rest found) ∨
    (Verdict.tooDeep ∉ verdicts ∧
      pass = .finished (verdicts.filterMap Verdict.value?) []
        (verdicts.filterMap Verdict.diagnostic?))

/-! ## Segments of a text -/

section

variable {run more : List Lexeme} {stop : Lexeme}

@[simp] theorem segments_nil : segments [] = [] := rfl

theorem isChain_of_open (h : ∀ l ∈ run, l.token ≠ .stop) :
    run.IsChain fun l _ => (l.token != .stop) = true :=
  (List.pairwise_of_forall_mem_list fun l hl _ _ => by simpa using h l hl).isChain

/-- Lexemes without an end token are one segment. -/
theorem segments_open (hne : run ≠ []) (h : ∀ l ∈ run, l.token ≠ .stop) : segments run = [run] :=
  List.splitBy_of_isChain hne (isChain_of_open h)

/-- Behind an end token a new segment begins. -/
theorem segments_append (h : ∀ l ∈ run.getLast?, l.token = .stop) :
    segments (run ++ more) = segments run ++ segments more :=
  List.splitBy_append fun l hl _ _ => by simp [h l hl]

/-- The lexemes up to the first end token are the first segment. -/
theorem segments_clause (hrun : ∀ l ∈ run, l.token ≠ .stop) (hstop : stop.token = .stop) :
    segments (run ++ stop :: more) = (run ++ [stop]) :: segments more := by
  have hchain : (run ++ [stop]).IsChain fun l _ => (l.token != .stop) = true := by
    refine (isChain_of_open hrun).append (List.isChain_singleton stop) ?_
    intro l hl _ _
    simpa using hrun l (List.mem_of_mem_getLast? hl)
  calc segments (run ++ stop :: more) = segments ((run ++ [stop]) ++ more) := by simp
    _ = segments (run ++ [stop]) ++ segments more :=
      segments_append (by simpa using hstop)
    _ = (run ++ [stop]) :: segments more := by
      rw [segments, List.splitBy_of_isChain (by simp) hchain]
      rfl

/-- What holds of no lexemes at all, of lexemes without an end token, and with a
clause more before it, holds of every text. -/
@[elab_as_elim]
theorem segments_induction {motive : List Lexeme → Prop} (nil : motive [])
    (last : ∀ run, run ≠ [] → (∀ l ∈ run, l.token ≠ .stop) → motive run)
    (clause : ∀ run stop more, (∀ l ∈ run, l.token ≠ .stop) → stop.token = .stop → motive more →
      motive (run ++ stop :: more)) (toks : List Lexeme) : motive toks := by
  -- Lexemes in front of a text are its first segment or go to the front of it.
  suffices h : ∀ run, (∀ l ∈ run, l.token ≠ .stop) → motive (run ++ toks) from h [] (by simp)
  induction toks with
  | nil =>
    intro run hrun
    rw [List.append_nil]
    by_cases hne : run = []
    · exact hne ▸ nil
    · exact last run hne hrun
  | cons l rest ih =>
    intro run hrun
    by_cases hl : l.token = .stop
    · exact clause run l rest hrun hl (ih [] (by simp))
    · rw [List.append_cons]
      exact ih (run ++ [l]) (List.forall_mem_append.mpr ⟨hrun, by simpa using hl⟩)

theorem skipClause_open (h : ∀ l ∈ run, l.token ≠ .stop) : Document.skipClause run = [] := by
  have hall : run.dropWhile (fun l => l.token != .stop) = [] :=
    List.dropWhile_eq_nil_iff.mpr fun l hl => by simpa using h l hl
  rw [Document.skipClause, hall]
  rfl

theorem SameClause.skipClause {more' toks toks' : List Lexeme}
    (h : SameClause more more' toks toks') : Document.skipClause toks = more := by
  obtain ⟨run, stop, hrun, hstop, rfl, _⟩ := h
  have hall : run.dropWhile (fun l => l.token != .stop) = [] :=
    List.dropWhile_eq_nil_iff.mpr fun l hl => by simpa using hrun l hl
  simp [Document.skipClause, List.dropWhile_append, hall, hstop]

end

namespace Pass.Collects

variable {α : Type}

theorem nil : (Pass.finished [] [] [] : Pass (List α)).Collects [] := Or.inr ⟨by simp, rfl⟩

/-- With a verdict more before it. -/
theorem cons {verdict : Verdict α} {verdicts : List (Verdict α)} {others whole : Pass (List α)}
    (h : others.Collects verdicts) (hstep : verdict.Before others whole) :
    whole.Collects (verdict :: verdicts) := by
  cases verdict with
  | value v =>
    rcases h with ⟨hmem, rest, found, rfl⟩ | ⟨hmem, rfl⟩
    · exact Or.inl ⟨List.mem_cons_of_mem _ hmem, rest, found, hstep⟩
    · exact Or.inr ⟨by simpa using hmem, hstep⟩
  | faulty e =>
    rcases h with ⟨hmem, rest, found, rfl⟩ | ⟨hmem, rfl⟩
    · exact Or.inl ⟨List.mem_cons_of_mem _ hmem, rest, [e] ++ found, hstep⟩
    · exact Or.inr ⟨by simpa using hmem, hstep⟩
  | tooDeep =>
    obtain ⟨rest, hwhole⟩ := hstep
    exact Or.inl ⟨List.mem_cons_self, rest, [], hwhole⟩

end Pass.Collects

namespace Document

variable {α : Type} {d d' : Document} {rule : Rule} {classify : Term → Place → Except ClauseError α}
variable {more more' toks toks' : List Lexeme}

/-! ## A clause by itself -/

theorem clause_alike (rule : Rule) (hoptions : d.options = d'.options)
    (h : SameClause more more' toks toks') :
    Outcome.Alike (SameClause more more') False Eq
      (fun rest rest' => rest = more ∧ rest' = more')
      (d.clause .thorough rule toks) (d'.clause .thorough rule toks') := by
  have hreader : d'.reader .thorough = d.reader .thorough := by rw [reader, reader, hoptions]
  unfold clause
  rw [hreader]
  have hread : Reading.ReadAlike (SameClause more more') False (d.reader .thorough)
      (d.reader .thorough) := Reading.terms_alike _ (Nat.le_refl _) (Nat.lt_irrefl _)
  refine Outcome.alike_andThen (hread maxPriority rule h) ?_
  rintro ⟨t, priority⟩ _ rest rest' _ rfl hrest
  exact Outcome.alike_map_same _ (expect_stop_alike hrest _)

theorem placeOf_alike (hfile : d.file = d'.file) (h : SameClause more more' toks toks') :
    d.placeOf toks = d'.placeOf toks' := by
  obtain ⟨l, htoks, htoks'⟩ := h.front
  rw [htoks, htoks', placeOf, placeOf, hfile]
  rfl

theorem stretch_alike (hfile : d.file = d'.file) (h : SameClause more more' toks toks') :
    d.stretch toks more = d'.stretch toks' more' := by
  have hplace := placeOf_alike hfile h
  obtain ⟨run, stop, _, _, rfl, rfl⟩ := h
  have htake : ∀ others : List Lexeme, (run ++ stop :: others).take
      ((run ++ stop :: others).length - others.length) = run ++ [stop] := by
    intro others
    have hlength : (run ++ stop :: others).length - others.length = (run ++ [stop]).length := by
      simp only [List.length_append, List.length_cons, List.length_nil]
      omega
    rw [hlength, show run ++ stop :: others = (run ++ [stop]) ++ others by simp, List.take_left]
  simp only [stretch, htake, hplace]

theorem report_alike (hfile : d.file = d'.file) {m m' : Miss} {a a' : Option Miss}
    (hm : Miss.Alike (SameClause more more') m m')
    (ha : Option.Rel (Miss.Alike (SameClause more more')) a a') :
    d.report m a = d'.report m' a' := by
  have htold := Miss.told_alike hm ha
  obtain ⟨l, hrest, hrest'⟩ := htold.2.front
  simp only [report, htold.1, placeOf_alike hfile htold.2]
  rw [hrest, hrest']
  rfl

/-- What is made of a clause depends neither on what stands behind it nor on where
the text ends. -/
theorem verdict_alike (hfile : d.file = d'.file) (hoptions : d.options = d'.options)
    (h : SameClause more more' toks toks') :
    d.verdict rule classify toks = d'.verdict rule classify toks' := by
  have hclause := clause_alike rule hoptions h
  unfold verdict
  generalize d.clause _ _ toks = o, d'.clause _ _ toks' = o' at hclause ⊢
  cases hclause with
  | read hv hrest _ =>
    subst hv
    obtain ⟨rfl, rfl⟩ := hrest
    simp only [stretch_alike hfile h]
  | miss hm ha => simp only [report_alike hfile hm ha]
  | tooDeep _ => rfl
  | cut hcut => exact hcut.elim

/-- An atom that is no operator, with its end token, is a clause on any level. -/
theorem verdict_atom {l stop : Lexeme} {name : String} {v : α} (hdepth : d.options.maxDepth ≠ 0)
    (hl : l.token = .name name) (hstop : stop.token = .stop) (hname : Operator.before? name = none)
    (hv : classify (.atom name) (d.stretch [l, stop] []) = .ok v) :
    d.verdict rule classify [l, stop] = .value v := by
  obtain ⟨depth, hdepth⟩ := Nat.exists_eq_succ_of_ne_zero hdepth
  have hprimary : Reading.primary ⟨d.options.quotes, .thorough⟩
      (Reading.terms ⟨d.options.quotes, .thorough⟩ depth) maxPriority rule [l, stop] =
        .read (.atom name, 0) [stop] none := by
    simp [Reading.primary, peek, hl, Reading.nameTerm, Reading.opensArguments,
      Reading.negativeLiteral, hstop, hname, Reading.simple]
  have hterm : (d.reader .thorough).read maxPriority rule [l, stop] =
      .read (.atom name, 0) [stop] none := by
    rw [reader, hdepth]
    refine Reading.terms_read (Reading.start_of_primary [] hprimary) ?_
    rw [peek, hstop]
    rfl
  have hclause : d.clause .thorough rule [l, stop] = .read (.atom name) [] none := by
    rw [clause, hterm]
    simp [Outcome.andThen, expect, peek, hstop, Outcome.map, Outcome.after, Miss.furthest]
  simp only [verdict, hclause, hv]

/-! ## One segment after the other -/

/-- The verdict on the first clause decides one step of the pass. -/
theorem clausesPass_clause (h : SameClause more more' toks toks') :
    (d.verdict rule classify toks).Before (d.clausesPass rule classify .thorough more)
      (d.clausesPass rule classify .thorough toks) := by
  have hne : toks ≠ [] := by
    obtain ⟨l, htoks, _⟩ := h.front
    rw [htoks]
    exact List.cons_ne_nil l _
  have hclause := clause_alike rule (rfl : d.options = d.options) h
  rw [d.clausesPass_eq rule classify .thorough toks, if_neg hne, verdict]
  generalize d.clause _ _ toks = o, d.clause _ _ toks' = o' at hclause ⊢
  cases hclause with
  | @read t _ rest rest' a a' _ hrest _ =>
    obtain ⟨rfl, rfl⟩ := hrest
    cases hclassify : classify t (d.stretch toks rest) <;> simp only [hclassify] <;> rfl
  | miss hm _ =>
    simp only [SameClause.skipClause hm.2]
    rfl
  | tooDeep _ => exact ⟨_, rfl⟩
  | cut hcut => exact hcut.elim

/-- Without an end token no clause can be read. -/
theorem clause_open_ne_read (hopen : ∀ l ∈ toks, l.token ≠ .stop) {t : Term}
    {rest : List Lexeme} {a : Option Miss} : d.clause .thorough rule toks ≠ .read t rest a := by
  intro hread
  unfold clause at hread
  have hin := (d.reader .thorough).inside maxPriority rule toks
  cases hterm : (d.reader .thorough).read maxPriority rule toks with
  | read v last b =>
    rw [hterm] at hin hread
    have hlast : peek last ≠ .stop := by
      cases last with
      | nil => simp [peek]
      | cons l last => exact hopen l (hin.1.mem List.mem_cons_self)
    simp [Outcome.andThen, expect, hlast, Outcome.map, Outcome.after] at hread
  | miss m b =>
    rw [hterm] at hread
    cases hread
  | tooDeep last =>
    rw [hterm] at hread
    cases hread

/-- So lexemes without an end token are the last step of a pass. -/
theorem clausesPass_open (hne : toks ≠ []) (hopen : ∀ l ∈ toks, l.token ≠ .stop) :
    (d.verdict rule classify toks).Before (.finished [] [] [])
      (d.clausesPass rule classify .thorough toks) := by
  have hin := d.clause_inside .thorough rule toks
  rw [d.clausesPass_eq rule classify .thorough toks, if_neg hne, verdict]
  cases hclause : d.clause .thorough rule toks with
  | read t rest a => exact absurd hclause (clause_open_ne_read hopen)
  | miss m a =>
    rw [hclause] at hin
    have hskip : skipClause m.rest = [] := skipClause_open fun l hl => hopen l (hin.1.mem hl)
    simp only [hskip]
    rw [clausesPass_eq, if_pos rfl]
    rfl
  | tooDeep rest => exact ⟨rest, rfl⟩

/-- The pass over a list of clauses has the values and the diagnostics of its
segments, unless one of them nests too deep. -/
theorem clausesPass_verdicts (d : Document) (rule : Rule)
    (classify : Term → Place → Except ClauseError α) (toks : List Lexeme) :
    (d.clausesPass rule classify .thorough toks).Collects (d.verdicts rule classify toks) := by
  induction toks using segments_induction with
  | nil =>
    rw [clausesPass_eq, if_pos rfl]
    exact .nil
  | last run hne hrun =>
    rw [verdicts, segments_open hne hrun]
    exact Pass.Collects.nil.cons (clausesPass_open hne hrun)
  | clause run stop more hrun hstop ih =>
    have hclause := SameClause.of_run more [] hrun hstop
    rw [verdicts, segments_clause hrun hstop, List.map_cons, ← verdict_alike rfl rfl hclause]
    exact ih.cons (clausesPass_clause hclause)

/-! ## Lists of clauses -/

/-- A list of clauses of one kind, as programs and lists of queries are. -/
def clauseList (d : Document) (rule : Rule) (classify : Term → Place → Except ClauseError α) :
    Reading (List α) :=
  (d.drive fun mode => d.clausesPass rule classify mode d.lexemes).map (·.getD [])

theorem program_eq (d : Document) : d.program = d.clauseList .program Clause.ofTerm := rfl

theorem queries_eq (d : Document) : d.queries = d.clauseList .queries queryOf := rfl

/-- A list of clauses has the values and the diagnostics of its segments, unless
one of them nests too deep. -/
theorem clauseList_verdicts (d : Document) (rule : Rule)
    (classify : Term → Place → Except ClauseError α) :
    (Verdict.tooDeep ∈ d.verdicts rule classify d.lexemes ∧
      ∃ fault, (d.clauseList rule classify).result = .error fault) ∨
    (Verdict.tooDeep ∉ d.verdicts rule classify d.lexemes ∧
      d.clauseList rule classify =
        ⟨.ok ((d.verdicts rule classify d.lexemes).filterMap Verdict.value?),
          d.diagnosticsWith ((d.verdicts rule classify d.lexemes).filterMap
            Verdict.diagnostic?)⟩) := by
  have hdrive : (d.drive fun mode => d.clausesPass rule classify mode d.lexemes) =
      d.conclude (d.clausesPass rule classify .thorough d.lexemes) :=
    drive_eq_conclude (clausesPass_agrees d rule classify d.lexemes)
  rw [clauseList, hdrive]
  rcases d.clausesPass_verdicts rule classify d.lexemes with
    ⟨hmem, rest, found, hpass⟩ | ⟨hmem, hpass⟩
  · rw [hpass]
    exact Or.inl ⟨hmem, d.tooDeepAt rest, rfl⟩
  · rw [hpass]
    refine Or.inr ⟨hmem, ?_⟩
    simp [conclude, Reading.map, spurious, Except.map]

/-- Where a list of clauses can be read, no segment of it nests too deep. -/
theorem clauseList_ok {values : List α} (h : (d.clauseList rule classify).result = .ok values) :
    Verdict.tooDeep ∉ d.verdicts rule classify d.lexemes ∧
      values = (d.verdicts rule classify d.lexemes).filterMap Verdict.value? ∧
      (d.clauseList rule classify).diagnostics =
        d.diagnosticsWith ((d.verdicts rule classify d.lexemes).filterMap Verdict.diagnostic?) := by
  rcases d.clauseList_verdicts rule classify with ⟨_, fault, hresult⟩ | ⟨hmem, heq⟩
  · rw [h] at hresult
    cases hresult
  · rw [heq] at h ⊢
    exact ⟨hmem, (Except.ok.inj h).symm, rfl⟩

end Document

end Clausal
