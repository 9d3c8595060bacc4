import Clausal.Proofs.Reading.Segments
import Clausal.Proofs.Token.Tiling
import Mathlib.Data.List.Forall2

/-
  Accounts — every clause of a list is accounted for once

  Each segment of a list of clauses comes to one value or to one diagnostic, the
  same as when it is read alone, and what is wrong in one segment leaves the
  others as they are. A diagnostic begins at a lexeme of its segment, so no two
  of them are the same, and none is one of the characters.

  What is proved:
    1. `clauseList_alone` — what a segment alone is read as.
    2. `diagnostics_spread` — the diagnostics of a list begin one behind the other.
    3. `clauses_accounted` — programs and lists of queries are accounted for.
-/

namespace Clausal

/-- The lexemes by themselves, before the end of the text. -/
def Document.alone (d : Document) (toks : List Lexeme) : Document :=
  { d with lexemes := toks, lexical := [] }

/-- The values that a list of clauses is read as, and its diagnostics, are those of
its segments: each one alone has one value, or none and one diagnostic. -/
structure Document.Accounted {α : Type} (d : Document) (entry : Document → Reading (List α))
    (values : List α) : Prop where
  each : ∀ part ∈ segments d.lexemes, (∃ v, entry (d.alone part) = ⟨.ok [v], ∅⟩) ∨
    ∃ e, entry (d.alone part) = ⟨.ok [], .ofList [e]⟩
  inOrder : ∃ parts, values = parts.flatten ∧
    List.Forall₂ (fun part vs => (entry (d.alone part)).result = .ok vs) (segments d.lexemes) parts
  diagnostics : ∀ e, e ∈ (entry d).diagnostics ↔
    e ∈ d.lexical ∨ ∃ part ∈ segments d.lexemes, e ∈ (entry (d.alone part)).diagnostics
  count : values.length + ((entry d).diagnostics.items.filter (· ∉ d.lexical)).length =
    (segments d.lexemes).length

namespace Document

variable {α : Type} {d : Document} {rule : Rule} {classify : Term → Place → Except ClauseError α}
variable {toks : List Lexeme} {e : Diagnostic}

/-! ## A segment alone -/

theorem segments_of_mem {part : List Lexeme} (h : part ∈ segments toks) :
    segments part = [part] :=
  List.splitBy_of_isChain (List.ne_nil_of_mem_splitBy h) (List.isChain_of_mem_splitBy h)

/-- A segment alone is read as what is made of it in its list. -/
theorem clauseList_alone (d : Document) (rule : Rule)
    (classify : Term → Place → Except ClauseError α) {part : List Lexeme}
    (h : part ∈ segments toks)
    (hdeep : d.verdict rule classify part ≠ .tooDeep) :
    (d.alone part).clauseList rule classify =
      ⟨.ok (d.verdict rule classify part).value?.toList,
        .ofList (d.verdict rule classify part).diagnostic?.toList⟩ := by
  have hverdicts : (d.alone part).verdicts rule classify (d.alone part).lexemes =
      [d.verdict rule classify part] := by
    show (segments part).map _ = _
    rw [segments_of_mem h]
    rfl
  rcases (d.alone part).clauseList_verdicts rule classify with ⟨hmem, _⟩ | ⟨_, heq⟩
  · rw [hverdicts, List.mem_singleton] at hmem
    exact absurd hmem.symm hdeep
  · rw [heq, hverdicts, List.filterMap_eq_flatMap_toList, List.filterMap_eq_flatMap_toList,
      List.flatMap_singleton, List.flatMap_singleton]
    rfl

/-! ## Where diagnostics begin -/

/-- The diagnostic begins where one of the lexemes does. -/
def BeginsIn (lexemes : List Lexeme) (e : Diagnostic) : Prop :=
  ∃ l ∈ lexemes, e.place.start = l.span.start

theorem front_beginsIn (part : List Lexeme) (h : part <:+ toks)
    (he : e.place.start = (d.front part).span.start) : BeginsIn (toks ++ [d.eof]) e := by
  refine ⟨d.front part, ?_, he⟩
  cases part with
  | nil => exact List.mem_append_right _ List.mem_cons_self
  | cons l rest => exact List.mem_append_left _ (h.mem List.mem_cons_self)

theorem stretch_start (d : Document) (toks rest : List Lexeme) :
    (d.stretch toks rest).start = (d.front toks).span.start := by
  unfold stretch
  split <;> rfl

theorem verdict_beginsIn (h : d.verdict rule classify toks = .faulty e) :
    BeginsIn (toks ++ [d.eof]) e := by
  have hin := d.clause_inside .thorough rule toks
  unfold verdict at h
  cases hclause : d.clause .thorough rule toks with
  | read t rest a =>
    simp only [hclause] at h
    cases hclassify : classify t (d.stretch toks rest) with
    | ok v =>
      rw [hclassify] at h
      cases h
    | error fault =>
      rw [hclassify] at h
      cases h
      exact front_beginsIn toks List.suffix_rfl (d.stretch_start toks rest)
  | miss m a =>
    rw [hclause] at h hin
    cases h
    refine front_beginsIn ((Miss.furthest (some m) a).getD m).rest ?_ rfl
    cases htold : Miss.furthest (some m) a with
    | none => exact hin.1
    | some told =>
      rcases Outcome.mem_furthest (show told ∈ _ from htold) with hm | ha
      · cases hm
        exact hin.1
      · exact hin.2 told ha
  | tooDeep rest =>
    rw [hclause] at h
    cases h

/-- Of a clause the end token is its last lexeme, wherever the text ends. -/
theorem verdict_beginsIn_clause {run : List Lexeme} {stop : Lexeme}
    (hrun : ∀ l ∈ run, l.token ≠ .stop) (hstop : stop.token = .stop)
    (h : d.verdict rule classify (run ++ [stop]) = .faulty e) : BeginsIn (run ++ [stop]) e := by
  have hsame : d.verdict rule classify (run ++ [stop]) =
      Document.verdict { d with eof := stop } rule classify (run ++ [stop]) :=
    verdict_alike rfl rfl (SameClause.of_run [] [] hrun hstop)
  obtain ⟨l, hl, he⟩ := verdict_beginsIn (hsame.symm.trans h)
  refine ⟨l, ?_, he⟩
  rcases List.mem_append.mp hl with hl | hl
  · exact hl
  · exact List.mem_append_right _ hl

/-- The lexemes begin one behind the other. -/
def Ascending (lexemes : List Lexeme) : Prop :=
  lexemes.Pairwise fun a b => a.span.start < b.span.start

/-- So do the diagnostics of their segments. -/
theorem diagnostics_spread (d : Document) (rule : Rule)
    (classify : Term → Place → Except ClauseError α) (toks : List Lexeme)
    (h : Ascending (toks ++ [d.eof])) :
    ((d.verdicts rule classify toks).filterMap Verdict.diagnostic?).Pairwise
      (fun e f => e.place.start < f.place.start) ∧
    ∀ e ∈ (d.verdicts rule classify toks).filterMap Verdict.diagnostic?,
      BeginsIn (toks ++ [d.eof]) e := by
  induction toks using segments_induction with
  | nil => simp [verdicts]
  | last run hne hrun =>
    rw [verdicts, segments_open hne hrun, List.map_singleton]
    cases hverdict : d.verdict rule classify run with
    | faulty e => simpa [Verdict.diagnostic?] using verdict_beginsIn hverdict
    | _ => exact ⟨List.Pairwise.nil, List.forall_mem_nil _⟩
  | clause run stop more hrun hstop ih =>
    have hsplit : (run ++ stop :: more) ++ [d.eof] = (run ++ [stop]) ++ (more ++ [d.eof]) := by
      simp
    rw [hsplit] at h ⊢
    obtain ⟨_, hmore, hbefore⟩ := List.pairwise_append.mp h
    obtain ⟨hascending, hbegins⟩ := ih hmore
    rw [verdicts, segments_clause hrun hstop, List.map_cons]
    have hbehind : ∀ e ∈ (d.verdicts rule classify more).filterMap Verdict.diagnostic?,
        BeginsIn ((run ++ [stop]) ++ (more ++ [d.eof])) e := by
      intro e he
      obtain ⟨l, hl, hstart⟩ := hbegins e he
      exact ⟨l, List.mem_append_right _ hl, hstart⟩
    cases hverdict : d.verdict rule classify (run ++ [stop]) with
    | faulty e =>
      obtain ⟨l, hl, hstart⟩ := verdict_beginsIn_clause hrun hstop hverdict
      have hfirst : BeginsIn ((run ++ [stop]) ++ (more ++ [d.eof])) e :=
        ⟨l, List.mem_append_left _ hl, hstart⟩
      refine ⟨List.pairwise_cons.mpr ⟨fun f hf => ?_, hascending⟩,
        List.forall_mem_cons.mpr ⟨hfirst, hbehind⟩⟩
      obtain ⟨k, hk, hlater⟩ := hbegins f hf
      rw [hstart, hlater]
      exact hbefore l hl k hk
    | _ => exact ⟨hascending, hbehind⟩

/-! ## Every clause once -/

/-- The places of the characters that are no tokens, and of the lexemes, are all
different. -/
structure Spread (d : Document) : Prop where
  ascending : Ascending (d.lexemes ++ [d.eof])
  lexical : ∀ e ∈ d.lexical, ¬ BeginsIn (d.lexemes ++ [d.eof]) e

theorem ofText_spread (text : String) (origin : Place) (options : Options) :
    (ofText text origin options).Spread := by
  have hrun := (Lexer.ofText text origin.position).run_spread
  obtain ⟨new, herrors, hnew⟩ := hrun.errors
  refine ⟨hrun.ascending, ?_⟩
  intro e he hbegins
  obtain ⟨fault, hfault, rfl⟩ := List.mem_map.mp he
  obtain ⟨l, hl, hstart⟩ := hbegins
  have hmem : fault ∈ [] ++ new := herrors ▸ hfault
  exact (hnew fault hmem).2 l hl hstart

theorem ne_of_start_lt {e f : Diagnostic} (h : e.place.start < f.place.start) : e ≠ f := by
  rintro rfl
  exact Nat.lt_irrefl _ h

/-- Of a list behind others, the set has all that are not among the others. -/
theorem length_fresh {lexical ds : List Diagnostic} (hfresh : ∀ e ∈ ds, e ∉ lexical)
    (hnodup : ds.Nodup) :
    ((DiagnosticSet.ofList (lexical ++ ds)).items.filter (· ∉ lexical)).length = ds.length := by
  refine List.Perm.length_eq ((List.perm_ext_iff_of_nodup
    ((DiagnosticSet.nodup _).filter _) hnodup).mpr fun e => ?_)
  have hmem : e ∈ (DiagnosticSet.ofList (lexical ++ ds)).items ↔ e ∈ lexical ∨ e ∈ ds :=
    DiagnosticSet.mem_ofList.trans List.mem_append
  rw [List.mem_filter, hmem]
  constructor
  · rintro ⟨hlexical | he, hnot⟩
    · exact absurd hlexical (by simpa using hnot)
    · exact he
  · exact fun he => ⟨Or.inr he, by simpa using hfresh e he⟩

/-- A verdict that is no nesting too deep is a value or a diagnostic. -/
theorem values_add_diagnostics {verdicts : List (Verdict α)} (h : Verdict.tooDeep ∉ verdicts) :
    (verdicts.filterMap Verdict.value?).length +
      (verdicts.filterMap Verdict.diagnostic?).length = verdicts.length := by
  induction verdicts with
  | nil => rfl
  | cons verdict verdicts ih =>
    have hrest := ih fun hmem => h (List.mem_cons_of_mem _ hmem)
    cases verdict with
    | value v =>
      simp only [List.filterMap_cons, Verdict.value?, Verdict.diagnostic?, List.length_cons]
      omega
    | faulty e =>
      simp only [List.filterMap_cons, Verdict.value?, Verdict.diagnostic?, List.length_cons]
      omega
    | tooDeep => exact absurd List.mem_cons_self h

theorem verdict_ne_tooDeep (h : Verdict.tooDeep ∉ d.verdicts rule classify toks) :
    ∀ part ∈ segments toks, d.verdict rule classify part ≠ .tooDeep :=
  fun _ hpart htoo => h (List.mem_map.mpr ⟨_, hpart, htoo⟩)

/-- Where a list of clauses can be read, it is accounted for segment by segment. -/
theorem clauseList_accounted (hspread : d.Spread) {values : List α}
    (h : (d.clauseList rule classify).result = .ok values) :
    d.Accounted (clauseList · rule classify) values := by
  obtain ⟨hdeep, hvalues, hdiagnostics⟩ := clauseList_ok h
  have hne := verdict_ne_tooDeep hdeep
  obtain ⟨hascending, hbegins⟩ :=
    d.diagnostics_spread rule classify d.lexemes hspread.ascending
  have halone := fun part hpart => d.clauseList_alone rule classify hpart (hne part hpart)
  constructor
  case each =>
    intro part hpart
    rw [halone part hpart]
    cases hverdict : d.verdict rule classify part with
    | value v => exact Or.inl ⟨v, rfl⟩
    | faulty e => exact Or.inr ⟨e, rfl⟩
    | tooDeep => exact absurd hverdict (hne part hpart)
  case inOrder =>
    refine ⟨(segments d.lexemes).map fun part => (d.verdict rule classify part).value?.toList,
      ?_, ?_⟩
    · rw [hvalues, verdicts, List.filterMap_eq_flatMap_toList, List.flatMap_map]
      rfl
    · rw [List.forall₂_map_right_iff, List.forall₂_same]
      intro part hpart
      rw [halone part hpart]
  case diagnostics =>
    intro e
    rw [hdiagnostics, diagnosticsWith, DiagnosticSet.mem_ofList, List.mem_append]
    refine or_congr_right ?_
    simp only [verdicts, List.mem_filterMap, List.mem_map, exists_exists_and_eq_and]
    refine exists_congr fun part => and_congr_right fun hpart => ?_
    rw [halone part hpart, DiagnosticSet.mem_ofList, Option.mem_toList]
  case count =>
    have hfresh : ∀ e ∈ (d.verdicts rule classify d.lexemes).filterMap Verdict.diagnostic?,
        e ∉ d.lexical := fun e he hlexical => hspread.lexical e hlexical (hbegins e he)
    rw [hdiagnostics, diagnosticsWith, length_fresh hfresh (hascending.imp ne_of_start_lt),
      hvalues, values_add_diagnostics hdeep, verdicts, List.length_map]

/-- Wherever the clauses or the queries of a text can be read, they are accounted for
segment by segment. -/
theorem clauses_accounted (text : String) (origin : Place) (options : Options) :
    let d := ofText text origin options
    (∀ clauses, d.program.result = .ok clauses → d.Accounted program clauses) ∧
      ∀ queries, d.queries.result = .ok queries → d.Accounted Document.queries queries := by
  intro d
  have hspread : d.Spread := ofText_spread text origin options
  constructor
  · intro clauses h
    rw [program_eq] at h
    exact clauseList_accounted hspread h
  · intro queries h
    rw [queries_eq] at h
    exact clauseList_accounted hspread h

/-- In `a. ).` the second clause is at fault, and the first one stands. -/
theorem clauses_accounted_fault :
    let d := ofText "a. )." .origin {}
    let place : Place := ⟨none, 1, 1, 0, 2⟩
    (d.program.result = .ok [⟨.atom "a", place⟩] ∧ d.Accounted program [⟨.atom "a", place⟩]) ∧
      d.queries.result = .ok [⟨.atom "a", place⟩] ∧
      d.Accounted Document.queries [⟨.atom "a", place⟩] := by
  intro d place
  let a : Lexeme := ⟨.name "a", ⟨1, 1, 0, 1⟩, false⟩
  let first : Lexeme := ⟨.stop, ⟨1, 2, 1, 2⟩, false⟩
  let close : Lexeme := ⟨.closeRound, ⟨1, 4, 3, 4⟩, true⟩
  let second : Lexeme := ⟨.stop, ⟨1, 5, 4, 5⟩, false⟩
  have hlexemes : d.lexemes = [a, first, close, second] := by decide +kernel
  have hread : ∀ {α : Type} (rule : Rule) (classify : Term → Place → Except ClauseError α) (v : α),
      classify (.atom "a") place = .ok v → (d.clauseList rule classify).result = .ok [v] := by
    intro α rule classify v hv
    have hplace : d.stretch [a, first] [] = place := by decide +kernel
    have hvalue : d.verdict rule classify [a, first] = .value v :=
      verdict_atom (by decide) rfl rfl (by decide) (by rw [hplace]; exact hv)
    obtain ⟨e, hfaulty⟩ : ∃ e, d.verdict rule classify [close, second] = .faulty e := ⟨_, rfl⟩
    have hverdicts : d.verdicts rule classify d.lexemes = [.value v, .faulty e] := by
      have hsegments : segments [a, first, close, second] = [[a, first], [close, second]] := rfl
      rw [hlexemes, verdicts, hsegments, List.map_cons, List.map_singleton, hvalue, hfaulty]
    rcases d.clauseList_verdicts rule classify with ⟨hmem, _⟩ | ⟨_, heq⟩
    · simp [hverdicts] at hmem
    · rw [heq, hverdicts]
      rfl
  have hprogram : d.program.result = .ok [⟨.atom "a", place⟩] := hread _ _ _ rfl
  have hqueries : d.queries.result = .ok [⟨.atom "a", place⟩] := hread _ _ _ rfl
  have haccounted := clauses_accounted "a. )." .origin {}
  exact ⟨⟨hprogram, haccounted.1 _ hprogram⟩, hqueries, haccounted.2 _ hqueries⟩

end Document

end Clausal
