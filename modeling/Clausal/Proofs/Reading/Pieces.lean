import Clausal.Proofs.Reading.Segments
import Clausal.Proofs.Token.Seam

/-
  Pieces — a file that is cut behind a clause and a line end

  A text of whole clauses and what follows it are read in two pieces as they are
  in one, when the second piece begins where the first one ends. What is made of
  a clause depends on its own lexemes alone, and layout before its first lexeme
  is none of it.

  What is proved:
    1. `verdict_relabel` — layout before a segment changes nothing.
    2. `verdicts_closed` — nor does the end of the text, for whole clauses.
    3. `program_append` — a program in two pieces.
-/

namespace Clausal

namespace Reading

variable {l k : Lexeme} {toks : List Lexeme}

/-- Where no term can begin, no primary term does. -/
theorem primary_of_not_startsTerm (style : Style) (sub : Reader) (max : Nat) (rule : Rule)
    (h : (peek toks).startsTerm = false) :
    primary style sub max rule toks = .miss ⟨toks, .termStart rule⟩ none := by
  unfold primary
  cases hpeek : peek toks <;> first | rfl | (rw [hpeek] at h; cases h)

/-- Of its first lexeme a primary term keeps nothing but the token. -/
theorem primary_relabel (style : Style) (sub : Reader) (max : Nat) (rule : Rule)
    (htoken : l.token = k.token) (h : l.token.startsTerm = true) :
    primary style sub max rule (l :: toks) = primary style sub max rule (k :: toks) := by
  have hpeek : peek (k :: toks) = peek (l :: toks) := htoken.symm
  have hstart : (peek (l :: toks)).startsTerm = true := h
  unfold primary
  simp only [hpeek, List.tail_cons]
  cases htok : peek (l :: toks) <;> first | rfl | (rw [htok] at hstart; cases hstart)

end Reading

namespace Document

variable {α : Type} {d d' : Document} {rule : Rule} {classify : Term → Place → Except ClauseError α}
variable {l k : Lexeme} {toks : List Lexeme}

/-! ## Layout before a segment -/

theorem clause_relabel (d : Document) (rule : Rule) (toks : List Lexeme) {depth : Nat}
    (hdepth : d.options.maxDepth = depth + 1) (htoken : l.token = k.token)
    (h : l.token.startsTerm = true) :
    d.clause .thorough rule (l :: toks) = d.clause .thorough rule (k :: toks) := by
  unfold clause reader
  rw [hdepth, Reading.terms_succ]
  show (Reading.start _ _ [] _ _ (l :: toks)).andThen _ =
    (Reading.start _ _ [] _ _ (k :: toks)).andThen _
  rw [Reading.start, Reading.start, Reading.primary_relabel _ _ _ _ htoken h]

theorem clause_of_not_startsTerm (d : Document) (rule : Rule) (toks : List Lexeme) {depth : Nat}
    (hdepth : d.options.maxDepth = depth + 1) (h : (peek toks).startsTerm = false) :
    d.clause .thorough rule toks = .miss ⟨toks, .termStart rule⟩ none := by
  unfold clause reader
  rw [hdepth, Reading.terms_succ]
  show ((Reading.start _ _ [] _ _ toks).andThen _) = _
  rw [Reading.start, Reading.primary_of_not_startsTerm _ _ _ _ h]
  rfl

theorem placeOf_relabel (d : Document) (toks : List Lexeme) (hspan : l.span = k.span) :
    d.placeOf (l :: toks) = d.placeOf (k :: toks) := by
  simp [placeOf, front, hspan]

theorem stretch_relabel (d : Document) (toks : List Lexeme) (hspan : l.span = k.span)
    (rest : List Lexeme) :
    d.stretch (l :: toks) rest = d.stretch (k :: toks) rest := by
  have hplace := d.placeOf_relabel toks hspan
  unfold stretch
  rw [List.length_cons, List.length_cons]
  cases toks.length + 1 - rest.length with
  | zero => exact hplace
  | succ taken =>
    rw [List.take_succ_cons, List.take_succ_cons, hplace]
    cases htake : toks.take taken with
    | nil => simp [hspan]
    | cons first others => rw [List.getLast?_cons_cons, List.getLast?_cons_cons]

/-- Layout before a segment changes nothing. -/
theorem verdict_relabel (d : Document) (rule : Rule)
    (classify : Term → Place → Except ClauseError α) (htoken : l.token = k.token)
    (hspan : l.span = k.span) (toks : List Lexeme) :
    d.verdict rule classify (l :: toks) = d.verdict rule classify (k :: toks) := by
  cases hdepth : d.options.maxDepth with
  | zero =>
    unfold verdict clause reader
    rw [hdepth, Reading.terms_zero]
    rfl
  | succ depth =>
    cases hstart : l.token.startsTerm with
    | true =>
      have hclause := d.clause_relabel rule toks hdepth htoken hstart
      have hplace := d.placeOf_relabel toks hspan
      unfold verdict
      rw [hclause]
      simp only [d.stretch_relabel toks hspan]
    | false =>
      have hstart' : k.token.startsTerm = false := htoken ▸ hstart
      unfold verdict
      rw [d.clause_of_not_startsTerm rule (l :: toks) hdepth hstart,
        d.clause_of_not_startsTerm rule (k :: toks) hdepth hstart']
      simp only [report, Miss.furthest_none, Option.getD_some, d.placeOf_relabel toks hspan]
      simp [front, htoken]

/-- Where the segments of a text end is decided by its tokens. -/
theorem segments_cons (token : Token) (rest : List Lexeme) : ∃ first others, ∀ l : Lexeme,
    l.token = token → segments (l :: rest) = (l :: first) :: others := by
  by_cases htoken : token = .stop
  · refine ⟨[], segments rest, fun l hl => ?_⟩
    show segments ([] ++ l :: rest) = _
    exact segments_clause (by simp) (hl.trans htoken)
  · have hopen : ∀ {l : Lexeme} {run : List Lexeme}, l.token = token →
        (∀ k ∈ run, k.token ≠ .stop) → ∀ k ∈ l :: run, k.token ≠ .stop :=
      fun hl hrun => List.forall_mem_cons.mpr ⟨hl ▸ htoken, hrun⟩
    induction rest using segments_induction with
    | nil => exact ⟨[], [], fun l hl => segments_open (by simp) (hopen hl (by simp))⟩
    | last run _ hrun => exact ⟨run, [], fun l hl => segments_open (by simp) (hopen hl hrun)⟩
    | clause run stop more hrun hstop _ =>
      refine ⟨run ++ [stop], segments more, fun l hl => ?_⟩
      show segments ((l :: run) ++ stop :: more) = _
      exact segments_clause (hopen hl hrun) hstop

theorem verdicts_relabel (d : Document) (rule : Rule)
    (classify : Term → Place → Except ClauseError α) (htoken : l.token = k.token)
    (hspan : l.span = k.span) (rest : List Lexeme) :
    d.verdicts rule classify (l :: rest) = d.verdicts rule classify (k :: rest) := by
  obtain ⟨first, others, hsegments⟩ := segments_cons l.token rest
  rw [verdicts, verdicts, hsegments l rfl, hsegments k htoken.symm, List.map_cons, List.map_cons,
    verdict_relabel d rule classify htoken hspan]

/-! ## Whole clauses -/

/-- What whole clauses come to does not depend on where the text ends. -/
theorem verdicts_closed (hfile : d.file = d'.file) (hoptions : d.options = d'.options)
    (toks : List Lexeme) (hlast : ∀ l ∈ toks.getLast?, l.token = .stop) :
    d.verdicts rule classify toks = d'.verdicts rule classify toks := by
  induction toks using segments_induction with
  | nil => rfl
  | last run hne hrun =>
    have hmem := List.getLast_mem hne
    exact absurd (hlast _ (List.getLast?_eq_some_getLast hne)) (hrun _ hmem)
  | clause run stop more hrun hstop ih =>
    have hmore : ∀ l ∈ more.getLast?, l.token = .stop := by
      intro l hl
      refine hlast l ?_
      rw [List.getLast?_append, List.getLast?_cons]
      rw [Option.mem_def.mp hl]
      rfl
    rw [verdicts, verdicts, segments_clause hrun hstop, List.map_cons, List.map_cons]
    congr 1
    · exact verdict_alike hfile hoptions (SameClause.of_run [] [] hrun hstop)
    · exact ih hmore

/-! ## Two pieces -/

theorem verdict_congr (hfile : d.file = d'.file) (hoptions : d.options = d'.options)
    (heof : d.eof = d'.eof) : d.verdict rule classify = d'.verdict rule classify := by
  obtain ⟨_, eof, _, file, options⟩ := d
  obtain ⟨_, eof', _, file', options'⟩ := d'
  obtain rfl : file = file' := hfile
  obtain rfl : options = options' := hoptions
  obtain rfl : eof = eof' := heof
  rfl

/-- Layout before the first of all lexemes is seen in nothing that is made of them. -/
theorem verdicts_behind (hfile : d.file = d'.file) (hoptions : d.options = d'.options)
    {r : Lexed} {gap : Bool} (heof : d.eof = (r.behind gap).eof) (heof' : d'.eof = r.eof) :
    d.verdicts rule classify (r.behind gap).lexemes = d'.verdicts rule classify r.lexemes := by
  obtain ⟨lexemes, eof, errors⟩ := r
  cases lexemes with
  | nil => rfl
  | cons l rest =>
    have hsame : d.verdict rule classify = d'.verdict rule classify :=
      verdict_congr hfile hoptions (heof.trans heof'.symm)
    have hrelabel := verdicts_relabel d rule classify (k := l)
      (l := { l with layoutBefore := gap || l.layoutBefore }) rfl rfl rest
    calc d.verdicts rule classify ({ l with layoutBefore := gap || l.layoutBefore } :: rest)
        = d.verdicts rule classify (l :: rest) := hrelabel
      _ = d'.verdicts rule classify (l :: rest) := by rw [verdicts, verdicts, hsame]

section

variable {head tail : String} {origin next : Place} {options : Options}

/-- A text of whole clauses that ends with a line end and what follows it are made the
same of in two pieces, and the problems of their characters are the same. -/
theorem ofText_append (tail : String) (options : Options) (hlines : Text.Lines head.toList)
    (hclosed : (tokenize head origin.position).Closed)
    (hlast : ∀ l ∈ (tokenize head origin.position).lexemes.getLast?, l.token = .stop)
    (hfile : next.file = origin.file)
    (hnext : next.position = origin.position.after head.toList)
    (rule : Rule) (classify : Term → Place → Except ClauseError α) :
    (ofText (head ++ tail) origin options).lexical =
        (ofText head origin options).lexical ++ (ofText tail next options).lexical ∧
      (ofText (head ++ tail) origin options).verdicts rule classify
          (ofText (head ++ tail) origin options).lexemes =
        (ofText head origin options).verdicts rule classify (ofText head origin options).lexemes ++
          (ofText tail next options).verdicts rule classify
            (ofText tail next options).lexemes := by
  obtain ⟨gap, behind, hbehind, hwhole⟩ := tokenize_append tail hlines hclosed
  rw [← hnext] at hbehind hwhole
  constructor
  · simp [ofText, hwhole, hfile]
  · have hlexemes : (ofText (head ++ tail) origin options).lexemes =
        (tokenize head origin.position).lexemes ++ behind.lexemes := by rw [ofText, hwhole]
    have heof : (ofText (head ++ tail) origin options).eof = behind.eof := by rw [ofText, hwhole]
    have hfirst : (ofText (head ++ tail) origin options).verdicts rule classify
        (tokenize head origin.position).lexemes =
          (ofText head origin options).verdicts rule classify
            (ofText head origin options).lexemes := by
      refine verdicts_closed ?_ ?_ _ hlast <;> rfl
    have hsecond : (ofText (head ++ tail) origin options).verdicts rule classify behind.lexemes =
        (ofText tail next options).verdicts rule classify (ofText tail next options).lexemes := by
      rw [hbehind] at heof ⊢
      refine verdicts_behind ?_ ?_ heof ?_
      · exact hfile.symm
      · rfl
      · rfl
    rw [hlexemes, ← hfirst, ← hsecond, verdicts, segments_append hlast, List.map_append]
    rfl

/-- Lists of clauses that can be read in two pieces can be read in one, and come to the
same. -/
theorem clauseList_append (hlines : Text.Lines head.toList)
    (hclosed : (tokenize head origin.position).Closed)
    (hlast : ∀ l ∈ (tokenize head origin.position).lexemes.getLast?, l.token = .stop)
    (hfile : next.file = origin.file)
    (hnext : next.position = origin.position.after head.toList) {xs ys : List α}
    (hhead : ((ofText head origin options).clauseList rule classify).result = .ok xs)
    (htail : ((ofText tail next options).clauseList rule classify).result = .ok ys) :
    let whole := (ofText (head ++ tail) origin options).clauseList rule classify
    whole.result = .ok (xs ++ ys) ∧ ∀ e, e ∈ whole.diagnostics ↔
      e ∈ ((ofText head origin options).clauseList rule classify).diagnostics ∨
        e ∈ ((ofText tail next options).clauseList rule classify).diagnostics := by
  intro whole
  obtain ⟨hlexical, hverdicts⟩ := ofText_append tail options hlines hclosed hlast
    hfile hnext rule classify
  obtain ⟨hdeepHead, rfl, hdiagHead⟩ := clauseList_ok hhead
  obtain ⟨hdeepTail, rfl, hdiagTail⟩ := clauseList_ok htail
  rcases (ofText (head ++ tail) origin options).clauseList_verdicts rule classify with
    ⟨hmem, _⟩ | ⟨_, hwhole⟩
  · rw [hverdicts, List.mem_append] at hmem
    exact absurd hmem (not_or.mpr ⟨hdeepHead, hdeepTail⟩)
  · have hresult : whole = _ := hwhole
    rw [hresult, hverdicts, List.filterMap_append, List.filterMap_append]
    refine ⟨rfl, fun e => ?_⟩
    simp only [hdiagHead, hdiagTail, diagnosticsWith, DiagnosticSet.mem_ofList, hlexical,
      List.mem_append]
    tauto

/-- A program is read in two pieces as it is in one: a first piece of whole clauses
that ends with a line end and leaves no quote and no comment open, and a second piece
that begins in the line and at the offset where the first one ends. -/
theorem program_append {clauses others : List Clause} (horigin : origin.position = .start)
    (hfile : next.file = origin.file)
    (hnext : next.position = ⟨1 + head.toList.count '\n', 1, head.length⟩)
    (hends : head.toList.getLast? = some '\n')
    (hclosed : (tokenize head .start).Closed)
    (hlast : ∀ l ∈ (tokenize head .start).lexemes.getLast?, l.token = .stop)
    (hhead : (ofText head origin options).program.result = .ok clauses)
    (htail : (ofText tail next options).program.result = .ok others) :
    (ofText (head ++ tail) origin options).program.result = .ok (clauses ++ others) ∧
      ∀ e, e ∈ (ofText (head ++ tail) origin options).program.diagnostics ↔
        e ∈ (ofText head origin options).program.diagnostics ∨
          e ∈ (ofText tail next options).program.diagnostics := by
  have hafter : next.position = origin.position.after head.toList := by
    rw [horigin, Position.after_endsLine hends, hnext, String.length_toList]
    simp [Position.start]
  rw [← horigin] at hclosed hlast
  exact clauseList_append (Or.inr hends) hclosed hlast hfile hafter hhead htail

end

/-- An atom that is no operator and may be a fact is a program. -/
theorem program_atom {l stop : Lexeme} {name : String} (hlexemes : d.lexemes = [l, stop])
    (hdepth : d.options.maxDepth ≠ 0) (hl : l.token = .name name) (hstop : stop.token = .stop)
    (hname : Operator.before? name = none) (hfact : checkClause (.atom name) = .ok ()) :
    d.program.result = .ok [⟨.atom name, d.stretch [l, stop] []⟩] := by
  have hne : ∀ k ∈ [l], k.token ≠ .stop := by simp [hl]
  have hsegments : segments ([l] ++ [stop]) = [[l] ++ [stop]] := segments_clause hne hstop
  have hvalue : d.verdict .program Clause.ofTerm [l, stop] =
      .value ⟨.atom name, d.stretch [l, stop] []⟩ :=
    verdict_atom hdepth hl hstop hname (by rw [Clause.ofTerm, hfact]; rfl)
  have hverdicts : d.verdicts .program Clause.ofTerm d.lexemes =
      [.value ⟨.atom name, d.stretch [l, stop] []⟩] := by
    rw [hlexemes, verdicts, show segments [l, stop] = [[l, stop]] from hsegments,
      List.map_singleton, hvalue]
  rcases d.clauseList_verdicts .program Clause.ofTerm with ⟨hmem, _⟩ | ⟨_, heq⟩
  · simp [hverdicts] at hmem
  · rw [program_eq, heq, hverdicts]
    rfl

/-- `a.` and `b.` on two lines, the second one as a piece of its own. -/
theorem program_append_lines :
    let origin : Place := ⟨none, 1, 1, 0, 0⟩
    let next : Place := ⟨none, 2, 1, 3, 3⟩
    let a : Clause := ⟨.atom "a", ⟨none, 1, 1, 0, 2⟩⟩
    let b : Clause := ⟨.atom "b", ⟨none, 2, 1, 3, 5⟩⟩
    (ofText "a.\n" origin {}).program.result = .ok [a] ∧
      (ofText "b." next {}).program.result = .ok [b] ∧
      (ofText ("a.\n" ++ "b.") origin {}).program.result = .ok [a, b] ∧
      ∀ e, e ∈ (ofText ("a.\n" ++ "b.") origin {}).program.diagnostics ↔
        e ∈ (ofText "a.\n" origin {}).program.diagnostics ∨
          e ∈ (ofText "b." next {}).program.diagnostics := by
  intro origin next a b
  have hfirst : (ofText "a.\n" origin {}).lexemes =
      [⟨.name "a", ⟨1, 1, 0, 1⟩, false⟩, ⟨.stop, ⟨1, 2, 1, 2⟩, false⟩] := by decide +kernel
  have hsecond : (ofText "b." next {}).lexemes =
      [⟨.name "b", ⟨2, 1, 3, 4⟩, false⟩, ⟨.stop, ⟨2, 2, 4, 5⟩, false⟩] := by decide +kernel
  have herrors : (tokenize "a.\n" .start).errors = [] := by decide +kernel
  have hhead : (ofText "a.\n" origin {}).program.result = .ok [a] :=
    program_atom hfirst (by decide) rfl rfl (by decide) (by decide)
  have htail : (ofText "b." next {}).program.result = .ok [b] :=
    program_atom hsecond (by decide) rfl rfl (by decide) (by decide)
  have hclosed : (tokenize "a.\n" .start).Closed := by simp [Lexed.Closed, herrors]
  have hlast : ∀ l ∈ (tokenize "a.\n" .start).lexemes.getLast?, l.token = .stop := by
    intro l hl
    rw [show (tokenize "a.\n" .start).lexemes = _ from hfirst] at hl
    cases hl
    rfl
  have hfile : next.file = origin.file := rfl
  exact ⟨hhead, htail,
    program_append rfl hfile (by decide) (by decide) hclosed hlast hhead htail⟩

end Document

end Clausal
