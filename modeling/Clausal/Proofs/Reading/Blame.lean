import Clausal.Proofs.Reading.Clean
import Clausal.Proofs.Reading.Foresight

/-
  Blame — whether the lexeme that a diagnostic names really cannot stand there

  A clause that cannot be read gets a diagnostic at one of its lexemes. If the lexemes
  up to that one decide that no clause begins with them, the diagnostic is final: however
  the clause went on, it would be at fault. It need not be. Reading may have turned back
  from a place further on that it does not remember, and then a clause that begins with
  the same lexemes can be read after all. The attentive reader remembers all such places,
  and the lexeme that it names is final in every case; so one is final just when the
  attentive reader names the same.

  What is proved:
    1. `clause_foreseen` — the first lexemes of a clause that cannot be read decide that,
       or the attentive reader looked behind them and they begin a clause.
    2. `syntaxFault_final_iff` — when a diagnostic is final.
    3. `not_syntaxFault_final` — one that is not: `p :- \+ a b.` is blamed at `a`, with
       which `p :- \+ a.` goes on.
-/

namespace Clausal

/-! ## What is told of a miss -/

/-- Of a miss and the furthest one abandoned, the one that is told. -/
def Miss.told (m : Miss) (a : Option Miss) : Miss := (Miss.furthest (some m) a).getD m

theorem Miss.told_mem (m : Miss) (a : Option Miss) :
    m.told a ∈ Miss.furthest (some m) a := by
  cases a with
  | none => rfl
  | some m' =>
    simp only [told, furthest]
    split <;> rfl

namespace Outcome

variable {α : Type} {o o' : Outcome α} {n : Nat}

/-- A miss passes a place when what is told of it does. -/
theorem passes_miss {m : Miss} {a : Option Miss} :
    (miss m a : Outcome α).Passes n ↔ (m.told a).rest.length ≤ n := by
  constructor
  · intro h
    have hfurthest : ∃ x ∈ Miss.furthest (some m) a, x.rest.length ≤ n :=
      Miss.exists_furthest_le (h.imp_left fun hm => ⟨m, rfl, hm⟩)
    obtain ⟨x, hx, hle⟩ := hfurthest
    have htold := Miss.told_mem m a
    rw [Option.mem_def] at hx htold
    rw [hx] at htold
    exact Option.some.inj htold ▸ hle
  · intro h
    rcases mem_furthest (Miss.told_mem m a) with hm | ha
    · exact .inl (Option.some.inj hm ▸ h)
    · exact .inr ⟨_, ha, h⟩

theorem Recalls.passes (h : o.Recalls o') (hpasses : o'.Passes n) : o.Passes n := by
  cases h with
  | read ha =>
    refine hpasses.imp_right fun ⟨m, hm, hle⟩ => ?_
    obtain ⟨m', hm', hle'⟩ := ha m hm
    exact ⟨m', hm', Nat.le_trans hle' hle⟩
  | miss ha =>
    refine hpasses.imp_right fun ⟨m, hm, hle⟩ => ?_
    obtain ⟨m', hm', hle'⟩ := ha m hm
    exact ⟨m', hm', Nat.le_trans hle' hle⟩
  | tooDeep => trivial

/-- The outcome is a miss, told where these lexemes are left. -/
def Blames (rest : List Lexeme) : Outcome α → Prop
  | .miss m a => (m.told a).rest = rest
  | _ => False

theorem Inside.told {toks : List Lexeme} {m : Miss} {a : Option Miss}
    (h : (miss m a : Outcome α).Inside toks) : (m.told a).rest <:+ toks := by
  rcases mem_furthest (Miss.told_mem m a) with hm | ha
  · exact Option.some.inj hm ▸ h.1
  · exact h.2 _ ha

/-- Where one outcome is told, another one that recalls it is told there too or behind. -/
theorem Recalls.blames_iff {toks rest : List Lexeme} {l : Lexeme} (h : o.Recalls o')
    (hinside : o.Inside toks) (hblames : o'.Blames (l :: rest)) (hrest : l :: rest <:+ toks) :
    o.Blames (l :: rest) ↔ ¬ o.Passes rest.length := by
  cases h with
  | read ha => cases hblames
  | tooDeep => cases hblames
  | @miss m a a' ha =>
    have hreaches : (m.told a).rest.length ≤ (l :: rest).length := by
      have htold : (m.told a').rest = l :: rest := hblames
      have hrecalls : (Outcome.miss m a : Outcome α).Recalls (.miss m a') := .miss ha
      exact passes_miss.mp (hrecalls.passes (passes_miss.mpr (Nat.le_of_eq (by rw [htold]))))
    rw [passes_miss]
    constructor
    · intro hsame
      have htold : (m.told a).rest = l :: rest := hsame
      rw [htold]
      exact Nat.not_succ_le_self _
    · intro hshort
      have hlength : (m.told a).rest.length = (l :: rest).length := by
        rw [List.length_cons] at hreaches ⊢
        omega
      have hsuffix := List.suffix_of_suffix_length_le hinside.told hrest (Nat.le_of_eq hlength)
      exact hsuffix.eq_of_length hlength

end Outcome

open Outcome (Recalls)

/-! ## The same words -/

/-- The lexemes differ in nothing but their places. -/
def SameWords (toks toks' : List Lexeme) : Prop := toks.map Lexeme.word = toks'.map Lexeme.word

instance SameWords.likeness : Likeness SameWords where
  word h := by
    rw [← List.head?_map, ← List.head?_map, h]
  tail h _ := by
    unfold SameWords at h ⊢
    rw [List.map_tail, List.map_tail, h]
  shorter h hrest := by
    have hlength := congrArg List.length h
    have hrestLength := congrArg List.length hrest
    simp only [List.length_map] at hlength hrestLength
    rw [hlength, hrestLength]

namespace Reading

variable {style : Style} {sub : Reader} {l : Lexeme} {more : List Lexeme} {name : String}

theorem primary_atom (hl : l.token = .name name) (hname : Operator.before? name = none)
    (hopens : opensArguments more = false) (max : Nat) (rule : Rule) :
    primary style sub max rule (l :: more) = .read (.atom name, 0) more none := by
  have hminus : name ≠ "-" := by
    rintro rfl
    exact absurd hname (by decide)
  simp [primary, peek, hl, nameTerm, hopens, hminus, hname, simple]

/-- An atom that is no operator, with no operator behind it. -/
theorem operators_atom (hl : l.token = .name name) (hname : Operator.before? name = none)
    (hopens : opensArguments more = false) {max : Nat} (rule : Rule)
    (hbehind : continuation 0 max (peek more) = none) :
    operators style sub max rule (l :: more) = .read (.atom name, 0) more none := by
  rw [operators_eq_start, start_of_primary [] (primary_atom hl hname hopens max rule),
    resume_nil hbehind]

end Reading

namespace Document

variable {d d' : Document} {rule : Rule} {toks toks' part : List Lexeme}

/-- Lexemes that differ in their places alone are missed alike. -/
theorem clause_miss_of_sameWords {m : Miss} {a : Option Miss} (hoptions : d'.options = d.options)
    (h : SameWords toks toks') (hmiss : d.clause .thorough rule toks = .miss m a) :
    ∃ m' a', d'.clause .thorough rule toks' = .miss m' a' := by
  have hreader : d'.reader .thorough = d.reader .thorough := by rw [reader, reader, hoptions]
  have hread : Reading.ReadAlike SameWords False (d.reader .thorough) (d'.reader .thorough) :=
    hreader ▸ Reading.terms_alike _ (Nat.le_refl _) (Nat.lt_irrefl _)
  have halike : Outcome.Alike SameWords False Eq (fun _ _ => True)
      (d.clause .thorough rule toks) (d'.clause .thorough rule toks') := by
    refine Outcome.alike_andThen (hread maxPriority rule h) ?_
    rintro ⟨t, priority⟩ _ rest rest' _ rfl hrest
    refine Outcome.alike_map_same _ ?_
    unfold expect
    rw [← Likeness.peek hrest]
    split
    · exact .read rfl trivial .none
    · exact .miss ⟨rfl, hrest⟩ .none
  rw [hmiss] at halike
  generalize d'.clause .thorough rule toks' = o' at halike ⊢
  cases halike with
  | miss _ _ => exact ⟨_, _, rfl⟩

/-! ## Clauses read attentively -/

/-- A clause, read by the reader that remembers every place it turned back at. -/
def attentiveClause (d : Document) (rule : Rule) (toks : List Lexeme) : Outcome Term :=
  ((Reading.attentive d.options.quotes d.options.maxDepth).read maxPriority rule toks).andThen
    fun (t, _) rest => (expect .stop (.closing rule "'.'") rest).map fun _ => t

theorem attentiveClause_recalls (d : Document) (rule : Rule) (toks : List Lexeme) :
    (d.attentiveClause rule toks).Recalls (d.clause .thorough rule toks) :=
  Outcome.recalls_andThen (Reading.attentive_recalls _ _ _ _ _) fun _ _ _ _ => .refl _

theorem attentiveClause_inside (d : Document) (rule : Rule) (toks : List Lexeme) :
    (d.attentiveClause rule toks).Inside toks :=
  Outcome.inside_andThen (Reader.inside _ _ _ _) fun _ _ =>
    Outcome.inside_map (expect_inside _ _ _)

/-- The first lexemes of a clause that cannot be read decide that, and the attentive reader
looks nowhere behind them; or it does, and they are the beginning of a clause. -/
theorem clause_foreseen {begun after : List Lexeme} {m : Miss} {a : Option Miss}
    (hmiss : d.clause .thorough rule (begun ++ after) = .miss m a) :
    (¬ (d.attentiveClause rule (begun ++ after)).Passes after.length ∧
      ∀ more, ∃ m a, d.clause .thorough rule (begun ++ more) = .miss m a) ∨
    ((d.attentiveClause rule (begun ++ after)).Passes after.length ∧
      ∃ closing, (∀ l ∈ closing, l.token ≠ .stop) ∧ ∀ stop : Lexeme, stop.token = .stop →
        ∃ t a, d.clause .thorough rule (begun ++ closing ++ [stop]) = .read t [] a) := by
  have hrecalls := d.attentiveClause_recalls rule
  obtain ⟨a', hattentive⟩ := (hrecalls _).miss_iff.mpr ⟨a, hmiss⟩
  have hdecided : ∀ o : Outcome Term, o.InSight → (∀ rest, o ≠ .tooDeep rest) →
      (∀ more, d.attentiveClause rule (begun ++ more) = o.extend more) →
      ¬ (d.attentiveClause rule (begun ++ after)).Passes after.length ∧
        ∀ more, ∃ m a, d.clause .thorough rule (begun ++ more) = .miss m a := by
    intro o hsight hdeep hread
    refine ⟨hread after ▸ hsight.not_passes after hdeep, fun more => ?_⟩
    rw [hread] at hattentive
    cases o with
    | read t rest b => cases hattentive
    | miss m b => exact ⟨_, (hrecalls _).miss_iff.mp ⟨_, hread more⟩⟩
    | tooDeep rest => cases hattentive
  have hterm :=
    Reading.attentive_foreseen d.options.quotes d.options.maxDepth maxPriority rule begun
  unfold attentiveClause at hattentive hdecided ⊢
  cases hterm with
  | decided o hsight hread =>
    refine .inl ?_
    cases o with
    | read v rest b =>
      obtain ⟨l, rest, rfl⟩ := List.exists_cons_of_ne_nil hsight.1
      -- The term ends in front of `l`, which is no end token, or the clause could be read.
      have hl : l.token ≠ .stop := by
        intro hl
        have hpeek : peek (l :: rest ++ after) = .stop := hl
        rw [hread, Outcome.extend, Outcome.andThen, expect_read _ hpeek] at hattentive
        cases hattentive
      refine hdecided (.miss ⟨l :: rest, .closing rule "'.'"⟩ b) hsight (by simp) fun more => ?_
      have hexpect : expect .stop (.closing rule "'.'") (l :: rest ++ more) =
          .miss ⟨l :: rest ++ more, .closing rule "'.'"⟩ none := if_neg hl
      simp only [hread, Outcome.extend, Outcome.andThen, hexpect, Outcome.map, Outcome.after,
        Miss.furthest_none, Miss.extend]
    | miss m b => exact hdecided (.miss m b) hsight (by simp) fun more => by rw [hread]; rfl
    | tooDeep rest =>
      rw [hread] at hattentive
      cases hattentive
  | goesOn closing hstop hpasses hcloses =>
    refine .inr ⟨?_, closing, hstop, fun stop htoken => ?_⟩
    · exact Outcome.passes_andThen (hpasses after) fun _ _ =>
        Outcome.inside_map (expect_inside _ _ _)
    · have hcloser : Closes [stop] := by
        rw [Closes, peek, htoken]
        rfl
      obtain ⟨v, b, hread⟩ := hcloses [stop] hcloser
      have hexpect : expect .stop (.closing rule "'.'") [stop] = .read () [] none :=
        expect_read _ htoken
      refine ⟨v.1, (hrecalls _).read_iff.mp ⟨Miss.furthest b none, ?_⟩⟩
      rw [attentiveClause, List.append_assoc, hread, Outcome.andThen]
      simp only [hexpect, Outcome.map, Outcome.after]

/-! ## Diagnostics of a program -/

/-- The clause cannot be read, and the program's diagnostics say so where these lexemes of
it are left. -/
def SyntaxFault (d : Document) (part rest : List Lexeme) : Prop :=
  ∃ m a, d.clause .thorough .program part = .miss m a ∧ (m.told a).rest = rest ∧
    d.report m a ∈ d.program.diagnostics

/-- Every clause that cannot be read gets a diagnostic. -/
theorem syntaxFault_of_miss (hok : ∃ clauses, d.program.result = .ok clauses)
    (hpart : part ∈ segments d.lexemes) {m : Miss} {a : Option Miss}
    (hmiss : d.clause .thorough .program part = .miss m a) :
    d.SyntaxFault part (m.told a).rest := by
  obtain ⟨clauses, hok⟩ := hok
  rw [program_eq] at hok
  obtain ⟨_, _, hdiagnostics⟩ := clauseList_ok hok
  refine ⟨m, a, hmiss, rfl, ?_⟩
  rw [program_eq, hdiagnostics, diagnosticsWith, DiagnosticSet.mem_ofList]
  refine List.mem_append_right _ (List.mem_filterMap.mpr ⟨.faulty (d.report m a), ?_, rfl⟩)
  exact List.mem_map.mpr ⟨part, hpart, by rw [verdict, hmiss]⟩

/-- A program of one clause that does not nest too deep. -/
theorem program_single_ok {run : List Lexeme} {stop : Lexeme} (hrun : ∀ l ∈ run, l.token ≠ .stop)
    (hstop : stop.token = .stop) (hlexemes : d.lexemes = run ++ [stop])
    (h : ∀ rest, d.clause .thorough .program (run ++ [stop]) ≠ .tooDeep rest) :
    ∃ clauses, d.program.result = .ok clauses := by
  have hverdict : d.verdict .program Clause.ofTerm (run ++ [stop]) ≠ .tooDeep := by
    unfold verdict
    cases hclause : d.clause .thorough .program (run ++ [stop]) with
    | read t rest a =>
      simp only
      split <;> simp
    | miss m a => simp
    | tooDeep rest => exact absurd hclause (h rest)
  rcases d.clauseList_verdicts .program Clause.ofTerm with ⟨hdeep, _⟩ | ⟨_, heq⟩
  · rw [hlexemes, verdicts, segments_clause hrun hstop] at hdeep
    simp [hverdict.symm] at hdeep
  · exact ⟨_, by rw [program_eq, heq]⟩

/-- What a miss was decided by holds no end token, if it is the beginning of a clause. -/
theorem open_of_clause {begun after closing : List Lexeme} {stop : Lexeme} {m : Miss}
    {a b : Option Miss} {t : Term} (hpart : begun ++ after ∈ segments toks)
    (hmiss : d.clause .thorough rule (begun ++ after) = .miss m a)
    (hread : d.clause .thorough rule (begun ++ closing ++ [stop]) = .read t [] b) :
    ∀ l ∈ begun, l.token ≠ .stop := by
  rcases mem_segments_cases hpart with ⟨run, last, hrun, hlast, heq⟩ | hopen
  · rcases List.eq_nil_or_concat after with rfl | ⟨others, final, rfl⟩
    · -- The whole clause was missed, and nothing behind its end token matters.
      rw [List.append_nil] at heq hmiss
      subst heq
      have hsame : SameClause [] (closing ++ [stop]) (run ++ [last])
          (run ++ last :: (closing ++ [stop])) := SameClause.of_run _ _ hrun hlast
      have halike := clause_alike rule (rfl : d.options = d.options) hsame
      rw [hmiss] at halike
      have hwhole : run ++ last :: (closing ++ [stop]) = run ++ [last] ++ closing ++ [stop] := by
        simp
      rw [hwhole, hread] at halike
      cases halike
    · rw [List.concat_eq_append, ← List.append_assoc] at heq
      have hbegun := (List.append_inj' heq rfl).1
      exact fun l hl => hrun l (hbegun ▸ List.mem_append_left _ hl)
  · exact fun l hl => hopen l (List.mem_append_left _ hl)

/-! ## Final diagnostics -/

/-- No clause begins like this: wherever a program has one that begins with the same words, it
gets a diagnostic. -/
def BeginsNoClause (d : Document) (begun : List Lexeme) : Prop :=
  ∀ d' : Document, d'.options = d.options → (∃ clauses, d'.program.result = .ok clauses) →
    ∀ part ∈ segments d'.lexemes, begun.map Lexeme.word <+: part.map Lexeme.word →
      ∃ rest, d'.SyntaxFault part rest

theorem beginsNoClause_of_decided {begun : List Lexeme}
    (h : ∀ more, ∃ m a, d.clause .thorough .program (begun ++ more) = .miss m a) :
    d.BeginsNoClause begun := by
  intro d' hoptions hok part hpart hprefix
  have hwords : SameWords (begun ++ part.drop begun.length) part := by
    have htake := List.prefix_iff_eq_take.mp hprefix
    rw [List.length_map, ← List.map_take] at htake
    rw [SameWords, List.map_append, htake, ← List.map_append, List.take_append_drop]
  obtain ⟨m, a, hmiss⟩ := h (part.drop begun.length)
  obtain ⟨m', a', hmiss'⟩ := clause_miss_of_sameWords hoptions hwords hmiss
  exact ⟨_, syntaxFault_of_miss hok hpart hmiss'⟩

/-- A clause that can be read is a program by itself. -/
theorem not_beginsNoClause_of_read {begun closing : List Lexeme} {t : Term} {a : Option Miss}
    (hrun : ∀ l ∈ begun ++ closing, l.token ≠ .stop)
    (hread : d.clause .thorough .program (begun ++ closing ++ [.ofToken .stop]) = .read t [] a) :
    ¬ d.BeginsNoClause begun := by
  intro hnone
  let whole := begun ++ closing ++ [Lexeme.ofToken .stop]
  let d' : Document := { d with lexemes := whole }
  have hread' : d'.clause .thorough .program whole = .read t [] a := hread
  have hok : ∃ clauses, d'.program.result = .ok clauses :=
    program_single_ok hrun rfl rfl fun rest hdeep => by cases hread'.symm.trans hdeep
  have hsegments : segments d'.lexemes = [whole] := segments_clause hrun rfl
  have hprefix : begun.map Lexeme.word <+: whole.map Lexeme.word :=
    ((List.prefix_append begun closing).trans (List.prefix_append _ _)).map _
  obtain ⟨rest, m, b, hmiss, _⟩ := hnone d' rfl hok whole (hsegments ▸ List.mem_cons_self) hprefix
  cases hread'.symm.trans hmiss

/-- What the attentive reader blames is blamed in every clause that begins like this one. -/
theorem beginsNoClause_of_attentive {before after : List Lexeme} {l : Lexeme}
    (hblames : (d.attentiveClause .program (before ++ l :: after)).Blames (l :: after)) :
    d.BeginsNoClause (before ++ [l]) := by
  cases hattentive : d.attentiveClause .program (before ++ l :: after) with
  | read t rest a =>
    rw [hattentive] at hblames
    cases hblames
  | tooDeep rest =>
    rw [hattentive] at hblames
    cases hblames
  | miss m a =>
    obtain ⟨b, hmiss⟩ := (d.attentiveClause_recalls _ _).miss_iff.mp ⟨a, hattentive⟩
    have htold : (m.told a).rest = l :: after := by
      rw [hattentive] at hblames
      exact hblames
    rw [List.append_cons] at hattentive hmiss
    rcases clause_foreseen hmiss with ⟨_, hall⟩ | ⟨hpasses, _⟩
    · exact beginsNoClause_of_decided hall
    · rw [hattentive, Outcome.passes_miss, htold] at hpasses
      exact absurd hpasses (Nat.not_succ_le_self _)

/-- A diagnostic is final, in that no clause begins like this one as far as the lexeme that
the diagnostic names, just when the attentive reader names the same lexeme. -/
theorem syntaxFault_final_iff {before after : List Lexeme} {l : Lexeme}
    (hpart : before ++ l :: after ∈ segments d.lexemes)
    (hfault : d.SyntaxFault (before ++ l :: after) (l :: after)) :
    d.BeginsNoClause (before ++ [l]) ↔
      (d.attentiveClause .program (before ++ l :: after)).Blames (l :: after) := by
  refine ⟨fun hnone => ?_, beginsNoClause_of_attentive⟩
  obtain ⟨m, a, hmiss, htold, _⟩ := hfault
  have hblames : (d.clause .thorough .program (before ++ l :: after)).Blames (l :: after) := by
    rw [hmiss]
    exact htold
  rw [(d.attentiveClause_recalls _ _).blames_iff (d.attentiveClause_inside _ _) hblames
    (List.suffix_append before _)]
  have hbegun : before ++ l :: after = (before ++ [l]) ++ after := List.append_cons before l after
  rw [hbegun] at hmiss hpart ⊢
  rcases clause_foreseen hmiss with ⟨hsight, _⟩ | ⟨_, closing, hclosing, hread⟩
  · exact hsight
  · obtain ⟨t, b, hread⟩ := hread (.ofToken .stop) rfl
    have hrun := List.forall_mem_append.mpr ⟨open_of_clause hpart hmiss hread, hclosing⟩
    exact absurd hnone (not_beginsNoClause_of_read hrun hread)

/-- Of `kata kata.` the second word is blamed, and nothing that begins with the two is a
clause. -/
theorem syntaxFault_final_iff_kata :
    let d := ofText "kata kata." .origin {}
    let kata : Lexeme := ⟨.name "kata", ⟨1, 1, 0, 4⟩, false⟩
    let again : Lexeme := ⟨.name "kata", ⟨1, 6, 5, 9⟩, true⟩
    let stop : Lexeme := ⟨.stop, ⟨1, 10, 9, 10⟩, false⟩
    ([kata] ++ again :: [stop] ∈ segments d.lexemes ∧
      d.SyntaxFault ([kata] ++ again :: [stop]) (again :: [stop])) ∧
    d.BeginsNoClause ([kata] ++ [again]) := by
  intro d kata again stop
  have hlexemes : d.lexemes = [kata, again] ++ [stop] := by decide +kernel
  have hrun : ∀ l ∈ [kata, again], l.token ≠ .stop := by decide
  have hread : ∀ sub : Reader, ((Reading.deeper ⟨.codes, .thorough⟩ sub).read maxPriority .program
      [kata, again, stop]).andThen (fun (t, _) rest =>
        (expect .stop (.closing .program "'.'") rest).map fun _ => t) =
      .miss ⟨[again, stop], .closing .program "'.'"⟩ none := by
    intro sub
    have hatom : (Reading.deeper ⟨.codes, .thorough⟩ sub).read maxPriority .program
        [kata, again, stop] = .read (.atom "kata", 0) [again, stop] none := by
      show Reading.operators _ sub maxPriority .program (kata :: [again, stop]) = _
      exact Reading.operators_atom rfl (by decide) rfl _ rfl
    rw [hatom]
    rfl
  have hmiss : d.clause .thorough .program ([kata, again] ++ [stop]) =
      .miss ⟨[again, stop], .closing .program "'.'"⟩ none := hread (Reading.terms _ 511)
  have hpart : [kata] ++ again :: [stop] ∈ segments d.lexemes := by
    rw [hlexemes, segments_clause hrun rfl]
    exact List.mem_cons_self
  have hok : ∃ clauses, d.program.result = .ok clauses :=
    program_single_ok hrun rfl hlexemes fun rest hdeep => by cases hmiss.symm.trans hdeep
  have hfault : d.SyntaxFault ([kata] ++ again :: [stop]) (again :: [stop]) :=
    syntaxFault_of_miss hok hpart hmiss
  have hblames : (d.attentiveClause .program ([kata] ++ again :: [stop])).Blames [again, stop] := by
    rw [show d.attentiveClause .program ([kata] ++ again :: [stop]) = _ from
      hread (Reading.insist (Reading.attentive _ 511))]
    rfl
  exact ⟨⟨hpart, hfault⟩, (syntaxFault_final_iff hpart hfault).mpr hblames⟩

end Document

/-! ## A diagnostic that is not final -/

/-- A negated atom as the body of a clause. The negation is given up when nothing plausible
follows the atom, and then `\+` itself is the body. -/
theorem Reading.operators_negation {quotes : DoubleQuotes} {sub : Reader}
    {p neck negator a : Lexeme} {behind : List Lexeme} (rule : Rule) (hp : p.token = .name "p")
    (hneck : neck.token = .name ":-") (hnegator : negator.token = .name "\\+")
    (ha : a.token = .name "a") (hopens : opensArguments behind = false)
    (hbehind : ∀ left max, continuation left max (peek behind) = none) :
    operators ⟨quotes, .thorough⟩ (deeper ⟨quotes, .thorough⟩ sub) maxPriority rule
        (p :: neck :: negator :: a :: behind) =
      if followsOperand (peek behind) then
        .read (.compound ":-" [.atom "p", .compound "\\+" [.atom "a"]], 1200) behind none
      else .read (.compound ":-" [.atom "p", .atom "\\+"], 1200) (a :: behind) none := by
  have hhead : primary ⟨quotes, .thorough⟩ (deeper ⟨quotes, .thorough⟩ sub) maxPriority rule
      (p :: neck :: negator :: a :: behind) =
        .read (.atom "p", 0) (neck :: negator :: a :: behind) none :=
    primary_atom hp (by decide) (by simp [opensArguments, hneck]) _ _
  have hbetween : continuation 0 maxPriority (peek (neck :: negator :: a :: behind)) =
      some (.between ":-" ⟨1200, .xfx⟩) := by
    rw [peek, hneck]
    decide
  have hargument : (deeper ⟨quotes, .thorough⟩ sub).read 900 .operand (a :: behind) =
      .read (.atom "a", 0) behind none :=
    operators_atom ha (by decide) hopens _ (hbehind 0 900)
  have hbody : primary ⟨quotes, .thorough⟩ (deeper ⟨quotes, .thorough⟩ sub) 1199 .operand
      (negator :: a :: behind) = applied .thorough "\\+" 900 (a :: behind)
        (.read (.atom "a", 0) behind none) := by
    have hbefore : Operator.before? "\\+" = some ⟨900, .fy⟩ := by decide
    have hmax : min (Operator.rightMax ⟨900, .fy⟩) 900 = 900 := by decide
    simp [primary, peek, hnegator, nameTerm, opensArguments, ha, hbefore, Token.startsTerm,
      application, hmax, hargument]
  have hname : ∀ left max, continuation left max (peek (a :: behind)) = none := by
    intro left max
    rw [peek, ha]
    rfl
  rw [operators_eq_start, start_of_primary [] hhead, resume_between [] hbetween, start]
  show (primary _ _ 1199 .operand (negator :: a :: behind)).andThen _ = _
  rw [hbody]
  by_cases hfollows : followsOperand (peek behind) = true
  · simp only [applied, hfollows, or_true, if_true, Outcome.andThen_read]
    rw [resume_pop _ _ (hbehind _ _), resume_nil (hbehind _ _)]
  · simp only [applied, hfollows, reduceCtorEq, or_false, Bool.false_eq_true, if_false,
      Outcome.andThen_read]
    rw [resume_pop _ _ (hname _ _), resume_nil (hname _ _)]

/-- Some clause that gets a diagnostic at its fourth word has its first four words in
common with a clause that can be read. -/
theorem Document.not_syntaxFault_final : ¬ ∀ (text text' : String) (before after part : List Lexeme)
    (l : Lexeme),
    let d := ofText text .origin {}
    let d' := ofText text' .origin {}
    (∃ clauses, d.program.result = .ok clauses) → (∃ clauses, d'.program.result = .ok clauses) →
    before ++ l :: after ∈ segments d.lexemes →
    d.SyntaxFault (before ++ l :: after) (l :: after) → part ∈ segments d'.lexemes →
    (before ++ [l]).map Lexeme.word <+: part.map Lexeme.word →
    ∃ rest, d'.SyntaxFault part rest := by
  intro hfinal
  let p : Lexeme := ⟨.name "p", ⟨1, 1, 0, 1⟩, false⟩
  let neck : Lexeme := ⟨.name ":-", ⟨1, 3, 2, 4⟩, true⟩
  let negator : Lexeme := ⟨.name "\\+", ⟨1, 6, 5, 7⟩, true⟩
  let a : Lexeme := ⟨.name "a", ⟨1, 9, 8, 9⟩, true⟩
  let b : Lexeme := ⟨.name "b", ⟨1, 11, 10, 11⟩, true⟩
  let stop : Lexeme := ⟨.stop, ⟨1, 12, 11, 12⟩, false⟩
  let stop' : Lexeme := ⟨.stop, ⟨1, 10, 9, 10⟩, false⟩
  let d := ofText "p :- \\+ a b." .origin {}
  let d' := ofText "p :- \\+ a." .origin {}
  have hlexemes : d.lexemes = [p, neck, negator, a, b] ++ [stop] := by decide +kernel
  have hlexemes' : d'.lexemes = [p, neck, negator, a] ++ [stop'] := by decide +kernel
  have hrun : ∀ l ∈ [p, neck, negator, a, b], l.token ≠ .stop := by decide
  have hrun' : ∀ l ∈ [p, neck, negator, a], l.token ≠ .stop := by decide
  have hmiss : d.clause .thorough .program ([p, neck, negator, a, b] ++ [stop]) =
      .miss ⟨[a, b, stop], .closing .program "'.'"⟩ none := by
    have hterm : (d.reader .thorough).read maxPriority .program [p, neck, negator, a, b, stop] =
        .read (.compound ":-" [.atom "p", .atom "\\+"], 1200) [a, b, stop] none := by
      show Reading.operators _ (Reading.deeper _ (Reading.terms _ 510)) maxPriority .program
        (p :: neck :: negator :: a :: [b, stop]) = _
      exact Reading.operators_negation _ rfl rfl rfl rfl rfl fun _ _ => rfl
    show Outcome.andThen ((d.reader .thorough).read _ _ [p, neck, negator, a, b, stop]) _ = _
    rw [hterm]
    rfl
  have hread : d'.clause .thorough .program ([p, neck, negator, a] ++ [stop']) =
      .read (.compound ":-" [.atom "p", .compound "\\+" [.atom "a"]]) [] none := by
    have hterm : (d'.reader .thorough).read maxPriority .program [p, neck, negator, a, stop'] =
        .read (.compound ":-" [.atom "p", .compound "\\+" [.atom "a"]], 1200) [stop'] none := by
      show Reading.operators _ (Reading.deeper _ (Reading.terms _ 510)) maxPriority .program
        (p :: neck :: negator :: a :: [stop']) = _
      exact Reading.operators_negation _ rfl rfl rfl rfl rfl fun _ _ => rfl
    show Outcome.andThen ((d'.reader .thorough).read _ _ [p, neck, negator, a, stop']) _ = _
    rw [hterm]
    rfl
  have hok : ∃ clauses, d.program.result = .ok clauses :=
    program_single_ok hrun rfl hlexemes fun rest hdeep => by cases hmiss.symm.trans hdeep
  have hok' : ∃ clauses, d'.program.result = .ok clauses :=
    program_single_ok hrun' rfl hlexemes' fun rest hdeep => by cases hread.symm.trans hdeep
  have hpart : [p, neck, negator] ++ a :: [b, stop] ∈ segments d.lexemes := by
    rw [hlexemes, segments_clause hrun rfl]
    exact List.mem_cons_self
  have hpart' : [p, neck, negator, a] ++ [stop'] ∈ segments d'.lexemes := by
    rw [hlexemes', segments_clause hrun' rfl]
    exact List.mem_cons_self
  have hfault : d.SyntaxFault ([p, neck, negator] ++ a :: [b, stop]) (a :: [b, stop]) :=
    syntaxFault_of_miss hok hpart hmiss
  obtain ⟨rest, m, abandoned, hmiss', _⟩ := hfinal "p :- \\+ a b." "p :- \\+ a." [p, neck, negator]
    [b, stop] ([p, neck, negator, a] ++ [stop']) a hok hok' hpart hfault hpart' ⟨[stop'.word], rfl⟩
  rw [hread] at hmiss'
  cases hmiss'

end Clausal
