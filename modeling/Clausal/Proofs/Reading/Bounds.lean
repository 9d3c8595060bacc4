import Clausal.Proofs.Reading.Passes
import Clausal.Proofs.Token.Tiling
import Clausal.Proofs.Token.Values

/-
  Bounds — reading by a cursor always ends, stays in bounds and cannot overflow

  The readers by cursor may run forever, leave the lexemes or the clause within a term, be
  stalled in recovery, or negate what has no negation. None of it happens, whatever the
  text: they end where reading by recursion does. What this rests on is what the lexer
  says of every text, that one lexeme ends it, the last one, and that its numbers have 63
  bits.

  What is proved:
    1. `Document.clauseEnds_of_stop`, `Document.clauseEnds_skipClause` — where a clause
       that was read and one that was skipped end, by index.
    2. `expr_stays`, `turn_moves` — how far a term and a turn move the cursor.
    3. `parse_in_bounds` — all of it, for every text, origin, choice of options and kind
       of document.
-/

namespace Clausal

namespace Document

variable {d : Document} {toks rest : List Lexeme}

/-- What the lexer makes of a text is a whole document. -/
theorem ofText_whole (text : String) (origin : Place) (options : Options) :
    (ofText text origin options).Whole := by
  obtain ⟨_, haccounts⟩ := tokenize_accounts text origin.position
  refine ⟨haccounts.eof.1, haccounts.tokens, fun l hl n hn => ?_⟩
  have hvalue := tokenize_wellFormed text origin.position l hl
  rw [hn] at hvalue
  exact hvalue

/-- Every cursor stands in front of some lexemes. -/
theorem exists_cursor (c : Cursor d) :
    ∃ toks g, toks <:+ d.lexemes ∧ d.Known g ∧ c = d.cursor toks c.depth g c.errors := by
  have hspot : ∀ i : d.Spot, d.spotOf (d.lexemes.drop i) = i := by
    intro i
    have hlt := i.isLt
    refine Fin.ext ?_
    simp only [all, List.length_append, List.length_singleton] at hlt
    simp only [spotOf, List.length_drop]
    omega
  have hstop : (c.furthest.map fun s => Miss.mk (d.lexemes.drop s.spot) s.expected).map d.stopOf =
      c.furthest := by
    cases c.furthest with
    | none => rfl
    | some s => simp [stopOf, hspot]
  refine ⟨d.lexemes.drop c.pos, c.furthest.map fun s => ⟨d.lexemes.drop s.spot, s.expected⟩,
    List.drop_suffix _ _, ?_, ?_⟩
  · intro m hm
    obtain ⟨s, _, rfl⟩ := Option.map_eq_some_iff.mp hm
    exact List.drop_suffix _ _
  · rw [cursor, hspot, hstop]

/-- The lexemes of a run by index. -/
theorem forall_spots {run : List Lexeme} {P : Lexeme → Prop} (h : run ++ rest <:+ d.lexemes)
    (hrun : ∀ l ∈ run, P l) : ∀ i, d.spotOf (run ++ rest) ≤ i → i < d.spotOf rest →
      P (d.lexemeAt i) := by
  induction run with
  | nil => exact fun i hle hlt => absurd hlt (Fin.not_lt.mpr hle)
  | cons l run ih =>
    intro i hle hlt
    obtain ⟨hl, hrun⟩ := List.forall_mem_cons.mp hrun
    rcases Nat.eq_or_lt_of_le (Fin.le_def.mp hle) with heq | hbehind
    · rw [← Fin.ext heq, lexemeAt_spotOf h]
      exact hl
    · have htail := spotOf_tail h (List.cons_ne_nil l (run ++ rest))
      refine ih ((List.suffix_cons l (run ++ rest)).trans h) hrun i ?_ hlt
      rw [Fin.le_def]
      simp only [List.cons_append, List.tail_cons] at htail hbehind ⊢
      omega

/-- `next` is right behind the clause that `first` is in: behind its end token, or at the end
of the text when it has none. -/
def ClauseEnds (d : Document) (first next : d.Spot) : Prop :=
  (∃ stop : d.Spot, stop.val + 1 = next.val ∧ first ≤ stop ∧
    (d.lexemeAt stop).token = .stop ∧
      ∀ i, first ≤ i → i < stop → (d.lexemeAt i).token ≠ .stop) ∨
  ((d.lexemeAt next).token = .endOfText ∧
    ∀ i, first ≤ i → i < next → (d.lexemeAt i).token ≠ .stop)

theorem clauseEnds_of_stop {run : List Lexeme} {stop : Lexeme}
    (h : run ++ stop :: rest <:+ d.lexemes) (hrun : ∀ l ∈ run, l.token ≠ .stop)
    (hstop : stop.token = .stop) :
    d.spotOf (run ++ stop :: rest) < d.spotOf rest ∧
      d.ClauseEnds (d.spotOf (run ++ stop :: rest)) (d.spotOf rest) := by
  have hin : stop :: rest <:+ d.lexemes := (List.suffix_append run _).trans h
  have hnext : (d.spotOf rest).val = (d.spotOf (stop :: rest)).val + 1 :=
    spotOf_tail hin (List.cons_ne_nil stop rest)
  have hle : d.spotOf (run ++ stop :: rest) ≤ d.spotOf (stop :: rest) :=
    (spotOf_le_iff h hin).mpr (List.suffix_append run _).length_le
  refine ⟨?_, .inl ⟨d.spotOf (stop :: rest), hnext.symm, hle, ?_, forall_spots h hrun⟩⟩
  · rw [Fin.lt_def]
    rw [Fin.le_def] at hle
    omega
  · rw [lexemeAt_spotOf hin]
    exact hstop

/-- Recovery from a miss in a clause ends right behind that clause. -/
theorem clauseEnds_skipClause (hd : d.Whole) (h : toks <:+ d.lexemes) (hne : toks ≠ [])
    {part : List Lexeme} (hpart : Within toks part) :
    d.spotOf toks < d.spotOf (skipClause part) ∧
      d.ClauseEnds (d.spotOf toks) (d.spotOf (skipClause part)) := by
  obtain ⟨run, rfl, hrun⟩ := hpart
  have hsplit : part.takeWhile (fun l => l.token != .stop) ++
      part.dropWhile (fun l => l.token != .stop) = part := List.takeWhile_append_dropWhile
  have hopen : ∀ l ∈ run ++ part.takeWhile (fun l => l.token != .stop), l.token ≠ .stop := by
    refine List.forall_mem_append.mpr ⟨fun l hl => (hrun l hl).1, fun l hl => ?_⟩
    simpa using List.mem_takeWhile_imp hl
  rw [skipClause]
  cases hdrop : part.dropWhile (fun l => l.token != .stop) with
  | nil =>
    rw [hdrop, List.append_nil] at hsplit
    rw [hsplit] at hopen
    have hnil : [] <:+ d.lexemes := List.nil_suffix
    have hlt : d.spotOf (run ++ part) < d.spotOf [] := by
      rw [← Fin.not_le, spotOf_le_iff hnil h, Nat.not_le]
      exact List.length_pos_iff.mpr hne
    have hin : run ++ part ++ [] <:+ d.lexemes := by rwa [List.append_nil]
    have hall := forall_spots hin hopen
    rw [List.append_nil] at hall
    refine ⟨hlt, .inr ⟨?_, hall⟩⟩
    rw [List.tail_nil, lexemeAt_spotOf hnil, token_front hd]
    rfl
  | cons stop rest =>
    have hstop : stop.token = .stop := by
      have hhead := List.head?_dropWhile_not (fun l : Lexeme => l.token != .stop) part
      rw [hdrop] at hhead
      simpa using hhead
    have hall : run ++ part = (run ++ part.takeWhile fun l => l.token != .stop) ++ stop :: rest := by
      rw [List.append_assoc, ← hdrop, hsplit]
    rw [hall] at h ⊢
    exact clauseEnds_of_stop h hopen hstop

end Document

namespace Machine

variable {d : Document} {α : Type} {clock : Nat}

/-- A value, a miss or a nesting too deep: the reader did not go astray, and recovery moved on. -/
def Regular : Except (Halt d) α → Prop
  | .error .astray => False
  | .error (.stalled _) => False
  | _ => True

/-- Each pass ends. -/
theorem pass_ends (hd : d.Whole) (e : Entry) (mode : Mode) (hclock : Entry.ticks d ≤ clock) :
    ∃ result last, e.pass mode clock (start d) = some (result, last) ∧ Regular result := by
  obtain ⟨r, hr, htold⟩ := e.pass_told hd hclock mode
  refine ⟨r.1, r.2, hr, ?_⟩
  generalize e.passOf d mode = p at htold
  cases htold <;> trivial

/-- A term is read forward, up to the end of its clause at most. -/
theorem expr_stays (hd : d.Whole) (style : Style) (max : Nat) (rule : Rule) (c : Cursor d)
    (hclock : ticks d d.options.maxDepth ≤ clock) :
    ∃ result last, expr style clock max rule c = some (result, last) ∧ Regular result ∧
      c.pos ≤ last.pos ∧
      ∀ i, c.pos ≤ i → i < last.pos → Reading.InClause (d.lexemeAt i) := by
  obtain ⟨toks, g, hin, hg, hc⟩ := Document.exists_cursor c
  -- Within other terms fewer levels are left, for which fewer ticks are enough.
  have hlevels : ticks d (d.options.maxDepth - c.depth) ≤ clock := by
    unfold ticks at hclock ⊢
    omega
  obtain ⟨r, hr, htold⟩ :=
    expr_comesTo hd style _ hlevels rfl max rule toks hin g c.errors hg
  have hstays : ∀ {rest : List Lexeme}, Within toks rest → d.spotOf toks ≤ d.spotOf rest ∧
      ∀ i, d.spotOf toks ≤ i → i < d.spotOf rest → Reading.InClause (d.lexemeAt i) := by
    intro rest hwithin
    have hsuffix := hwithin.suffix
    obtain ⟨run, rfl, hrun⟩ := hwithin
    exact ⟨(Document.spotOf_le_iff hin (hsuffix.trans hin)).mpr hsuffix.length_le,
      Document.forall_spots hin hrun⟩
  rw [← hc] at hr
  have hpos : c.pos = d.spotOf toks := congrArg Cursor.pos hc
  rw [hpos]
  refine ⟨r.1, r.2, hr, ?_⟩
  generalize (Reading.terms style (d.options.maxDepth - c.depth)).read max rule toks = o at htold
  cases htold with
  | read hwithin _ => exact ⟨trivial, hstays hwithin⟩
  | miss hwithin _ => exact ⟨trivial, hstays hwithin⟩
  | tooDeep hwithin => exact ⟨trivial, hstays hwithin⟩

/-- A turn of the loop over clauses moves on right behind the clause, unless terms nest too
deep. -/
theorem turn_moves (hd : d.Whole) (rule : Rule)
    (classify : Term → Place → Except ClauseError α) {c : Cursor d} (hdepth : c.depth = 0)
    (hend : (d.lexemeAt c.pos).token ≠ .endOfText)
    (hclock : ticks d d.options.maxDepth ≤ clock) :
    ∃ result last, turn rule classify .thorough clock c = some (result, last) ∧
      ((∃ fault, result = .error (.fault fault)) ∨
        (∃ v, result = .ok v) ∧ last.depth = 0 ∧ c.pos < last.pos ∧
          d.ClauseEnds c.pos last.pos) := by
  obtain ⟨toks, g, hin, hg, hc⟩ := Document.exists_cursor c
  rw [hdepth] at hc
  have hpos : c.pos = d.spotOf toks := congrArg Cursor.pos hc
  have hne : toks ≠ [] := by
    rintro rfl
    rw [hpos, Document.lexemeAt_spotOf hin, Document.token_front hd] at hend
    exact hend rfl
  obtain ⟨r, hr, htold⟩ := turn_told (e := c.errors) hd rule classify .thorough hclock hin
    (g.map d.stopOf)
  have hcursor : { d.cursor toks 0 none c.errors with furthest := g.map d.stopOf } = c := hc.symm
  rw [hcursor] at hr
  rw [hpos]
  refine ⟨r.1, r.2, hr, ?_⟩
  have hended : ∀ {rest : List Lexeme}, Ended toks rest →
      d.spotOf toks < d.spotOf rest ∧ d.ClauseEnds (d.spotOf toks) (d.spotOf rest) := by
    rintro rest ⟨run, stop, rfl, hrun, hstop⟩
    exact Document.clauseEnds_of_stop hin (fun l hl => (hrun l hl).1) hstop
  generalize d.clause .thorough rule toks = o at htold
  cases htold with
  | value hrest _ _ => exact .inr ⟨⟨_, rfl⟩, rfl, hended hrest⟩
  | illegal hrest _ _ => exact .inr ⟨⟨_, rfl⟩, rfl, hended hrest⟩
  | skipped _ hwithin =>
    exact .inr ⟨⟨_, rfl⟩, rfl, Document.clauseEnds_skipClause hd hin hne hwithin⟩
  | missed hmode _ => cases hmode
  | tooDeep _ => exact .inl ⟨_, rfl⟩

end Machine

open Machine in
/-- Wherever a text begins and however it is read, some number of ticks is enough for every
reading of it, and no longer clock changes what it comes to.

Whatever the text is read as and wherever the cursor was left before, reading by the cursor
ends, with the result and the diagnostics of reading by recursion: it never goes astray, and
recovery is never stalled. So do both passes, also the one that is not needed. A term is read
from any cursor to one that is not behind it, with no end of a clause or of the text between
them. Each turn of the loop over clauses moves the cursor on, right behind the clause that it
is in, unless terms nest too deep. Every number that is a lexeme is not negative in 64 bits,
and its negation is there too. -/
theorem parse_in_bounds (text : String) (origin : Place) (options : Options) :
    let d := Document.ofText text origin options
    (∃ enough, ∀ clock ≥ enough,
      (∀ (e : Entry) (c : Cursor d), Answers (e.parse clock) c (e.reading d)) ∧
      (∀ (e : Entry) (mode : Mode), ∃ result last,
        e.pass mode clock (start d) = some (result, last) ∧ Regular result) ∧
      (∀ (style : Style) (max : Nat) (rule : Rule) (c : Cursor d), ∃ result last,
        expr style clock max rule c = some (result, last) ∧ Regular result ∧
          c.pos ≤ last.pos ∧
          ∀ i, c.pos ≤ i → i < last.pos → Reading.InClause (d.lexemeAt i)) ∧
      ∀ (α : Type) (rule : Rule) (classify : Term → Place → Except ClauseError α) (c : Cursor d),
        c.depth = 0 → (d.lexemeAt c.pos).token ≠ .endOfText →
          ∃ result last, turn rule classify .thorough clock c = some (result, last) ∧
            ((∃ fault, result = .error (.fault fault)) ∨
              (∃ v, result = .ok v) ∧ last.depth = 0 ∧ c.pos < last.pos ∧
                d.ClauseEnds c.pos last.pos)) ∧
    ∀ (i : d.Spot) (n : Nat), (d.lexemeAt i).token = .integer n →
      0 ≤ Int64.ofNat n ∧ (Int64.ofNat n).toInt = n ∧ (-Int64.ofNat n).toInt = -(n : Int) := by
  intro d
  have hd : d.Whole := Document.ofText_whole text origin options
  refine ⟨⟨Entry.ticks d, fun clock hclock => ?_⟩, ?_⟩
  · have hterm : ticks d d.options.maxDepth ≤ clock := by
      unfold Entry.ticks at hclock
      omega
    exact ⟨fun e c => e.parse_answers hd hclock c, fun e mode => pass_ends hd e mode hclock,
      fun style max rule c => expr_stays hd style max rule c hterm,
      fun _ rule classify c hdepth hend => turn_moves hd rule classify hdepth hend hterm⟩
  · intro i n hn
    have hmem : d.lexemeAt i ∈ d.lexemes ++ [d.eof] := List.getElem_mem _
    have hlexeme : d.lexemeAt i ∈ d.lexemes := by
      refine (List.mem_append.mp hmem).resolve_right fun heof => ?_
      rw [List.mem_singleton.mp heof, hd.eof] at hn
      cases hn
    have hbound := hd.integers _ hlexeme n hn
    exact ⟨Int64.zero_le_ofNat_of_lt (Nat.lt_of_le_of_lt hbound (by decide)),
      toInt_ofNat hbound, toInt_neg_ofNat hbound⟩

open Machine in
/-- The first clause cannot be read. Recovery moves on right behind its end token, and what it
holds is a number with a negation. -/
theorem parse_in_bounds_recovery :
    let d := Document.ofText ")9. b." .origin {}
    (start d).depth = 0 ∧ (d.lexemeAt (start d).pos).token ≠ .endOfText ∧
      (∃ clock last, turn .program Clause.ofTerm .thorough clock (start d) =
          some (.ok none, last) ∧ last.pos.val = 3 ∧ (start d).pos < last.pos ∧
            d.ClauseEnds (start d).pos last.pos) ∧
      ∃ i, (d.lexemeAt i).token = .integer 9 ∧ (-Int64.ofNat 9).toInt = -9 := by
  intro d
  have hd : d.Whole := Document.ofText_whole _ _ _
  let close : Lexeme := ⟨.closeRound, ⟨1, 1, 0, 1⟩, false⟩
  let nine : Lexeme := ⟨.integer 9, ⟨1, 2, 1, 2⟩, false⟩
  let stop : Lexeme := ⟨.stop, ⟨1, 3, 2, 3⟩, false⟩
  let second : List Lexeme := [⟨.name "b", ⟨1, 5, 4, 5⟩, true⟩, ⟨.stop, ⟨1, 6, 5, 6⟩, false⟩]
  have hlexemes : d.lexemes = close :: nine :: stop :: second := by decide +kernel
  have hend : (d.lexemeAt (start d).pos).token ≠ .endOfText := by
    have hfront : d.lexemeAt (start d).pos = d.front d.lexemes :=
      Document.lexemeAt_spotOf (List.suffix_refl _)
    rw [hfront, hlexemes]
    exact nofun
  have hmiss : d.clause .thorough .program d.lexemes =
      .miss ⟨d.lexemes, .termStart .program⟩ none := by
    rw [hlexemes]
    rfl
  have hskip : Document.skipClause d.lexemes = second := by
    rw [hlexemes]
    rfl
  obtain ⟨⟨enough, hbounds⟩, hintegers⟩ := parse_in_bounds ")9. b." .origin {}
  let clock := max enough (ticks d d.options.maxDepth)
  obtain ⟨result, last, hturn, hmoved⟩ := (hbounds clock (Nat.le_max_left _ _)).2.2.2 Clause
    .program Clause.ofTerm (start d) rfl hend
  obtain ⟨r, hr, htold⟩ := turn_told (e := .ofList d.lexical) hd .program Clause.ofTerm .thorough
    (Nat.le_max_right enough _) (List.suffix_refl _) none
  have hrun : turn .program Clause.ofTerm .thorough clock (start d) = some r := hr
  rw [hmiss] at htold
  have hnine : nine :: stop :: second <:+ d.lexemes := hlexemes ▸ List.suffix_cons close _
  refine ⟨rfl, hend, ⟨clock, last, ?_⟩, d.spotOf (nine :: stop :: second), ?_, ?_⟩
  · cases htold with
    | missed hmode _ => cases hmode
    | skipped _ _ =>
      obtain ⟨rfl, rfl⟩ := Prod.mk.inj (Option.some.inj (hturn.symm.trans hrun))
      obtain ⟨_, h⟩ | ⟨_, _, hforward, hclause⟩ := hmoved
      · cases h
      · refine ⟨hturn, ?_, hforward, hclause⟩
        simp only [Document.cursor_pos, Document.spotOf, hskip]
        rw [hlexemes]
        rfl
  · rw [Document.lexemeAt_spotOf hnine]
    rfl
  · refine (hintegers (d.spotOf (nine :: stop :: second)) 9 ?_).2.2
    rw [Document.lexemeAt_spotOf hnine]
    rfl

end Clausal
