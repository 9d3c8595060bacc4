import Clausal.Proofs.Reading.Readers

/-
  Terms by cursor — the readers of terms do what those by recursion do

  Each reader of terms by cursor, given one for the terms within that comes to what
  another reads, comes to what its counterpart reads with the other. An operator's argument
  that is given up puts the cursor back where it was saved, and there it stands in front of
  the same lexemes.

  The clock has to outlast every loop. What a loop has left is measured in lexemes, for
  operators also in those that wait, and each turn has one less of it; a term within
  another takes one tick. So the number of lexemes and the levels left bound the ticks.

  What is proved:
    1. `arguments_comesTo`, `elements_comesTo`, `resume_comesTo` — the loops.
    2. `application_comesTo` — the one reader that goes back.
    3. `expr_comesTo` — terms, by induction on the levels left.
-/

namespace Clausal

open Reading (Pending)

namespace Outcome

variable {α β γ : Type}

theorem map_andThen (o : Outcome α) (next : α → List Lexeme → Outcome β) (w : β → γ) :
    (o.andThen next).map w = o.andThen fun v rest => (next v rest).map w := by
  cases o with
  | read v rest a =>
    simp only [andThen]
    cases next v rest <;> rfl
  | _ => rfl

theorem map_map (o : Outcome α) (v : α → β) (w : β → γ) :
    (o.map v).map w = o.map fun x => w (v x) := by
  cases o <;> rfl

theorem map_id' (o : Outcome α) : o.map (fun v => v) = o := by
  cases o <;> rfl

end Outcome

/-! ## Terms -/

namespace Machine

variable {d : Document} {α : Type} {k : Nat} {g : Option Miss} {e : DiagnosticSet}
  {toks : List Lexeme}

section

variable {read : (max : Nat) → (rule : Rule) → Machine d (Term × Nat)} {sub : Reader}

/-- The reader comes to what the other reads, within `k` terms. -/
def Retells (k : Nat) (read : (max : Nat) → (rule : Rule) → Machine d (Term × Nat))
    (sub : Reader) : Prop :=
  ∀ max rule toks, ComesTo (read max rule) k toks (sub.read max rule toks)

theorem enclosed_comesTo (hd : d.Whole) (hsub : Retells k read sub) (rule : Rule) {close : Token}
    (shown : String) (hstop : close ≠ .stop) (hend : close ≠ .endOfText) :
    ComesTo (enclosed read rule close shown) k toks
      (Reading.enclosed sub rule close shown toks) := by
  refine bind_comesTo (hsub _ _ _) ?_
  rintro ⟨t, priority⟩ rest _ _
  exact map_comesTo (fun _ => t) (expect_comesTo hd _ hstop hend)

theorem arguments_comesTo (hd : d.Whole) (hsub : Retells k read sub) :
    ∀ {clock : Nat} (args : List Term) (toks : List Lexeme), toks.length < clock →
      ComesTo (arguments read clock args) k toks
        ((Reading.arguments sub toks).map (args ++ ·)) := by
  intro clock
  induction clock with
  | zero => exact fun _ _ h => absurd h (Nat.not_lt_zero _)
  | succ clock ih =>
    intro args toks hclock
    rw [Reading.arguments_eq, Outcome.map_andThen]
    refine bind_comesTo (hsub _ _ _) ?_
    rintro ⟨t, priority⟩ rest a hread
    -- An argument takes a lexeme at least, so the clock outlasts the others.
    have hlt := sub.pred_length_lt hread
    refine here_comesTo fun _ => ?_
    rw [Document.token_front hd]
    cases hpeek : peek rest with
    | comma =>
      refine behind_comesTo hd hpeek ⟨nofun, nofun⟩ ?_
      have hargs : (fun more => args ++ t :: more) = (args ++ [t] ++ ·) := by
        funext more
        exact List.append_cons args t more
      rw [Outcome.map_map, hargs]
      exact ih (args ++ [t]) rest.tail (by rw [List.length_tail]; omega)
    | closeRound =>
      exact behind_comesTo hd hpeek ⟨nofun, nofun⟩ (pure_comesTo _)
    | _ => exact miss_comesTo _

theorem compoundTerm_comesTo (hd : d.Whole) (hsub : Retells k read sub) {clock : Nat}
    (functor : String) (hpeek : peek toks = .openRound) (hclock : toks.length < clock) :
    ComesTo (compoundTerm read clock functor) k toks
      (Reading.compoundTerm sub functor toks) := by
  refine behind_comesTo hd hpeek ⟨nofun, nofun⟩ ?_
  have htail : toks.tail.length < clock := by
    rw [List.length_tail]
    omega
  have hargs := arguments_comesTo hd hsub [] toks.tail htail
  exact map_comesTo _ (by simpa only [List.nil_append, Outcome.map_id'] using hargs)

theorem elements_comesTo (hd : d.Whole) (hsub : Retells k read sub) :
    ∀ {clock : Nat} (heads : List Term) (toks : List Lexeme), toks.length < clock →
      ComesTo (elements read clock heads) k toks
        ((Reading.elements sub toks).map (Term.listWithTail heads)) := by
  intro clock
  induction clock with
  | zero => exact fun _ _ h => absurd h (Nat.not_lt_zero _)
  | succ clock ih =>
    intro heads toks hclock
    rw [Reading.elements_eq, Outcome.map_andThen]
    refine bind_comesTo (hsub _ _ _) ?_
    rintro ⟨t, priority⟩ rest a hread
    have hlt := sub.pred_length_lt hread
    have hheads : Term.listWithTail (heads ++ [t]) = fun tail =>
        Term.listWithTail heads (.cons t tail) := funext fun tail => List.foldr_append
    refine here_comesTo fun _ => ?_
    rw [Document.token_front hd]
    cases hpeek : peek rest with
    | comma =>
      refine behind_comesTo hd hpeek ⟨nofun, nofun⟩ ?_
      rw [Outcome.map_map, ← hheads]
      exact ih (heads ++ [t]) rest.tail (by rw [List.length_tail]; omega)
    | bar =>
      refine behind_comesTo hd hpeek ⟨nofun, nofun⟩ ?_
      simp only [Outcome.map_andThen, Outcome.map_map]
      refine bind_comesTo (hsub _ _ _) ?_
      rintro ⟨tail, priority⟩ last b _
      have hlist := congrFun hheads tail
      rw [← hlist]
      exact map_comesTo _ (expect_comesTo hd _ (by decide) (by decide))
    | closeSquare =>
      refine behind_comesTo hd hpeek ⟨nofun, nofun⟩ ?_
      rw [Outcome.map_read, ← congrFun hheads .nil]
      exact pure_comesTo _
    | _ => exact miss_comesTo _

theorem listTerm_comesTo (hd : d.Whole) (hsub : Retells k read sub) {clock : Nat}
    (hclock : toks.length < clock) :
    ComesTo (listTerm read clock) k toks (Reading.listTerm sub toks) := by
  refine here_comesTo fun _ => ?_
  rw [Document.token_front hd, Reading.listTerm]
  split
  · rename_i hpeek
    exact behind_comesTo hd hpeek ⟨nofun, nofun⟩ (pure_comesTo _)
  · have hnone : Term.listWithTail [] = fun tail => tail := rfl
    have h := elements_comesTo hd hsub [] toks hclock
    rwa [hnone, Outcome.map_id'] at h

theorem curlyTerm_comesTo (hd : d.Whole) (hsub : Retells k read sub) :
    ComesTo (curlyTerm read) k toks (Reading.curlyTerm sub toks) := by
  refine here_comesTo fun _ => ?_
  rw [Document.token_front hd, Reading.curlyTerm]
  split
  · rename_i hpeek
    exact behind_comesTo hd hpeek ⟨nofun, nofun⟩ (pure_comesTo _)
  · exact map_comesTo _ (enclosed_comesTo hd hsub _ _ (by decide) (by decide))

theorem application_comesTo (hd : d.Whole) (hsub : Retells k read sub) (style : Style)
    (name : String) (op : Operator) (max : Nat) :
    ComesTo (application style read name op max) k toks
      (Reading.application style sub name op max toks) := by
  intro hin g e hg
  obtain ⟨r, hr, htold⟩ := hsub (min op.rightMax (min op.priority max)) .operand toks hin g e hg
  obtain ⟨quotes, mode⟩ := style
  rw [Reading.application]
  simp only [application, hr, Option.bind_eq_bind, Option.bind_some]
  generalize sub.read (min op.rightMax (min op.priority max)) .operand toks = o at htold
  -- The cursor may go back to where it was saved, in front of `toks`.
  cases htold with
  | @read v rest a hwithin hknown =>
    obtain ⟨t, priority⟩ := v
    have htoken : (d.lexemeAt (d.spotOf rest)).token = peek rest := by
      rw [Document.lexemeAt_spotOf (hwithin.suffix.trans hin), Document.token_front hd]
    cases mode with
    | fast => exact ⟨_, rfl, .read hwithin hknown⟩
    | thorough =>
      simp only [Reading.applied, Document.cursor, htoken, reduceCtorEq, false_or]
      split
      · exact ⟨_, rfl, .read hwithin hknown⟩
      · exact ⟨_, rfl, .read (Within.refl toks) hknown⟩
  | @miss m a hwithin hknown =>
    cases mode with
    | fast => exact ⟨_, rfl, .miss hwithin hknown⟩
    | thorough =>
      have hm := hwithin.suffix.trans hin
      have hlast : d.Known (Miss.furthest (Miss.furthest g a) (some m)) :=
        hknown.furthest fun x hx => Option.some.inj hx ▸ hm
      have hfurthest := Document.furthest_stopOf hknown hm
      rw [Miss.furthest_assoc] at hlast hfurthest
      refine ⟨_, rfl, ?_⟩
      simp only [Reading.applied, Document.cursor, hfurthest, reduceCtorEq, if_false]
      exact .read (Within.refl toks) hlast
  | tooDeep hwithin =>
    cases mode with
    | fast => exact ⟨_, rfl, .tooDeep hwithin⟩
    | thorough => exact ⟨_, rfl, .tooDeep hwithin⟩

theorem peek_of_opensArguments (h : Reading.opensArguments toks = true) :
    peek toks = .openRound := by
  obtain ⟨opening, htoks, hround, _⟩ := Reading.opening_of_opensArguments h
  rw [htoks]
  exact hround

/-- The number that a minus stands before, told by the lexeme in front. -/
theorem negativeLiteral_front (name : String) (toks : List Lexeme) :
    (if name = "-" then Reading.negativeLiteral toks else none) =
      match name == "-" && !(d.front toks).layoutBefore, peek toks with
      | true, .integer n => some (.integer (-n))
      | true, .float x => some (.float (-x))
      | _, _ => none := by
  cases toks with
  | nil => simp [Reading.negativeLiteral, Document.front, peek]
  | cons l rest =>
    by_cases hname : name = "-"
    · cases hlayout : l.layoutBefore <;> cases htoken : l.token <;>
        simp [Reading.negativeLiteral, Document.front, peek, hname, hlayout, htoken]
    · simp [hname]

/-- A name that is neither a functor nor a minus before a number. -/
theorem plainName_comesTo (hd : d.Whole) (hsub : Retells k read sub) (style : Style)
    (name : String) (max : Nat) (toks : List Lexeme) :
    ComesTo (match Operator.before? name with
      | none => pure (.atom name, 0)
      | some op =>
        if (peek toks).startsTerm then application style read name op max
        else pure (.atom name, 0)) k toks (match Operator.before? name with
      | none => Reading.simple (.atom name) toks
      | some op =>
        if (peek toks).startsTerm then Reading.application style sub name op max toks
        else Reading.simple (.atom name) toks) := by
  cases Operator.before? name with
  | none => exact pure_comesTo _
  | some op =>
    dsimp only
    split
    · exact application_comesTo hd hsub style name op max
    · exact pure_comesTo _

theorem nameTerm_comesTo (hd : d.Whole) (hsub : Retells k read sub) (style : Style)
    {clock : Nat} (name : String) (max : Nat) (hclock : toks.length < clock) :
    ComesTo (nameTerm style read clock name max) k toks
      (Reading.nameTerm style sub name max toks) := by
  refine opensArguments_comesTo hd ?_
  rw [Reading.nameTerm]
  split
  · rename_i hopens
    exact compoundTerm_comesTo hd hsub name (peek_of_opensArguments hopens) hclock
  · refine here_comesTo fun hin => ?_
    rw [negativeLiteral_front, Document.token_front hd]
    have hplain := plainName_comesTo hd hsub style name max toks
    cases hminus : name == "-" && !(d.front toks).layoutBefore with
    | false => exact hplain
    | true =>
      cases hpeek : peek toks with
      | integer n =>
        rw [hpeek] at hplain
        refine behind_comesTo hd hpeek ⟨nofun, nofun⟩ ?_
        obtain ⟨l, htoks, hl⟩ := cons_of_peek hpeek nofun
        have hmem : l ∈ d.lexemes := hin.subset (htoks ▸ List.mem_cons_self)
        rw [negate_eq (hd.integers l hmem n hl), pure_bind]
        exact pure_comesTo _
      | float x =>
        exact behind_comesTo hd hpeek ⟨nofun, nofun⟩ (pure_comesTo _)
      | _ =>
        rw [hpeek] at hplain
        exact hplain

theorem primary_comesTo (hd : d.Whole) (hsub : Retells k read sub) (style : Style)
    {clock : Nat} (max : Nat) (rule : Rule) (hclock : toks.length < clock) :
    ComesTo (primary style read clock max rule) k toks
      (Reading.primary style sub max rule toks) := by
  have htail : toks.tail.length < clock := by
    rw [List.length_tail]
    omega
  refine here_comesTo fun _ => ?_
  rw [Document.token_front hd, Reading.primary]
  cases hpeek : peek toks with
  | integer n => exact behind_comesTo hd hpeek ⟨nofun, nofun⟩ (pure_comesTo _)
  | float x => exact behind_comesTo hd hpeek ⟨nofun, nofun⟩ (pure_comesTo _)
  | var name => exact behind_comesTo hd hpeek ⟨nofun, nofun⟩ (pure_comesTo _)
  | string text => exact behind_comesTo hd hpeek ⟨nofun, nofun⟩ (pure_comesTo _)
  | backQuoted text =>
    exact behind_comesTo hd hpeek ⟨nofun, nofun⟩ (pure_comesTo _)
  | openRound =>
    refine behind_comesTo hd hpeek ⟨nofun, nofun⟩ ?_
    exact map_comesTo _ (enclosed_comesTo hd hsub _ _ (by decide) (by decide))
  | openSquare =>
    refine behind_comesTo hd hpeek ⟨nofun, nofun⟩ ?_
    exact map_comesTo _ (listTerm_comesTo hd hsub htail)
  | openCurly =>
    refine behind_comesTo hd hpeek ⟨nofun, nofun⟩ ?_
    exact map_comesTo _ (curlyTerm_comesTo hd hsub)
  | quotedName name =>
    refine behind_comesTo hd hpeek ⟨nofun, nofun⟩ (opensArguments_comesTo hd ?_)
    cases hopens : Reading.opensArguments toks.tail with
    | true =>
      exact compoundTerm_comesTo hd hsub name (peek_of_opensArguments hopens) htail
    | false => exact pure_comesTo _
  | name name =>
    refine behind_comesTo hd hpeek ⟨nofun, nofun⟩ ?_
    exact nameTerm_comesTo hd hsub style name max htail
  | _ => exact miss_comesTo _

theorem resume_comesTo (hd : d.Whole) (hsub : Retells k read sub) (style : Style) :
    ∀ {clock : Nat} (pending : List Pending) (max : Nat) (left : Term) (priority : Nat)
      (toks : List Lexeme), 2 * toks.length + pending.length < clock →
      ComesTo (resume style read clock pending max left priority) k toks
        (Reading.resume style sub pending max left priority toks) := by
  intro clock
  induction clock with
  | zero => exact fun _ _ _ _ _ h => absurd h (Nat.not_lt_zero _)
  | succ clock ih =>
    intro pending max left priority toks hclock
    refine here_comesTo fun _ => ?_
    rw [Document.token_front hd, Reading.resume_eq]
    -- An operator takes a lexeme and leaves at most one term waiting; without one, a term
    -- that waited does so no more. What is measured gets less both ways.
    cases hcont : Reading.continuation priority max (peek toks) with
    | some c =>
      have hclause : peek toks ≠ .stop ∧ peek toks ≠ .endOfText := by
        constructor <;> intro htoken <;> rw [htoken] at hcont <;> cases hcont
      have hpos := List.length_pos_iff.mpr (Reading.continuation_ne_nil hcont)
      have htail : toks.tail.length = toks.length - 1 := List.length_tail
      cases c with
      | between functor op =>
        refine behind_comesTo hd rfl hclause (bind_comesTo
          (primary_comesTo hd hsub style op.rightMax .operand (by omega)) ?_)
        rintro ⟨right, rightPriority⟩ rest a hread
        have hlt := Reading.primary_shortens style sub op.rightMax .operand toks.tail
        rw [hread, Outcome.Shortens] at hlt
        exact ih _ _ _ _ _ (by rw [List.length_cons]; omega)
      | after functor op => exact behind_comesTo hd rfl hclause (ih _ _ _ _ _ (by omega))
    | none =>
      cases pending with
      | nil => exact pure_comesTo _
      | cons outer others =>
        rw [List.length_cons] at hclock
        exact ih _ _ _ _ _ (by omega)

theorem operators_comesTo (hd : d.Whole) (hsub : Retells k read sub) (style : Style)
    {clock : Nat} (max : Nat) (rule : Rule) (hclock : 2 * toks.length < clock) :
    ComesTo (operators style read clock max rule) k toks
      (Reading.operators style sub max rule toks) := by
  refine bind_comesTo (primary_comesTo hd hsub style max rule (by omega)) ?_
  rintro ⟨left, priority⟩ rest a hread
  have hin := Reading.primary_inside style sub max rule toks
  rw [hread] at hin
  have hlength := hin.1.length_le
  exact resume_comesTo hd hsub style [] max left priority rest (by
    rw [List.length_nil]
    omega)

end

/-- So many ticks are enough for terms that nest `levels` deep. -/
def ticks (d : Document) (levels : Nat) : Nat := levels + 2 * d.lexemes.length + 1

/-- Behind a term the cursor is within one term less. -/
theorem Told.shallower {o : Outcome α} {r : Except (Halt d) α × Cursor d}
    (h : Told d (k + 1) g e toks o r) :
    Told d k g e toks o (r.1, { r.2 with depth := r.2.depth - 1 }) := by
  cases h with
  | read hwithin hknown => exact .read hwithin hknown
  | miss hwithin hknown => exact .miss hwithin hknown
  | tooDeep hwithin => exact .tooDeep hwithin

/-- A term is read as deep as the levels left, whatever the clock shows. -/
theorem expr_comesTo (hd : d.Whole) (style : Style) (levels : Nat) :
    ∀ {clock k : Nat}, ticks d levels ≤ clock → levels = d.options.maxDepth - k →
      Retells (d := d) k (expr style clock) (Reading.terms style levels) := by
  induction levels with
  | zero =>
    -- No level is left: the depth is at its limit, and the clock shows one tick at least.
    intro clock k hclock hlevels max rule toks hin g e hg
    have hpos : clock ≠ 0 := by
      rintro rfl
      exact absurd hclock (Nat.not_succ_le_zero _)
    obtain ⟨clock, rfl⟩ := Nat.exists_eq_succ_of_ne_zero hpos
    have hdeep : (d.cursor toks k g e).depth + 1 > d.options.maxDepth := by
      rw [Document.cursor_depth]
      omega
    have hfault : tooDeep (d.spotOf toks) = d.tooDeepAt toks := by
      rw [tooDeep, Document.lexemeAt_spotOf hin]
      rfl
    refine ⟨(.error (.fault (tooDeep (d.spotOf toks))), d.cursor toks k g e), ?_, ?_⟩
    · simp only [expr, hdeep, if_true]
      rfl
    · rw [hfault]
      exact .tooDeep (s := g.map d.stopOf) (Within.refl toks)
  | succ levels ih =>
    intro clock k hclock hlevels max rule toks hin g e hg
    obtain ⟨clock, rfl⟩ : ∃ c, clock = c + 1 := ⟨clock - 1, by unfold ticks at hclock; omega⟩
    unfold ticks at hclock
    have hlength := hin.length_le
    have hsub : Retells (d := d) (k + 1) (expr style clock) (Reading.terms style levels) :=
      ih (by unfold ticks; omega) (by omega)
    have henough : 2 * toks.length < clock := by omega
    obtain ⟨r, hr, htold⟩ := operators_comesTo hd hsub style max rule henough hin g e hg
    have hdeep : ¬ (d.cursor toks k g e).depth + 1 > d.options.maxDepth := by
      rw [Document.cursor_depth]
      omega
    refine ⟨_, ?_, htold.shallower⟩
    have hdeeper : { d.cursor toks k g e with depth := (d.cursor toks k g e).depth + 1 } =
      d.cursor toks (k + 1) g e := rfl
    simp only [expr, hdeep, if_false, hdeeper, hr]
    rfl

end Machine

end Clausal
