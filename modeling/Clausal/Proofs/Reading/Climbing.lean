import Clausal.Proofs.Reading.Resume

/-
  Climbing — the stack of waiting operators is a recursion

  Operators that wait for their right argument are kept on a stack, which is pushed,
  popped and has its bounds restored in one loop. The grammar says it by recursion: a
  term under a bound is a primary term, and then, as long as an operator at the front
  fits, that operator with a right argument that is a term under the operator's own
  bound. Both read the same, with the same misses and the same faults, and the
  recursion nests no deeper than the primary terms it meets.

  What is proved:
    1. `climb_eq` and `climbBehind_eq` — the recursion, without its measure.
    2. `resume_eq_climbBehind` — the loop comes to what the recursion comes to, and
       hands it to the operator that waits.
    3. `operators_climb` — so one level of nesting is the recursion, and only a
       primary term can nest too deep.
-/

namespace Clausal

/-! ## Readings one after the other -/

theorem Miss.furthest_assoc (a b c : Option Miss) :
    furthest (furthest a b) c = furthest a (furthest b c) := by
  cases a with
  | none => rfl
  | some a =>
    cases b with
    | none => rfl
    | some b =>
      cases c with
      | none => simp only [furthest_none]
      | some c =>
        by_cases hab : b.rest.length < a.rest.length <;>
          by_cases hbc : c.rest.length < b.rest.length <;>
            by_cases hac : c.rest.length < a.rest.length <;>
              simp only [furthest, hab, hbc, hac, if_true, if_false] <;> omega

namespace Outcome

variable {α β γ : Type}

theorem after_after (o : Outcome α) (a b : Option Miss) :
    (o.after b).after a = o.after (Miss.furthest a b) := by
  cases o <;> simp only [after, Miss.furthest_assoc]

theorem after_andThen (o : Outcome α) (a : Option Miss) (next : α → List Lexeme → Outcome β) :
    (o.after a).andThen next = (o.andThen next).after a := by
  cases o with
  | read v rest b => rw [after, andThen, andThen, after_after]
  | miss m b => rfl
  | tooDeep rest => rfl

theorem andThen_assoc (o : Outcome α) (next : α → List Lexeme → Outcome β)
    (last : β → List Lexeme → Outcome γ) :
    (o.andThen next).andThen last = o.andThen fun v rest => (next v rest).andThen last := by
  cases o with
  | read v rest a => rw [andThen, andThen, after_andThen]
  | miss m a => rfl
  | tooDeep rest => rfl

/-- What is read next matters only where something was read. -/
theorem andThen_congr {o : Outcome α} {next next' : α → List Lexeme → Outcome β}
    (h : ∀ v rest a, o = .read v rest a → next v rest = next' v rest) :
    o.andThen next = o.andThen next' := by
  cases o with
  | read v rest a => rw [andThen, andThen, h v rest a rfl]
  | miss m a => rfl
  | tooDeep rest => rfl

end Outcome

namespace Reading

/-! ## The recursion -/

mutual

/-- A term under a bound: a primary term and what goes on behind it. -/
def climbWithin (style : Style) (sub : Reader) (max : Nat) (rule : Rule) (toks : List Lexeme) :
    { o : Outcome (Term × Nat) // o.Inside toks ∧ o.Shortens toks } :=
  match _hp : primary style sub max rule toks with
  | .read (t, priority) rest a =>
    ⟨(climbBehindWithin style sub max t priority rest).val.after a, by
      have hin := primary_inside style sub max rule toks
      have hlt := primary_shortens style sub max rule toks
      have hbehind := (climbBehindWithin style sub max t priority rest).property
      rw [_hp] at hin hlt
      refine ⟨Outcome.inside_after (hbehind.mono hin.1) hin.2, Outcome.shortens_after ?_⟩
      cases ho : (climbBehindWithin style sub max t priority rest).val with
      | read v last b =>
        rw [ho] at hbehind
        exact Nat.lt_of_le_of_lt hbehind.1.length_le hlt
      | miss m b => trivial
      | tooDeep last => trivial⟩
  | .miss m a => ⟨.miss m a, _hp ▸ primary_inside style sub max rule toks, trivial⟩
  | .tooDeep rest => ⟨.tooDeep rest, _hp ▸ primary_inside style sub max rule toks, trivial⟩
termination_by (toks.length, 1)
decreasing_by
  all_goals
    have hlt := primary_shortens style sub max rule toks
    rw [_hp] at hlt
    exact Prod.Lex.left _ _ hlt

/-- Behind the term `left`: an operator that fits, with a right argument that is a term
under the operator's bound, and what goes on behind both. -/
def climbBehindWithin (style : Style) (sub : Reader) (max : Nat) (left : Term) (priority : Nat)
    (toks : List Lexeme) : { o : Outcome (Term × Nat) // o.Inside toks } :=
  match _hc : continuation priority max (peek toks) with
  | some (.between functor op) =>
    match climbWithin style sub op.rightMax .operand toks.tail with
    | ⟨.read (right, _) rest a, h⟩ =>
      ⟨(climbBehindWithin style sub max (.compound functor [left, right]) op.priority rest).val.after
        a, by
        have htail := List.tail_suffix toks
        refine Outcome.inside_after (Outcome.Inside.mono (Subtype.property _) ?_) ?_
        · exact h.1.1.trans htail
        · exact fun m hm => (h.1.2 m hm).trans htail⟩
    | ⟨.miss m a, h⟩ => ⟨.miss m a, h.1.mono (List.tail_suffix toks)⟩
    | ⟨.tooDeep rest, h⟩ => ⟨.tooDeep rest, h.1.mono (List.tail_suffix toks)⟩
  | some (.after functor op) =>
    ⟨(climbBehindWithin style sub max (.compound functor [left]) op.priority toks.tail).val,
      Outcome.Inside.mono (Subtype.property _) (List.tail_suffix toks)⟩
  | none => ⟨.read (left, priority) toks none, List.suffix_refl toks, by simp⟩
termination_by (toks.length, 0)
decreasing_by
  all_goals
    have hpos := List.length_pos_iff.mpr (continuation_ne_nil _hc)
    refine Prod.Lex.left _ _ ?_
    try have hle := h.1.1.length_le
    simp only [List.length_tail] at *
    omega

end

/-- A term under a bound, with the priority it was read at, by recursion. -/
def climb (style : Style) (sub : Reader) (max : Nat) (rule : Rule) (toks : List Lexeme) :
    Outcome (Term × Nat) :=
  (climbWithin style sub max rule toks).val

/-- What goes on behind the term `left` of a priority, by recursion. -/
def climbBehind (style : Style) (sub : Reader) (max : Nat) (left : Term) (priority : Nat)
    (toks : List Lexeme) : Outcome (Term × Nat) :=
  (climbBehindWithin style sub max left priority toks).val

section

variable {style : Style} {sub : Reader}

theorem climb_eq (max : Nat) (rule : Rule) (toks : List Lexeme) :
    climb style sub max rule toks =
      (primary style sub max rule toks).andThen fun (t, priority) rest =>
        climbBehind style sub max t priority rest := by
  rw [climb, climbWithin]
  split
  · rename_i t priority rest a heq
    show (climbBehind style sub max t priority rest).after a = _
    rw [heq]
    rfl
  · rename_i m a heq
    show Outcome.miss m a = _
    rw [heq]
    rfl
  · rename_i rest heq
    show Outcome.tooDeep rest = _
    rw [heq]
    rfl

theorem climbBehind_eq (max : Nat) (left : Term) (priority : Nat) (toks : List Lexeme) :
    climbBehind style sub max left priority toks =
      match continuation priority max (peek toks) with
      | some (.between functor op) =>
        (climb style sub op.rightMax .operand toks.tail).andThen fun (right, _) rest =>
          climbBehind style sub max (.compound functor [left, right]) op.priority rest
      | some (.after functor op) =>
        climbBehind style sub max (.compound functor [left]) op.priority toks.tail
      | none => .read (left, priority) toks none := by
  rw [climbBehind, climbBehindWithin]
  split
  · rename_i functor op heq
    simp only [heq, climb]
    cases climbWithin style sub op.rightMax .operand toks.tail with
    | mk o h => cases o <;> rfl
  · rename_i heq
    simp only [heq]
    rfl
  · rename_i heq
    simp only [heq]

theorem climb_inside (max : Nat) (rule : Rule) (toks : List Lexeme) :
    (climb style sub max rule toks).Inside toks :=
  (climbWithin style sub max rule toks).property.1

/-! ## The loop -/

/-- The term goes to the operator that waits for it, if one does. -/
def handOver (style : Style) (sub : Reader) (pending : List Pending) (t : Term) (priority : Nat)
    (toks : List Lexeme) : Outcome (Term × Nat) :=
  match pending with
  | [] => .read (t, priority) toks none
  | outer :: others =>
    resume style sub others outer.max (.compound outer.functor [outer.left, t]) outer.priority toks

/-- The loop reads what the recursion reads behind the term, and hands it over. -/
theorem resume_eq_climbBehind (pending : List Pending) (max : Nat) (left : Term) (priority : Nat)
    (toks : List Lexeme) :
    resume style sub pending max left priority toks =
      (climbBehind style sub max left priority toks).andThen fun (t, p) rest =>
        handOver style sub pending t p rest := by
  rw [climbBehind_eq]
  cases hc : continuation priority max (peek toks) with
  | none =>
    rw [Outcome.andThen_read]
    cases pending with
    | nil => exact resume_nil hc
    | cons outer others => exact resume_pop outer others hc
  | some c =>
    have hpos := List.length_pos_iff.mpr (continuation_ne_nil hc)
    have htail : toks.tail.length < toks.length := by rw [List.length_tail]; omega
    cases c with
    | after functor op =>
      rw [resume_after pending hc]
      exact resume_eq_climbBehind pending max _ op.priority toks.tail
    | between functor op =>
      let waiting : Pending := ⟨left, functor, op.priority, max⟩
      -- The right argument is read with the operator on the stack, which is popped when
      -- the argument is complete; from there on both go on behind the whole term.
      have hright : resume style sub pending max left priority toks =
          (climb style sub op.rightMax .operand toks.tail).andThen fun (t, p) rest =>
            handOver style sub (waiting :: pending) t p rest := by
        rw [resume_between pending hc, start, climb_eq, Outcome.andThen_assoc]
        refine Outcome.andThen_congr fun v rest a hread => ?_
        have hlt := primary_shortens style sub op.rightMax .operand toks.tail
        rw [hread] at hlt
        have : rest.length < toks.length := Nat.lt_trans hlt htail
        exact resume_eq_climbBehind (waiting :: pending) op.rightMax v.1 v.2 rest
      rw [hright, Outcome.andThen_assoc]
      refine Outcome.andThen_congr fun v rest a hread => ?_
      have hin : (climb style sub op.rightMax .operand toks.tail).Inside toks.tail :=
        climb_inside op.rightMax .operand toks.tail
      rw [hread] at hin
      have : rest.length < toks.length := Nat.lt_of_le_of_lt hin.1.length_le htail
      exact resume_eq_climbBehind pending max _ op.priority rest
termination_by toks.length

/-! ## Depth -/

/-- A nesting too deep is that of a primary term on the way. -/
def DeepInPrimary (style : Style) (sub : Reader) (toks : List Lexeme) (o : Outcome (Term × Nat)) :
    Prop :=
  ∀ rest, o = .tooDeep rest →
    ∃ max rule part, part <:+ toks ∧ primary style sub max rule part = .tooDeep rest

theorem DeepInPrimary.mono {part toks : List Lexeme} {o : Outcome (Term × Nat)}
    (h : DeepInPrimary style sub part o) (hpart : part <:+ toks) :
    DeepInPrimary style sub toks o := by
  intro rest ho
  obtain ⟨max, rule, within, hwithin, hprimary⟩ := h rest ho
  exact ⟨max, rule, within, hwithin.trans hpart, hprimary⟩

theorem deepInPrimary_andThen {toks : List Lexeme} {o : Outcome (Term × Nat)}
    {next : Term × Nat → List Lexeme → Outcome (Term × Nat)} (ho : DeepInPrimary style sub toks o)
    (hnext : ∀ v rest a, o = .read v rest a → DeepInPrimary style sub toks (next v rest)) :
    DeepInPrimary style sub toks (o.andThen next) := by
  cases o with
  | read v rest a =>
    intro deep hdeep
    cases hread : next v rest with
    | tooDeep last =>
      rw [Outcome.andThen, hread] at hdeep
      exact hnext v rest a rfl deep (hread.trans hdeep)
    | read w last b =>
      rw [Outcome.andThen, hread] at hdeep
      cases hdeep
    | miss m b =>
      rw [Outcome.andThen, hread] at hdeep
      cases hdeep
  | miss m a =>
    intro deep hdeep
    cases hdeep
  | tooDeep rest => exact ho

theorem deepInPrimary_primary (max : Nat) (rule : Rule) (toks : List Lexeme) :
    DeepInPrimary style sub toks (primary style sub max rule toks) :=
  fun _ h => ⟨max, rule, toks, List.suffix_refl toks, h⟩

theorem deepInPrimary_climbBehind (max : Nat) (left : Term) (priority : Nat) (toks : List Lexeme) :
    DeepInPrimary style sub toks (climbBehind style sub max left priority toks) := by
  rw [climbBehind_eq]
  cases hc : continuation priority max (peek toks) with
  | none =>
    intro rest h
    cases h
  | some c =>
    have hpos := List.length_pos_iff.mpr (continuation_ne_nil hc)
    have htail : toks.tail.length < toks.length := by rw [List.length_tail]; omega
    have hsuffix := List.tail_suffix toks
    cases c with
    | after functor op =>
      exact (deepInPrimary_climbBehind max _ op.priority toks.tail).mono hsuffix
    | between functor op =>
      have hright : DeepInPrimary style sub toks.tail
          (climb style sub op.rightMax .operand toks.tail) := by
        rw [climb_eq]
        refine deepInPrimary_andThen (deepInPrimary_primary _ _ _) fun v rest a hread => ?_
        have hin := primary_inside style sub op.rightMax .operand toks.tail
        have hlt := primary_shortens style sub op.rightMax .operand toks.tail
        rw [hread] at hin hlt
        have : rest.length < toks.length := Nat.lt_trans hlt htail
        exact (deepInPrimary_climbBehind op.rightMax v.1 v.2 rest).mono hin.1
      refine deepInPrimary_andThen (hright.mono hsuffix) fun v rest a hread => ?_
      have hin : (climb style sub op.rightMax .operand toks.tail).Inside toks.tail :=
        climb_inside op.rightMax .operand toks.tail
      rw [hread] at hin
      have : rest.length < toks.length := Nat.lt_of_le_of_lt hin.1.length_le htail
      exact (deepInPrimary_climbBehind max _ op.priority rest).mono (hin.1.trans hsuffix)
termination_by toks.length

theorem deepInPrimary_climb (max : Nat) (rule : Rule) (toks : List Lexeme) :
    DeepInPrimary style sub toks (climb style sub max rule toks) := by
  rw [climb_eq]
  refine deepInPrimary_andThen (deepInPrimary_primary max rule toks) fun v rest a hread => ?_
  have hin := primary_inside style sub max rule toks
  rw [hread] at hin
  exact (deepInPrimary_climbBehind max v.1 v.2 rest).mono hin.1

end

/-- One level of nesting is the recursion, for every reader of the levels below: the same
term, priority and lexemes left, or the same miss or fault. All primary terms of a chain
of operators are read with those levels, however long it is, and only one of them can
nest too deep. -/
theorem operators_climb (style : Style) (sub : Reader) (max : Nat) (rule : Rule)
    (toks : List Lexeme) :
    operators style sub max rule toks = climb style sub max rule toks ∧
      (∀ levels, (terms style (levels + 1)).read max rule toks =
        climb style (terms style levels) max rule toks) ∧
      ∀ rest, climb style sub max rule toks = .tooDeep rest →
        ∃ max rule part, part <:+ toks ∧ primary style sub max rule part = .tooDeep rest := by
  have hclimb : ∀ sub, operators style sub max rule toks = climb style sub max rule toks := by
    intro sub
    rw [operators, climb_eq]
    refine Outcome.andThen_congr fun v rest a _ => ?_
    calc resume style sub [] max v.1 v.2 rest
        = (climbBehind style sub max v.1 v.2 rest).andThen fun (t, p) last =>
            .read (t, p) last none := resume_eq_climbBehind [] max v.1 v.2 rest
      _ = climbBehind style sub max v.1 v.2 rest := by
        cases climbBehind style sub max v.1 v.2 rest <;>
          simp [Outcome.andThen, Outcome.after, Miss.furthest_none]
  exact ⟨hclimb sub, fun levels => hclimb (terms style levels), deepInPrimary_climb max rule toks⟩

/-- In `X, (Y)` on one level the right argument of the comma nests too deep. -/
theorem operators_climb_bracket :
    let comma : Lexeme := ⟨.comma, ⟨1, 2, 1, 2⟩, false⟩
    let opening : Lexeme := ⟨.openRound, ⟨1, 4, 3, 4⟩, true⟩
    let within : List Lexeme :=
      [⟨.var "Y", ⟨1, 5, 4, 5⟩, false⟩, ⟨.closeRound, ⟨1, 6, 5, 6⟩, false⟩]
    let toks : List Lexeme := ⟨.var "X", ⟨1, 1, 0, 1⟩, false⟩ :: comma :: opening :: within
    let style : Style := ⟨.codes, .thorough⟩
    climb style exhausted maxPriority .term toks = .tooDeep within ∧
      ∃ max rule part, part <:+ toks ∧ primary style exhausted max rule part = .tooDeep within := by
  intro comma opening within toks style
  have hcomma : continuation 0 maxPriority (peek (comma :: opening :: within)) =
      some (.between "," ⟨1000, .xfy⟩) := by decide
  have hdeep : climb style exhausted maxPriority .term toks = .tooDeep within := calc
    climb style exhausted maxPriority .term toks
        = climbBehind style exhausted maxPriority (.var "X") 0 (comma :: opening :: within) := by
          rw [climb_eq]
          exact Outcome.andThen_read _ _ _
      _ = .tooDeep within := by
          rw [climbBehind_eq, hcomma]
          simp only [climb_eq]
          rfl
  exact ⟨hdeep, (operators_climb style exhausted maxPriority .term toks).2.2 within hdeep⟩

end Reading

end Clausal
