import Clausal.Proofs.Reading.Resume

/-
  Settled outcomes — what the fast way of reading finds for good

  The fast way keeps to the first reading of an operator before its argument,
  the thorough way looks at what follows it. A reading is settled when what it
  leaves is something that may follow an operand: then the thorough way has
  nothing to object to in it. A term that goes on behind an operand begins with
  such a token, and so does everything that a bracket, a list or a clause goes on
  with, so that whatever comes to its end has settled parts only. Nesting too
  deep is settled at once, for nothing is read behind it.

  What is proved:
    1. `resume_settled` — a loop that comes to a settled end began before
       something that may follow an operand.
    2. `terms_agrees` — on every level the thorough way comes to each settled
       outcome of the fast way.
-/

namespace Clausal

open Reading (followsOperand)

/-- The lexemes begin with something that may follow an operand. -/
def Plausible (toks : List Lexeme) : Prop := followsOperand (peek toks) = true

/-- The outcome is no miss, and a value was read before lexemes of this kind. -/
def Outcome.Settled {α : Type} (before : List Lexeme → Prop) : Outcome α → Prop
  | .read _ rest _ => before rest
  | .miss _ _ => False
  | .tooDeep _ => True

namespace Outcome

variable {α β : Type} {before : List Lexeme → Prop}

@[simp] theorem settled_map {o : Outcome α} {f : α → β} :
    (o.map f).Settled before ↔ o.Settled before := by
  cases o <;> exact Iff.rfl

@[simp] theorem settled_after {o : Outcome α} {a : Option Miss} :
    (o.after a).Settled before ↔ o.Settled before := by
  cases o <;> exact Iff.rfl

/-- Where the first part of a reading is left by the second part at something
plausible, the reading is the same with parts that agree on settled outcomes. -/
theorem andThen_agrees {o o' : Outcome α} {next next' : α → List Lexeme → Outcome β}
    (h : (o.andThen next).Settled before) (ho : o.Settled Plausible → o' = o)
    (hnext : ∀ v rest a, o = .read v rest a → (next v rest).Settled before →
      Plausible rest ∧ next' v rest = next v rest) :
    o'.andThen next' = o.andThen next := by
  cases o with
  | read v rest a =>
    rw [andThen, settled_after] at h
    obtain ⟨hfollows, heq⟩ := hnext v rest a rfl h
    rw [ho hfollows, andThen, andThen, heq]
  | miss m a => cases h
  | tooDeep rest =>
    rw [ho trivial]
    rfl

end Outcome

/-- What a token that closes something ends with is plausible before it. -/
theorem plausible_of_expect {token : Token} {expected : Expected} {toks : List Lexeme}
    {before : List Lexeme → Prop} (htoken : followsOperand token = true)
    (h : (expect token expected toks).Settled before) : Plausible toks := by
  unfold expect at h
  split at h
  · rename_i hpeek
    rw [Plausible, hpeek]
    exact htoken
  · cases h

namespace Reading

/-- One reader comes to every settled outcome of another. -/
def Agrees (thorough fast : Reader) : Prop :=
  ∀ max rule toks, (fast.read max rule toks).Settled Plausible →
    thorough.read max rule toks = fast.read max rule toks

/-! ## Brackets -/

section

variable {quotes : DoubleQuotes} {thorough fast : Reader} {before : List Lexeme → Prop}

theorem enclosed_agrees (hsub : Agrees thorough fast) {rule : Rule} {close : Token}
    {shown : String} {toks : List Lexeme} (hclose : followsOperand close = true)
    (h : (enclosed fast rule close shown toks).Settled before) :
    enclosed thorough rule close shown toks = enclosed fast rule close shown toks := by
  refine Outcome.andThen_agrees h (hsub _ _ _) fun v rest a _ hnext => ⟨?_, rfl⟩
  exact plausible_of_expect hclose (Outcome.settled_map.mp hnext)

theorem arguments_agrees (hsub : Agrees thorough fast) (toks : List Lexeme)
    (h : (arguments fast toks).Settled before) :
    arguments thorough toks = arguments fast toks := by
  rw [arguments_eq] at h
  rw [arguments_eq, arguments_eq]
  refine Outcome.andThen_agrees h (hsub _ _ _) ?_
  rintro ⟨t, priority⟩ rest a hread hnext
  have := fast.pred_length_lt hread
  cases hpeek : peek rest with
  | comma =>
    simp only [hpeek, Outcome.settled_map] at hnext ⊢
    rw [arguments_agrees hsub rest.tail hnext]
    exact ⟨by rw [Plausible, hpeek]; rfl, rfl⟩
  | closeRound =>
    simp only
    exact ⟨by rw [Plausible, hpeek]; rfl, trivial⟩
  | _ => simp [hpeek, Outcome.Settled] at hnext
termination_by toks.length

theorem elements_agrees (hsub : Agrees thorough fast) (toks : List Lexeme)
    (h : (elements fast toks).Settled before) : elements thorough toks = elements fast toks := by
  rw [elements_eq] at h
  rw [elements_eq, elements_eq]
  refine Outcome.andThen_agrees h (hsub _ _ _) ?_
  rintro ⟨t, priority⟩ rest a hread hnext
  have := fast.pred_length_lt hread
  cases hpeek : peek rest with
  | comma =>
    simp only [hpeek, Outcome.settled_map] at hnext ⊢
    rw [elements_agrees hsub rest.tail hnext]
    exact ⟨by rw [Plausible, hpeek]; rfl, rfl⟩
  | bar =>
    simp only [hpeek] at hnext ⊢
    refine ⟨by rw [Plausible, hpeek]; rfl, ?_⟩
    refine Outcome.andThen_agrees hnext (hsub _ _ _) fun v last a _ hlast => ⟨?_, rfl⟩
    exact plausible_of_expect rfl (Outcome.settled_map.mp hlast)
  | closeSquare =>
    simp only
    exact ⟨by rw [Plausible, hpeek]; rfl, trivial⟩
  | _ => simp [hpeek, Outcome.Settled] at hnext
termination_by toks.length

theorem listTerm_agrees (hsub : Agrees thorough fast) {toks : List Lexeme}
    (h : (listTerm fast toks).Settled before) : listTerm thorough toks = listTerm fast toks := by
  unfold listTerm at h ⊢
  split
  · rfl
  · rename_i hclose
    rw [if_neg hclose] at h
    exact elements_agrees hsub toks h

theorem curlyTerm_agrees (hsub : Agrees thorough fast) {toks : List Lexeme}
    (h : (curlyTerm fast toks).Settled before) : curlyTerm thorough toks = curlyTerm fast toks := by
  unfold curlyTerm at h ⊢
  split
  · rfl
  · rename_i hclose
    rw [if_neg hclose, Outcome.settled_map] at h
    rw [enclosed_agrees hsub rfl h]

theorem compoundTerm_agrees (hsub : Agrees thorough fast) {functor : String} {toks : List Lexeme}
    (h : (compoundTerm fast functor toks).Settled before) :
    compoundTerm thorough functor toks = compoundTerm fast functor toks := by
  unfold compoundTerm at h ⊢
  rw [arguments_agrees hsub toks.tail (Outcome.settled_map.mp h)]

/-! ## Operators before their argument -/

/-- An argument before something plausible is kept in both ways of reading. -/
theorem application_agrees (hsub : Agrees thorough fast) {name : String} {op : Operator}
    {max : Nat} {rest : List Lexeme}
    (h : (application ⟨quotes, .fast⟩ fast name op max rest).Settled Plausible) :
    application ⟨quotes, .thorough⟩ thorough name op max rest =
      application ⟨quotes, .fast⟩ fast name op max rest := by
  unfold application at h ⊢
  cases hread : fast.read (min op.rightMax (min op.priority max)) .operand rest with
  | read v last a =>
    obtain ⟨t, priority⟩ := v
    have hfollows : followsOperand (peek last) = true := by
      rw [hread] at h
      exact h
    have heq := hsub _ _ _ (by rw [hread]; exact hfollows)
    -- The fast way keeps the argument in any case, the thorough way because of
    -- what follows it.
    rw [heq, hread, applied, applied, if_pos (Or.inr hfollows), if_pos (Or.inl rfl)]
  | miss m a =>
    rw [hread] at h
    cases h
  | tooDeep last =>
    have heq := hsub _ _ _ (by rw [hread]; trivial)
    rw [heq, hread]
    rfl

theorem nameTerm_agrees (hsub : Agrees thorough fast) {name : String} {max : Nat}
    {rest : List Lexeme} (h : (nameTerm ⟨quotes, .fast⟩ fast name max rest).Settled Plausible) :
    nameTerm ⟨quotes, .thorough⟩ thorough name max rest =
      nameTerm ⟨quotes, .fast⟩ fast name max rest := by
  unfold nameTerm at h ⊢
  split
  · rename_i hopens
    rw [if_pos hopens] at h
    exact compoundTerm_agrees hsub h
  · rename_i hopens
    rw [if_neg hopens] at h
    split
    · rfl
    · rename_i hliteral
      rw [hliteral] at h
      split
      · rfl
      · rename_i op hop
        simp only [hop] at h
        split
        · rename_i hstart
          rw [if_pos hstart] at h
          exact application_agrees hsub h
        · rfl

theorem primary_agrees (hsub : Agrees thorough fast) {max : Nat} {rule : Rule}
    {toks : List Lexeme} (h : (primary ⟨quotes, .fast⟩ fast max rule toks).Settled Plausible) :
    primary ⟨quotes, .thorough⟩ thorough max rule toks =
      primary ⟨quotes, .fast⟩ fast max rule toks := by
  unfold primary at h ⊢
  cases hpeek : peek toks with
  | openRound =>
    simp only [hpeek, Outcome.settled_map] at h ⊢
    rw [enclosed_agrees hsub rfl h]
  | openSquare =>
    simp only [hpeek, Outcome.settled_map] at h ⊢
    rw [listTerm_agrees hsub h]
  | openCurly =>
    simp only [hpeek, Outcome.settled_map] at h ⊢
    rw [curlyTerm_agrees hsub h]
  | quotedName name =>
    simp only [hpeek] at h ⊢
    split
    · rename_i hopens
      rw [if_pos hopens] at h
      exact compoundTerm_agrees hsub h
    · rfl
  | name name =>
    simp only [hpeek] at h ⊢
    exact nameTerm_agrees hsub h
  | _ => rfl

/-! ## Operators behind a term -/

theorem plausible_of_continuation {left max : Nat} {toks : List Lexeme} {c : Continuation}
    (h : continuation left max (peek toks) = some c) : Plausible toks := by
  unfold Plausible
  cases hpeek : peek toks with
  | name name =>
    rw [hpeek, continuation, continuationOfName_eq, Option.map_eq_some_iff] at h
    obtain ⟨op, hop, _⟩ := h
    rw [followsOperand, (Option.filter_eq_some_iff.mp hop).1]
    rfl
  | comma => rfl
  | bar => rfl
  | _ =>
    rw [hpeek] at h
    cases h

/-- The loop comes to a settled end only from something plausible, and both ways
of reading come to it. -/
theorem resume_settled (hsub : Agrees thorough fast) (pending : List Pending) (max : Nat)
    (left : Term) (priority : Nat) (toks : List Lexeme)
    (h : (resume ⟨quotes, .fast⟩ fast pending max left priority toks).Settled Plausible) :
    Plausible toks ∧ resume ⟨quotes, .thorough⟩ thorough pending max left priority toks =
      resume ⟨quotes, .fast⟩ fast pending max left priority toks := by
  -- The induction is along the loop of the fast way. The argument of an operator
  -- is settled because the rest of the loop began before something plausible.
  fun_induction resume ⟨quotes, .fast⟩ fast pending max left priority toks with
  | case1 pending max left priority toks functor op hc right rightPriority rest a hp ih =>
    obtain ⟨hrest, heq⟩ := ih (Outcome.settled_after.mp h)
    have hsettled : (primary ⟨quotes, .fast⟩ fast op.rightMax .operand toks.tail).Settled
        Plausible := by rw [hp]; exact hrest
    have hprimary := primary_agrees hsub hsettled
    refine ⟨plausible_of_continuation hc, ?_⟩
    rw [resume_between pending hc, start, hprimary, hp]
    exact congrArg (Outcome.after · a) heq
  | case2 pending max left priority toks functor op hc m a hp => cases h
  | case3 pending max left priority toks functor op hc rest hp =>
    have hsettled : (primary ⟨quotes, .fast⟩ fast op.rightMax .operand toks.tail).Settled
        Plausible := by rw [hp]; trivial
    have hprimary := primary_agrees hsub hsettled
    refine ⟨plausible_of_continuation hc, ?_⟩
    rw [resume_between pending hc, start, hprimary, hp]
    rfl
  | case4 pending max left priority toks functor op hc ih =>
    obtain ⟨_, heq⟩ := ih h
    exact ⟨plausible_of_continuation hc, by rw [resume_after pending hc, heq]⟩
  | case5 max left priority toks hc => exact ⟨h, resume_nil hc⟩
  | case6 max left priority toks hc outer others ih =>
    obtain ⟨hfollows, heq⟩ := ih h
    exact ⟨hfollows, by rw [resume_pop outer others hc, heq]⟩

theorem operators_agrees (hsub : Agrees thorough fast) {max : Nat} {rule : Rule}
    {toks : List Lexeme} (h : (operators ⟨quotes, .fast⟩ fast max rule toks).Settled Plausible) :
    operators ⟨quotes, .thorough⟩ thorough max rule toks =
      operators ⟨quotes, .fast⟩ fast max rule toks := by
  refine Outcome.andThen_agrees h (primary_agrees hsub) ?_
  rintro ⟨t, priority⟩ rest a _ hnext
  exact resume_settled hsub [] max t priority rest hnext

end

/-! ## Levels -/

/-- On every level the thorough way comes to each settled outcome of the fast
way. -/
theorem terms_agrees (quotes : DoubleQuotes) (levels : Nat) :
    Agrees (terms ⟨quotes, .thorough⟩ levels) (terms ⟨quotes, .fast⟩ levels) := by
  induction levels with
  | zero =>
    intro max rule toks _
    rw [terms_zero, terms_zero]
  | succ levels ih =>
    intro max rule toks h
    rw [terms_succ] at h ⊢
    exact operators_agrees ih h

end Reading

end Clausal
