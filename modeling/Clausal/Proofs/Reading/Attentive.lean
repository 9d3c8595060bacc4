import Clausal.Proofs.Reading.Resume

/-
  Attentive reading — a reader that remembers every place it turned back at

  An operator before its argument is taken for an atom when its argument cannot be
  read, or when nothing plausible follows the argument. Where reading the argument
  stopped is remembered in the first case only. Here is a reader that remembers the
  place in both, by taking an argument with nothing plausible behind it for a miss
  there. It reads the same, and knows at least as much of the ways it gave up.

  What is proved:
    1. `primary_recalls`, `resume_recalls` — one level, over readers of whose arguments
       an operator makes the same.
    2. `insist_readsSame` — a reader and the one that insists on a plausible follower
       are such readers.
    3. `attentive_recalls` — so the attentive reader reads what the plain one reads.
-/

namespace Clausal

/-! ## The same with more remembered -/

theorem Miss.exists_furthest_le {a b : Option Miss} {n : Nat}
    (h : (∃ m ∈ a, m.rest.length ≤ n) ∨ ∃ m ∈ b, m.rest.length ≤ n) :
    ∃ m ∈ Miss.furthest a b, m.rest.length ≤ n := by
  cases a with
  | none => simpa [Miss.furthest] using h
  | some m =>
    cases b with
    | none => simpa [Miss.furthest] using h
    | some m' =>
      simp only [Option.mem_def, Option.some.injEq, exists_eq_left'] at h
      simp only [Miss.furthest]
      split
      · exact ⟨m', rfl, by omega⟩
      · exact ⟨m, rfl, by omega⟩

/-- Where the second miss was, if there was one, the first one was too, or further on. -/
def Miss.Reaches (a b : Option Miss) : Prop :=
  ∀ m ∈ b, ∃ m' ∈ a, m'.rest.length ≤ m.rest.length

namespace Miss.Reaches

variable {a a' b b' : Option Miss}

theorem refl (a : Option Miss) : Reaches a a := fun m hm => ⟨m, hm, Nat.le_refl _⟩

theorem furthest (h : Reaches a a') (hb : Reaches b b') :
    Reaches (Miss.furthest a b) (Miss.furthest a' b') := by
  intro m hm
  rcases Outcome.mem_furthest hm with hm | hm
  · exact exists_furthest_le (.inl (h m hm))
  · exact exists_furthest_le (.inr (hb m hm))

end Miss.Reaches

namespace Outcome

variable {α β : Type}

/-- The first outcome is the second one, with misses remembered that reach as far. -/
inductive Recalls : Outcome α → Outcome α → Prop where
  | read {v : α} {rest : List Lexeme} {a a' : Option Miss} : Miss.Reaches a a' →
    Recalls (.read v rest a) (.read v rest a')
  | miss {m : Miss} {a a' : Option Miss} : Miss.Reaches a a' → Recalls (.miss m a) (.miss m a')
  | tooDeep {rest : List Lexeme} : Recalls (.tooDeep rest) (.tooDeep rest)

theorem Recalls.refl (o : Outcome α) : Recalls o o := by
  cases o with
  | read v rest a => exact .read (.refl a)
  | miss m a => exact .miss (.refl a)
  | tooDeep rest => exact .tooDeep

/-- Both are misses of the same lexemes, or neither is. -/
theorem Recalls.miss_iff {o o' : Outcome α} (h : Recalls o o') {m : Miss} :
    (∃ a, o = .miss m a) ↔ ∃ a, o' = .miss m a := by
  cases h <;> simp

theorem Recalls.read_iff {o o' : Outcome α} (h : Recalls o o') {v : α} {rest : List Lexeme} :
    (∃ a, o = .read v rest a) ↔ ∃ a, o' = .read v rest a := by
  cases h <;> simp

theorem recalls_after {o o' : Outcome α} {a a' : Option Miss} (h : Recalls o o')
    (ha : Miss.Reaches a a') : Recalls (o.after a) (o'.after a') := by
  cases h with
  | read hlater => exact .read (ha.furthest hlater)
  | miss hlater => exact .miss (ha.furthest hlater)
  | tooDeep => exact .tooDeep

theorem recalls_map {o o' : Outcome α} (f : α → β) (h : Recalls o o') :
    Recalls (o.map f) (o'.map f) := by
  cases h with
  | read ha => exact .read ha
  | miss ha => exact .miss ha
  | tooDeep => exact .tooDeep

theorem recalls_andThen {o o' : Outcome α} {next next' : α → List Lexeme → Outcome β}
    (h : Recalls o o')
    (hnext : ∀ v rest a, o = .read v rest a → Recalls (next v rest) (next' v rest)) :
    Recalls (o.andThen next) (o'.andThen next') := by
  cases h with
  | read ha => exact recalls_after (hnext _ _ _ rfl) ha
  | miss ha => exact .miss ha
  | tooDeep => exact .tooDeep

end Outcome

open Outcome (Recalls recalls_map recalls_andThen)

namespace Reading

/-! ## Readers that read the same -/

/-- The first reader comes to the same as the second one and remembers as much, and of
what it comes to as an argument every operator makes the same. -/
structure ReadsSame (sub sub' : Reader) : Prop where
  recalls : ∀ max rule toks, rule ≠ .operand →
    (sub.read max rule toks).Recalls (sub'.read max rule toks)
  applied : ∀ name priority max toks,
    (applied .thorough name priority toks (sub.read max .operand toks)).Recalls
      (applied .thorough name priority toks (sub'.read max .operand toks))

section

variable {sub sub' : Reader} (h : ReadsSame sub sub')

include h

theorem enclosed_recalls {rule : Rule} (hrule : rule ≠ .operand) (close : Token) (shown : String)
    (toks : List Lexeme) :
    (enclosed sub rule close shown toks).Recalls (enclosed sub' rule close shown toks) :=
  recalls_andThen (h.recalls _ _ _ hrule) fun _ _ _ _ => .refl _

theorem arguments_recalls (toks : List Lexeme) :
    (arguments sub toks).Recalls (arguments sub' toks) := by
  rw [arguments_eq, arguments_eq]
  refine recalls_andThen (h.recalls _ _ _ (by decide)) ?_
  rintro ⟨t, priority⟩ rest a hread
  have := sub.pred_length_lt hread
  cases peek rest with
  | comma =>
    simp only
    exact recalls_map _ (arguments_recalls rest.tail)
  | _ => exact .refl _
termination_by toks.length

theorem elements_recalls (toks : List Lexeme) :
    (elements sub toks).Recalls (elements sub' toks) := by
  rw [elements_eq, elements_eq]
  refine recalls_andThen (h.recalls _ _ _ (by decide)) ?_
  rintro ⟨t, priority⟩ rest a hread
  have := sub.pred_length_lt hread
  cases peek rest with
  | comma =>
    simp only
    exact recalls_map _ (elements_recalls rest.tail)
  | bar =>
    simp only
    exact recalls_andThen (h.recalls _ _ _ (by decide)) fun _ _ _ _ => .refl _
  | _ => exact .refl _
termination_by toks.length

theorem listTerm_recalls (toks : List Lexeme) :
    (listTerm sub toks).Recalls (listTerm sub' toks) := by
  unfold listTerm
  split
  · exact .refl _
  · exact elements_recalls h toks

theorem curlyTerm_recalls (toks : List Lexeme) :
    (curlyTerm sub toks).Recalls (curlyTerm sub' toks) := by
  unfold curlyTerm
  split
  · exact .refl _
  · exact recalls_map _ (enclosed_recalls h (by decide) _ _ toks)

theorem compoundTerm_recalls (functor : String) (toks : List Lexeme) :
    (compoundTerm sub functor toks).Recalls (compoundTerm sub' functor toks) :=
  recalls_map _ (arguments_recalls h toks.tail)

variable (quotes : DoubleQuotes)

theorem nameTerm_recalls (name : String) (max : Nat) (rest : List Lexeme) :
    (nameTerm ⟨quotes, .thorough⟩ sub name max rest).Recalls
      (nameTerm ⟨quotes, .thorough⟩ sub' name max rest) := by
  unfold nameTerm
  split
  · exact compoundTerm_recalls h name rest
  · split
    · exact .refl _
    · split
      · exact .refl _
      · split
        · exact h.applied name _ _ rest
        · exact .refl _

theorem primary_recalls (max : Nat) (rule : Rule) (toks : List Lexeme) :
    (primary ⟨quotes, .thorough⟩ sub max rule toks).Recalls
      (primary ⟨quotes, .thorough⟩ sub' max rule toks) := by
  unfold primary
  cases peek toks with
  | openRound => exact recalls_map _ (enclosed_recalls h (by decide) _ _ _)
  | openSquare => exact recalls_map _ (listTerm_recalls h _)
  | openCurly => exact recalls_map _ (curlyTerm_recalls h _)
  | quotedName name =>
    simp only
    split
    · exact compoundTerm_recalls h name _
    · exact .refl _
  | name name => exact nameTerm_recalls h quotes name max _
  | _ => exact .refl _

theorem resume_recalls (pending : List Pending) (max : Nat) (left : Term) (priority : Nat)
    (toks : List Lexeme) :
    (resume ⟨quotes, .thorough⟩ sub pending max left priority toks).Recalls
      (resume ⟨quotes, .thorough⟩ sub' pending max left priority toks) := by
  rw [resume_eq, resume_eq]
  cases hc : continuation priority max (peek toks) with
  | none =>
    cases pending with
    | nil => exact .refl _
    | cons outer others => exact resume_recalls others outer.max _ outer.priority toks
  | some c =>
    have hpos := List.length_pos_iff.mpr (continuation_ne_nil hc)
    cases c with
    | after functor op =>
      have : toks.tail.length < toks.length := by rw [List.length_tail]; omega
      exact resume_recalls pending max _ op.priority toks.tail
    | between functor op =>
      refine recalls_andThen (primary_recalls h quotes op.rightMax .operand toks.tail) ?_
      rintro ⟨right, rightPriority⟩ rest a hread
      have : rest.length < toks.length := by
        have hlt := primary_shortens ⟨quotes, .thorough⟩ sub op.rightMax .operand toks.tail
        rw [hread, Outcome.Shortens, List.length_tail] at hlt
        omega
      exact resume_recalls _ op.rightMax right rightPriority rest
termination_by (toks.length, pending.length)

theorem operators_recalls (max : Nat) (rule : Rule) (toks : List Lexeme) :
    (operators ⟨quotes, .thorough⟩ sub max rule toks).Recalls
      (operators ⟨quotes, .thorough⟩ sub' max rule toks) :=
  recalls_andThen (primary_recalls h quotes max rule toks) fun v rest _ _ =>
    resume_recalls h quotes [] max v.1 v.2 rest

end

/-! ## The attentive reader -/

/-- An argument with nothing plausible behind it is a miss there: an operator would have
done. -/
def insisted : Outcome (Term × Nat) → Outcome (Term × Nat)
  | .read v last a =>
    if followsOperand (peek last) then .read v last a else .miss ⟨last, ⟨[], true, .operand⟩⟩ a
  | .miss m a => .miss m a
  | .tooDeep rest => .tooDeep rest

theorem insisted_inside {o : Outcome (Term × Nat)} {toks : List Lexeme} (h : o.Inside toks) :
    (insisted o).Inside toks := by
  cases o with
  | read v last a =>
    simp only [insisted]
    split <;> exact h
  | miss m a => exact h
  | tooDeep rest => exact h

theorem insisted_shortens {o : Outcome (Term × Nat)} {toks : List Lexeme} (h : o.Shortens toks) :
    (insisted o).Shortens toks := by
  cases o with
  | read v last a =>
    simp only [insisted]
    split
    · exact h
    · trivial
  | miss m a => trivial
  | tooDeep rest => trivial

/-- The reader insists on something plausible behind the argument of an operator. -/
def insist (sub : Reader) : Reader where
  read max rule toks :=
    if rule = .operand then insisted (sub.read max rule toks) else sub.read max rule toks
  inside max rule toks := by
    split
    · exact insisted_inside (sub.inside max rule toks)
    · exact sub.inside max rule toks
  shortens max rule toks := by
    split
    · exact insisted_shortens (sub.shortens max rule toks)
    · exact sub.shortens max rule toks

theorem insist_operand (sub : Reader) (max : Nat) (toks : List Lexeme) :
    (insist sub).read max .operand toks = insisted (sub.read max .operand toks) := rfl

theorem insist_of_ne (sub : Reader) {rule : Rule} (hrule : rule ≠ .operand) (max : Nat)
    (toks : List Lexeme) : (insist sub).read max rule toks = sub.read max rule toks :=
  if_neg hrule

/-- The operator is taken for an atom either way, if nothing plausible follows. -/
theorem insist_readsSame {sub sub' : Reader}
    (h : ∀ max rule toks, (sub.read max rule toks).Recalls (sub'.read max rule toks)) :
    ReadsSame (insist sub) sub' where
  recalls max rule toks hrule := by
    rw [insist_of_ne sub hrule]
    exact h max rule toks
  applied name priority max toks := by
    have hargument := h max .operand toks
    rw [insist_operand]
    generalize sub.read max .operand toks = o, sub'.read max .operand toks = o' at hargument ⊢
    cases hargument with
    | @read v last a a' ha =>
      by_cases hlast : followsOperand (peek last) = true
      · simp only [insisted, applied, hlast, or_true, if_true]
        exact .read ha
      · simp only [insisted, applied, hlast, reduceCtorEq, or_false, Bool.false_eq_true, if_false]
        exact .read fun m hm => Miss.exists_furthest_le (.inl (ha m hm))
    | @miss m a a' ha => exact .read (ha.furthest (.refl _))
    | tooDeep => exact .tooDeep

/-- Reads terms in the thorough way, and remembers every place where the argument of an
operator was given up. -/
def attentive (quotes : DoubleQuotes) : (levels : Nat) → Reader
  | 0 => exhausted
  | levels + 1 => deeper ⟨quotes, .thorough⟩ (insist (attentive quotes levels))

/-- It reads what is read without that attention, and knows at least as much. -/
theorem attentive_recalls (quotes : DoubleQuotes) (levels max : Nat) (rule : Rule)
    (toks : List Lexeme) :
    ((attentive quotes levels).read max rule toks).Recalls
      ((terms ⟨quotes, .thorough⟩ levels).read max rule toks) := by
  induction levels generalizing max rule toks with
  | zero => exact .refl _
  | succ levels ih =>
    rw [terms_succ]
    exact operators_recalls (insist_readsSame ih) quotes max rule toks

end Reading

end Clausal
