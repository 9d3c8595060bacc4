import Clausal.Proofs.Reading.Attentive

/-
  Foresight — what the first lexemes of a text decide

  A reader looks at one lexeme at a time and never behind the one it stops at. So once
  it has stopped, what follows makes no difference. And as long as it has not, it can
  still come to a value: every operator finds an operand, every open bracket a closing
  one. Which of the two it is depends on the first lexemes alone, but only for a reader
  that remembers every place it turned back at; the plain one may have looked further
  than it knows.

  What is proved:
    1. `Foreseen.andThen` — two readings one after the other, if what the second one
       needs can be closed behind the first one.
    2. `primary_foreseen`, `resume_foreseen` — the parts of one level.
    3. `attentive_foreseen` — for all levels: some lexemes decide what the attentive
       reader comes to, whatever follows, or with some more of them it reads a term.
-/

namespace Clausal

/-! ## Lexemes that close -/

/-- The token closes a bracket or a clause; no operator is read from it. -/
def Token.closes : Token → Bool
  | .closeRound | .closeSquare | .closeCurly | .stop => true
  | _ => false

/-- A bracket or the clause is closed by the first of the lexemes. -/
def Closes (toks : List Lexeme) : Prop := (peek toks).closes = true

/-- A lexeme of the token, wherever it stands. -/
def Lexeme.ofToken (token : Token) : Lexeme := ⟨token, ⟨1, 1, 0, 0⟩, true⟩

namespace Closes

variable {toks : List Lexeme}

theorem ofToken {token : Token} (h : token.closes = true) (toks : List Lexeme) :
    Closes (Lexeme.ofToken token :: toks) := h

open Reading

theorem cases {motive : Token → Prop} (h : Closes toks) (closeRound : motive .closeRound)
    (closeSquare : motive .closeSquare) (closeCurly : motive .closeCurly) (stop : motive .stop) :
    motive (peek toks) := by
  unfold Closes at h
  generalize peek toks = token at h ⊢
  cases token <;> first | assumption | cases h

theorem continuation (h : Closes toks) (left max : Nat) :
    continuation left max (peek toks) = none :=
  h.cases (motive := fun token => Reading.continuation left max token = none) rfl rfl rfl rfl

theorem followsOperand (h : Closes toks) : followsOperand (peek toks) = true :=
  h.cases (motive := fun token => Reading.followsOperand token = true) rfl rfl rfl rfl

theorem startsTerm (h : Closes toks) : (peek toks).startsTerm = false :=
  h.cases (motive := fun token => token.startsTerm = false) rfl rfl rfl rfl

theorem opensArguments (h : Closes toks) : opensArguments toks = false := by
  cases toks with
  | nil => rfl
  | cons l rest =>
    have hl : l.token ≠ .openRound := by
      intro hl
      have hcloses : l.token.closes = true := h
      rw [hl] at hcloses
      cases hcloses
    simp [Reading.opensArguments, hl]

theorem negativeLiteral (h : Closes toks) : negativeLiteral toks = none := by
  cases toks with
  | nil => rfl
  | cons l rest =>
    have hcloses : l.token.closes = true := h
    cases hl : l.token <;> simp_all [Reading.negativeLiteral, Token.closes]

end Closes

/-! ## Outcomes in a text that goes on -/

/-- The same miss in a text that goes on. -/
def Miss.extend (more : List Lexeme) (m : Miss) : Miss := ⟨m.rest ++ more, m.expected⟩

theorem Miss.furthest_extend (more : List Lexeme) (a b : Option Miss) :
    (Miss.furthest a b).map (.extend more) =
      Miss.furthest (a.map (.extend more)) (b.map (.extend more)) := by
  cases a with
  | none => rfl
  | some m =>
    cases b with
    | none => rfl
    | some m' =>
      simp only [Miss.furthest, Option.map_some, Miss.extend, List.length_append,
        Nat.add_lt_add_iff_right]
      split <;> rfl

namespace Outcome

variable {α β : Type}

/-- The same outcome in a text that goes on. -/
def extend (more : List Lexeme) : Outcome α → Outcome α
  | .read v rest a => .read v (rest ++ more) (a.map (.extend more))
  | .miss m a => .miss (m.extend more) (a.map (.extend more))
  | .tooDeep rest => .tooDeep (rest ++ more)

theorem extend_after (o : Outcome α) (a : Option Miss) (more : List Lexeme) :
    (o.after a).extend more = (o.extend more).after (a.map (.extend more)) := by
  cases o <;> simp only [after, extend, Miss.furthest_extend]

theorem extend_map (o : Outcome α) (f : α → β) (more : List Lexeme) :
    (o.map f).extend more = (o.extend more).map f := by
  cases o <;> rfl

/-- Every place that the outcome speaks of is before a lexeme. -/
def InSight : Outcome α → Prop
  | .read _ rest a => rest ≠ [] ∧ ∀ m ∈ a, m.rest ≠ []
  | .miss m a => m.rest ≠ [] ∧ ∀ x ∈ a, x.rest ≠ []
  | .tooDeep _ => True

theorem InSight.after {o : Outcome α} (h : o.InSight) {a : Option Miss}
    (ha : ∀ m ∈ a, m.rest ≠ []) : (o.after a).InSight := by
  cases o with
  | read v rest b => exact ⟨h.1, fun m hm => (mem_furthest hm).elim (ha m) (h.2 m)⟩
  | miss m b => exact ⟨h.1, fun m hm => (mem_furthest hm).elim (ha m) (h.2 m)⟩
  | tooDeep rest => trivial

theorem InSight.map {o : Outcome α} (h : o.InSight) (f : α → β) : (o.map f).InSight := by
  cases o <;> exact h

/-- Of the places that the outcome speaks of one has at most so many lexemes left. -/
def Passes (n : Nat) : Outcome α → Prop
  | .read _ rest a => rest.length ≤ n ∨ ∃ m ∈ a, m.rest.length ≤ n
  | .miss m a => m.rest.length ≤ n ∨ ∃ x ∈ a, x.rest.length ≤ n
  | .tooDeep _ => True

theorem passes_map {o : Outcome α} {n : Nat} (h : o.Passes n) (f : α → β) :
    (o.map f).Passes n := by
  cases o <;> exact h

theorem passes_after {o : Outcome α} {n : Nat} (h : o.Passes n) (a : Option Miss) :
    (o.after a).Passes n := by
  cases o with
  | read v rest b => exact h.imp_right fun h => Miss.exists_furthest_le (.inr h)
  | miss m b => exact h.imp_right fun h => Miss.exists_furthest_le (.inr h)
  | tooDeep rest => trivial

theorem passes_after_of_mem {o : Outcome α} {n : Nat} {a : Option Miss}
    (h : ∃ m ∈ a, m.rest.length ≤ n) : (o.after a).Passes n := by
  cases o with
  | read v rest b => exact .inr (Miss.exists_furthest_le (.inl h))
  | miss m b => exact .inr (Miss.exists_furthest_le (.inl h))
  | tooDeep rest => trivial

theorem Inside.passes {o : Outcome α} {toks : List Lexeme} (h : o.Inside toks) {n : Nat}
    (hn : toks.length ≤ n) : o.Passes n := by
  cases o with
  | read v rest a => exact .inl (Nat.le_trans h.1.length_le hn)
  | miss m a => exact .inl (Nat.le_trans h.1.length_le hn)
  | tooDeep rest => trivial

theorem passes_andThen {o : Outcome α} {next : α → List Lexeme → Outcome β} {n : Nat}
    (h : o.Passes n) (hinside : ∀ v rest, (next v rest).Inside rest) :
    (o.andThen next).Passes n := by
  cases o with
  | read v rest a =>
    rcases h with h | h
    · exact passes_after ((hinside v rest).passes h) a
    · exact passes_after_of_mem h
  | miss m a => exact h
  | tooDeep rest => trivial

/-- A value with nothing more in sight than the furthest place. -/
theorem InSight.not_passes {o : Outcome α} (h : o.InSight) (more : List Lexeme)
    (hdeep : ∀ rest, o ≠ .tooDeep rest) : ¬ (o.extend more).Passes more.length := by
  have hlong : ∀ m : Miss, m.rest ≠ [] → ¬ (m.extend more).rest.length ≤ more.length := by
    intro m hm
    have := List.length_pos_iff.mpr hm
    simp only [Miss.extend, List.length_append]
    omega
  have hnone : ∀ a : Option Miss, (∀ m ∈ a, m.rest ≠ []) →
      ¬ ∃ m ∈ a.map (Miss.extend more), m.rest.length ≤ more.length := by
    rintro a ha ⟨m, hm, hle⟩
    obtain ⟨m', hm', rfl⟩ := Option.map_eq_some_iff.mp hm
    exact hlong m' (ha m' hm') hle
  cases o with
  | read v rest a =>
    rintro (hle | hle)
    · exact hlong ⟨rest, .termStart .term⟩ h.1 hle
    · exact hnone a h.2 hle
  | miss m a =>
    rintro (hle | hle)
    · exact hlong m h.1 hle
    · exact hnone a h.2 hle
  | tooDeep rest => exact absurd rfl (hdeep rest)

end Outcome

open Outcome (InSight Passes)

/-! ## What is foreseen -/

/-- What reading comes to when the lexemes that were given go on with some more. It was
decided by the first ones, or it looks behind them whatever follows, and some that close
something make a value of them. -/
inductive Foreseen {α : Type} (read : List Lexeme → Outcome α) : Prop where
  | decided (o : Outcome α) : o.InSight → (∀ more, read more = o.extend more) → Foreseen read
  | goesOn (closing : List Lexeme) : (∀ l ∈ closing, l.token ≠ .stop) →
    (∀ more, (read more).Passes more.length) →
    (∀ tail, Closes tail → ∃ v a, read (closing ++ tail) = .read v tail a) → Foreseen read

namespace Foreseen

variable {α β : Type} {read : List Lexeme → Outcome α}

theorem of_eq {read' : List Lexeme → Outcome α} (h : Foreseen read)
    (heq : ∀ more, read' more = read more) : Foreseen read' :=
  (funext heq : read' = read) ▸ h

theorem map (h : Foreseen read) (f : α → β) : Foreseen fun more => (read more).map f := by
  cases h with
  | decided o hsight hread =>
    exact .decided (o.map f) (hsight.map f) fun more => by rw [hread, Outcome.extend_map]
  | goesOn closing hstop hpasses hcloses =>
    refine .goesOn closing hstop (fun more => Outcome.passes_map (hpasses more) f) ?_
    intro tail htail
    obtain ⟨v, a, hread⟩ := hcloses tail htail
    exact ⟨f v, a, by rw [hread]; rfl⟩

/-- Behind a miss that was decided. -/
theorem after (h : Foreseen read) {a : Option Miss} (ha : ∀ m ∈ a, m.rest ≠ []) :
    Foreseen fun more => (read more).after (a.map (.extend more)) := by
  cases h with
  | decided o hsight hread =>
    exact .decided (o.after a) (hsight.after ha) fun more => by rw [hread, Outcome.extend_after]
  | goesOn closing hstop hpasses hcloses =>
    refine .goesOn closing hstop (fun more => Outcome.passes_after (hpasses more) _) ?_
    intro tail htail
    obtain ⟨v, b, hread⟩ := hcloses tail htail
    exact ⟨v, _, by rw [hread]; rfl⟩

/-- A value in front of lexemes that are left. -/
theorem value (v : α) (rest : List Lexeme) : Foreseen fun more => .read v (rest ++ more) none := by
  cases rest with
  | nil =>
    exact .goesOn [] (List.forall_mem_nil _) (fun more => .inl (Nat.le_refl _))
      fun tail _ => ⟨v, none, rfl⟩
  | cons l rest =>
    exact .decided (.read v (l :: rest) none) ⟨List.cons_ne_nil l rest, by simp⟩ fun _ => rfl

/-- A miss at a lexeme. -/
theorem miss {rest : List Lexeme} (hne : rest ≠ []) (expected : Expected) :
    Foreseen fun more => (.miss ⟨rest ++ more, expected⟩ none : Outcome α) :=
  .decided (.miss ⟨rest, expected⟩ none) ⟨hne, by simp⟩ fun _ => rfl

/-- A reading that goes on behind another one, if it can be closed there. -/
theorem andThen {first : List Lexeme → Outcome α} {next : α → List Lexeme → Outcome β}
    (h : Foreseen first) (closing : List Lexeme) (hstop : ∀ l ∈ closing, l.token ≠ .stop)
    (hcloses : ∀ tail, Closes tail → Closes (closing ++ tail) ∧
      ∀ v, ∃ w a, next v (closing ++ tail) = .read w tail a)
    (hinside : ∀ v rest, (next v rest).Inside rest)
    (hnext : ∀ v rest a, rest ≠ [] → first [] = .read v rest a →
      Foreseen fun more => next v (rest ++ more)) :
    Foreseen fun more => (first more).andThen next := by
  cases h with
  | decided o hsight hfirst =>
    cases o with
    | read v rest a =>
      have hempty : first [] = .read v rest (a.map (.extend [])) := by
        rw [hfirst, Outcome.extend, List.append_nil]
      have hsecond := (hnext v rest _ hsight.1 hempty).after hsight.2
      have heq : (fun more => (first more).andThen next) =
          fun more => (next v (rest ++ more)).after (a.map (.extend more)) := by
        funext more
        rw [hfirst]
        rfl
      rwa [heq]
    | miss m a => exact .decided (.miss m a) hsight fun more => by rw [hfirst]; rfl
    | tooDeep rest => exact .decided (.tooDeep rest) trivial fun more => by rw [hfirst]; rfl
  | goesOn before hbefore hpasses hread =>
    refine .goesOn (before ++ closing) (List.forall_mem_append.mpr ⟨hbefore, hstop⟩)
      (fun more => Outcome.passes_andThen (hpasses more) hinside) ?_
    intro tail htail
    obtain ⟨hcloser, hvalue⟩ := hcloses tail htail
    obtain ⟨v, a, hfirst⟩ := hread (closing ++ tail) hcloser
    obtain ⟨w, b, hsecond⟩ := hvalue v
    refine ⟨w, Miss.furthest a b, ?_⟩
    rw [List.append_assoc, hfirst, Outcome.andThen, hsecond]
    rfl

end Foreseen

theorem expect_foreseen (token : Token) (expected : Expected) {toks : List Lexeme}
    (hne : toks ≠ []) : Foreseen fun more => expect token expected (toks ++ more) := by
  obtain ⟨l, rest, rfl⟩ := List.exists_cons_of_ne_nil hne
  by_cases hl : l.token = token
  · exact (Foreseen.value () rest).of_eq fun _ => expect_read _ hl
  · exact (Foreseen.miss hne expected).of_eq fun _ => if_neg hl

namespace Reading

/-- Every term is foreseen, and an operator is only given an argument before something
plausible. -/
structure Foresees (sub : Reader) : Prop where
  foreseen : ∀ max rule toks, Foreseen fun more => sub.read max rule (toks ++ more)
  follower : ∀ max toks v last a, sub.read max .operand toks = .read v last a →
    followsOperand (peek last) = true

section

variable {sub : Reader} (h : Foresees sub)

include h

/-! ## Parts of a term -/

/-- A term and the token that closes something behind it. -/
theorem closed_foreseen (max : Nat) (rule : Rule) {close : Token} (hclose : close.closes = true)
    (hne : close ≠ .stop) (expected : Expected) (f : Term → Term) (toks : List Lexeme) :
    Foreseen fun more => (sub.read max rule (toks ++ more)).andThen fun (t, _) rest =>
      (expect close expected rest).map fun _ => f t := by
  refine (h.foreseen max rule toks).andThen [.ofToken close] ?_ ?_ ?_ ?_
  · exact List.forall_mem_singleton.mpr hne
  · intro tail _
    refine ⟨Closes.ofToken hclose tail, fun (t, _) => ⟨f t, none, ?_⟩⟩
    have hread : expect close expected (.ofToken close :: tail) = .read () tail none :=
      expect_read expected rfl
    simp only [List.cons_append, List.nil_append, hread, Outcome.map]
  · exact fun _ _ => Outcome.inside_map (expect_inside _ _ _)
  · exact fun (t, _) rest _ hrest _ => (expect_foreseen close expected hrest).map fun _ => f t

theorem arguments_foreseen (toks : List Lexeme) :
    Foreseen fun more => arguments sub (toks ++ more) := by
  simp only [arguments_eq sub (toks ++ _)]
  refine (h.foreseen argumentPriority .arguments toks).andThen [.ofToken .closeRound] ?_ ?_ ?_ ?_
  · exact List.forall_mem_singleton.mpr (by decide)
  · exact fun tail _ => ⟨Closes.ofToken rfl tail, fun v => ⟨[v.1], none, rfl⟩⟩
  · rintro ⟨t, priority⟩ rest
    split
    · exact (Outcome.inside_map (arguments_inside sub rest.tail)).mono (List.tail_suffix rest)
    · exact ⟨List.tail_suffix rest, by simp⟩
    · exact ⟨List.suffix_rfl, by simp⟩
  · rintro ⟨t, priority⟩ rest a hne hread
    obtain ⟨l, rest, rfl⟩ := List.exists_cons_of_ne_nil hne
    rw [List.append_nil] at hread
    have := sub.pred_length_lt hread
    simp only [List.cons_append, peek, List.tail_cons]
    cases l.token with
    | comma => exact (arguments_foreseen rest).map _
    | closeRound => exact .value [t] rest
    | _ => exact .miss hne _
termination_by toks.length

theorem elements_foreseen (toks : List Lexeme) :
    Foreseen fun more => elements sub (toks ++ more) := by
  simp only [elements_eq sub (toks ++ _)]
  refine (h.foreseen argumentPriority .list toks).andThen [.ofToken .closeSquare] ?_ ?_ ?_ ?_
  · exact List.forall_mem_singleton.mpr (by decide)
  · exact fun tail _ => ⟨Closes.ofToken rfl tail, fun v => ⟨.cons v.1 .nil, none, rfl⟩⟩
  · rintro ⟨t, priority⟩ rest
    split
    · exact (Outcome.inside_map (elements_inside sub rest.tail)).mono (List.tail_suffix rest)
    · refine (Outcome.inside_andThen (sub.inside _ _ _) ?_).mono (List.tail_suffix rest)
      exact fun _ _ => Outcome.inside_map (expect_inside _ _ _)
    · exact ⟨List.tail_suffix rest, by simp⟩
    · exact ⟨List.suffix_rfl, by simp⟩
  · rintro ⟨t, priority⟩ rest a hne hread
    obtain ⟨l, rest, rfl⟩ := List.exists_cons_of_ne_nil hne
    rw [List.append_nil] at hread
    have := sub.pred_length_lt hread
    simp only [List.cons_append, peek, List.tail_cons]
    cases l.token with
    | comma => exact (elements_foreseen rest).map _
    | bar => exact closed_foreseen h argumentPriority .list rfl (by decide) _ (.cons t) rest
    | closeSquare => exact .value _ rest
    | _ => exact .miss hne _
termination_by toks.length

theorem listTerm_foreseen (toks : List Lexeme) :
    Foreseen fun more => listTerm sub (toks ++ more) := by
  cases toks with
  | nil =>
    refine .goesOn [.ofToken .closeSquare] (List.forall_mem_singleton.mpr (by decide)) ?_ ?_
    · exact fun more => (listTerm_inside sub more).passes (Nat.le_refl _)
    · exact fun tail _ => ⟨.nil, none, rfl⟩
  | cons l rest =>
    by_cases hl : l.token = .closeSquare
    · exact (Foreseen.value Term.nil rest).of_eq fun _ => if_pos hl
    · exact (elements_foreseen h (l :: rest)).of_eq fun _ => if_neg hl

theorem curlyTerm_foreseen (toks : List Lexeme) :
    Foreseen fun more => curlyTerm sub (toks ++ more) := by
  cases toks with
  | nil =>
    refine .goesOn [.ofToken .closeCurly] (List.forall_mem_singleton.mpr (by decide)) ?_ ?_
    · exact fun more => (curlyTerm_inside sub more).passes (Nat.le_refl _)
    · exact fun tail _ => ⟨_, none, rfl⟩
  | cons l rest =>
    by_cases hl : l.token = .closeCurly
    · exact (Foreseen.value _ rest).of_eq fun _ => if_pos hl
    · have hcloses : Token.closes .closeCurly = true := rfl
      have hinner := closed_foreseen h maxPriority .curly hcloses (by decide)
        (.closing .curly "'\x7d'") id (l :: rest)
      exact (hinner.map _).of_eq fun _ => if_neg hl

/-! ## Names -/

/-- The arguments that a bracket opens. -/
theorem compoundTerm_foreseen (functor : String) {toks : List Lexeme} (hne : toks ≠ []) :
    Foreseen fun more => compoundTerm sub functor (toks ++ more) := by
  obtain ⟨l, rest, rfl⟩ := List.exists_cons_of_ne_nil hne
  exact (arguments_foreseen h rest).map _

variable (quotes : DoubleQuotes)

/-- An operator that gives up its argument remembers what it looked behind. -/
theorem application_foreseen (name : String) (op : Operator) (max : Nat) {toks : List Lexeme}
    (hne : toks ≠ []) :
    Foreseen fun more => application ⟨quotes, .thorough⟩ sub name op max (toks ++ more) := by
  have hfollower := h.follower (min op.rightMax (min op.priority max))
  have hargument := h.foreseen (min op.rightMax (min op.priority max)) .operand toks
  unfold application
  generalize sub.read (min op.rightMax (min op.priority max)) .operand = read
    at hfollower hargument ⊢
  cases hargument with
  | decided o hsight hread =>
    cases o with
    | read v last a =>
      obtain ⟨l, last, rfl⟩ := List.exists_cons_of_ne_nil hsight.1
      have hlast : followsOperand l.token = true := hfollower _ v _ _ (hread [])
      refine .decided (.read (.compound name [v.1], min op.priority max) (l :: last) a) hsight ?_
      intro more
      simp [hread, Outcome.extend, applied, peek, hlast]
    | miss m a =>
      refine .decided (.read (.atom name, 0) toks (Miss.furthest a (some m))) ⟨hne, ?_⟩ ?_
      · intro x hx
        rcases Outcome.mem_furthest hx with hx | hx
        · exact hsight.2 x hx
        · exact Option.some.inj hx ▸ hsight.1
      · intro more
        simp [hread, Outcome.extend, applied, Miss.furthest_extend]
    | tooDeep last => exact .decided (.tooDeep last) trivial fun more => by rw [hread]; rfl
  | goesOn closing hstop hpasses hcloses =>
    refine .goesOn closing hstop (fun more => ?_) fun tail htail => ?_
    · have hmore := hpasses more
      cases hread : read (toks ++ more) with
      | read v last a =>
        rw [hread] at hmore
        simp only [applied, hfollower _ _ _ _ hread, or_true, if_true]
        exact hmore
      | miss m a =>
        rw [hread] at hmore
        refine .inr (Miss.exists_furthest_le ?_)
        exact hmore.symm.imp_right fun hle => ⟨m, rfl, hle⟩
      | tooDeep last => trivial
    · obtain ⟨v, a, hread⟩ := hcloses tail htail
      refine ⟨(.compound name [v.1], min op.priority max), a, ?_⟩
      simp [hread, applied, htail.followsOperand]

/-- A name at the end may stand alone; what follows it decides on the rest. -/
theorem nameTerm_foreseen (name : String) (max : Nat) (toks : List Lexeme) :
    Foreseen fun more => nameTerm ⟨quotes, .thorough⟩ sub name max (toks ++ more) := by
  cases toks with
  | nil =>
    refine .goesOn [] (List.forall_mem_nil _) ?_ ?_
    · exact fun more => (nameTerm_inside _ sub name max more).passes (Nat.le_refl _)
    · intro tail htail
      refine ⟨(.atom name, 0), none, ?_⟩
      simp only [List.nil_append, nameTerm, htail.opensArguments, htail.negativeLiteral,
        htail.startsTerm, ite_self, Bool.false_eq_true, if_false]
      cases Operator.before? name <;> rfl
  | cons l rest =>
    have hopens : ∀ more, opensArguments (l :: rest ++ more) = opensArguments [l] := fun _ => rfl
    have hliteral : ∀ more, negativeLiteral (l :: rest ++ more) = negativeLiteral [l] :=
      fun _ => rfl
    have hpeek : ∀ more, peek (l :: rest ++ more) = l.token := fun _ => rfl
    simp only [nameTerm, hopens, hliteral, hpeek]
    split
    · exact compoundTerm_foreseen h name (List.cons_ne_nil l rest)
    · split
      · rename_i t _
        exact .value (t, 0) rest
      · split
        · exact .value _ (l :: rest)
        · split
          · exact application_foreseen h quotes name _ max (List.cons_ne_nil l rest)
          · exact .value _ (l :: rest)

theorem primary_foreseen (max : Nat) (rule : Rule) (toks : List Lexeme) :
    Foreseen fun more => primary ⟨quotes, .thorough⟩ sub max rule (toks ++ more) := by
  cases toks with
  | nil =>
    -- Any operand will do.
    refine .goesOn [.ofToken (.integer 0)] (List.forall_mem_singleton.mpr (by decide)) ?_ ?_
    · exact fun more => (primary_inside _ sub max rule more).passes (Nat.le_refl _)
    · exact fun tail _ => ⟨(.integer (0 : Nat), 0), none, rfl⟩
  | cons l rest =>
    simp only [primary, List.cons_append, peek, List.tail_cons]
    cases l.token with
    | integer | float | var | string | backQuoted => exact .value _ rest
    | openRound =>
      exact (closed_foreseen h maxPriority .parenthesized rfl (by decide) _ id rest).map _
    | openSquare => exact (listTerm_foreseen h rest).map _
    | openCurly => exact (curlyTerm_foreseen h rest).map _
    | name name => exact nameTerm_foreseen h quotes name max rest
    | quotedName name =>
      cases rest with
      | nil =>
        refine .goesOn [] (List.forall_mem_nil _) (fun more => ?_) fun tail htail => ?_
        · by_cases hopens : opensArguments more = true
          · simp only [List.nil_append, hopens, if_true]
            exact (compoundTerm_inside sub name more).passes (Nat.le_refl _)
          · simp only [List.nil_append, hopens, Bool.false_eq_true, if_false]
            exact (simple_inside _ more).passes (Nat.le_refl _)
        · exact ⟨(.atom name, 0), none, by simp [htail.opensArguments, simple]⟩
      | cons next rest =>
        have hopens : ∀ more, opensArguments (next :: rest ++ more) = opensArguments [next] :=
          fun _ => rfl
        simp only [hopens]
        split
        · exact compoundTerm_foreseen h name (List.cons_ne_nil next rest)
        · exact .value _ (next :: rest)
    | _ => exact .miss (List.cons_ne_nil l rest) _

/-! ## Operators between terms -/

omit h in
/-- No operator is read from what closes something, so all that wait are applied. -/
theorem resume_closes (style : Style) (sub : Reader) (pending : List Pending) (max : Nat)
    (left : Term) (priority : Nat) {tail : List Lexeme} (htail : Closes tail) :
    ∃ v, resume style sub pending max left priority tail = .read v tail none := by
  induction pending generalizing max left priority with
  | nil => exact ⟨_, resume_nil (htail.continuation priority max)⟩
  | cons outer others ih =>
    rw [resume_pop outer others (htail.continuation priority max)]
    exact ih outer.max _ outer.priority

theorem resume_foreseen (pending : List Pending) (max : Nat) (left : Term) (priority : Nat)
    (toks : List Lexeme) : Foreseen fun more =>
      resume ⟨quotes, .thorough⟩ sub pending max left priority (toks ++ more) := by
  cases toks with
  | nil =>
    refine .goesOn [] (List.forall_mem_nil _) ?_ ?_
    · exact fun more => (resume_inside _ sub pending max left priority more).passes (Nat.le_refl _)
    · intro tail htail
      obtain ⟨v, hread⟩ := resume_closes ⟨quotes, .thorough⟩ sub pending max left
        priority htail
      exact ⟨v, none, hread⟩
  | cons l rest =>
    have hpeek : ∀ more, peek (l :: rest ++ more) = l.token := fun _ => rfl
    cases hc : continuation priority max l.token with
    | none =>
      cases pending with
      | nil => exact (Foreseen.value (left, priority) (l :: rest)).of_eq fun _ => resume_nil hc
      | cons outer others =>
        exact (resume_foreseen others outer.max _ outer.priority (l :: rest)).of_eq fun _ =>
          resume_pop outer others hc
    | some c =>
      cases c with
      | after functor op =>
        exact (resume_foreseen pending max _ op.priority rest).of_eq fun _ =>
          resume_after pending hc
      | between functor op =>
        refine Foreseen.of_eq ?_ fun _ => resume_between pending hc
        refine (primary_foreseen h quotes op.rightMax .operand rest).andThen [] ?_ ?_ ?_ ?_
        · exact List.forall_mem_nil _
        · intro tail htail
          refine ⟨htail, fun (right, rightPriority) => ?_⟩
          obtain ⟨v, hread⟩ := resume_closes ⟨quotes, .thorough⟩ sub
            (⟨left, functor, op.priority, max⟩ :: pending) op.rightMax right rightPriority htail
          exact ⟨v, none, hread⟩
        · exact fun _ _ => resume_inside _ _ _ _ _ _ _
        · rintro ⟨right, rightPriority⟩ behind a _ hread
          have : behind.length < (l :: rest).length := by
            have hlt := primary_shortens ⟨quotes, .thorough⟩ sub op.rightMax .operand rest
            rw [List.append_nil] at hread
            rw [hread, Outcome.Shortens] at hlt
            exact Nat.lt_succ_of_lt hlt
          exact resume_foreseen _ op.rightMax right rightPriority behind
termination_by (toks.length, pending.length)

theorem operators_foreseen (max : Nat) (rule : Rule) (toks : List Lexeme) :
    Foreseen fun more => operators ⟨quotes, .thorough⟩ sub max rule (toks ++ more) := by
  refine (primary_foreseen h quotes max rule toks).andThen [] (List.forall_mem_nil _) ?_ ?_ ?_
  · intro tail htail
    refine ⟨htail, fun (t, priority) => ?_⟩
    obtain ⟨v, hread⟩ := resume_closes ⟨quotes, .thorough⟩ sub [] max t priority htail
    exact ⟨v, none, hread⟩
  · exact fun _ _ => resume_inside _ _ _ _ _ _ _
  · exact fun (t, priority) rest _ _ _ => resume_foreseen h quotes [] max t priority rest

end

/-! ## All levels -/

theorem insisted_foreseen {read : List Lexeme → Outcome (Term × Nat)} (h : Foreseen read) :
    Foreseen fun more => insisted (read more) := by
  cases h with
  | decided o hsight hread =>
    cases o with
    | read v last a =>
      obtain ⟨l, last, rfl⟩ := List.exists_cons_of_ne_nil hsight.1
      by_cases hl : followsOperand l.token = true
      · refine .decided (.read v (l :: last) a) hsight fun more => ?_
        simp [hread, Outcome.extend, insisted, peek, hl]
      · refine .decided (.miss ⟨l :: last, ⟨[], true, .operand⟩⟩ a) hsight fun more => ?_
        simp [hread, Outcome.extend, insisted, peek, hl, Miss.extend]
    | miss m a => exact .decided (.miss m a) hsight fun more => by rw [hread]; rfl
    | tooDeep rest => exact .decided (.tooDeep rest) trivial fun more => by rw [hread]; rfl
  | goesOn closing hstop hpasses hcloses =>
    refine .goesOn closing hstop (fun more => ?_) fun tail htail => ?_
    · have hmore := hpasses more
      generalize read more = o at hmore ⊢
      cases o with
      | read v last a =>
        simp only [insisted]
        split <;> exact hmore
      | miss m a => exact hmore
      | tooDeep rest => trivial
    · obtain ⟨v, a, hread⟩ := hcloses tail htail
      exact ⟨v, a, by simp [hread, insisted, htail.followsOperand]⟩

theorem insist_foresees {sub : Reader}
    (h : ∀ max rule toks, Foreseen fun more => sub.read max rule (toks ++ more)) :
    Foresees (insist sub) where
  foreseen max rule toks := by
    by_cases hrule : rule = .operand
    · subst hrule
      exact insisted_foreseen (h max .operand toks)
    · exact (h max rule toks).of_eq fun _ => insist_of_ne sub hrule max _
  follower max toks v last a hread := by
    rw [insist_operand] at hread
    cases hargument : sub.read max .operand toks with
    | read v' last' a' =>
      rw [hargument, insisted] at hread
      split at hread
      · rename_i hlast
        cases hread
        exact hlast
      · cases hread
    | miss m b =>
      rw [hargument] at hread
      cases hread
    | tooDeep rest =>
      rw [hargument] at hread
      cases hread

/-- Of the attentive reader some lexemes decide what it comes to, whatever follows them,
or it looks behind them in every case, and with some more of them it reads a term. -/
theorem attentive_foreseen (quotes : DoubleQuotes) (levels max : Nat) (rule : Rule)
    (toks : List Lexeme) :
    Foreseen fun more => (attentive quotes levels).read max rule (toks ++ more) := by
  induction levels generalizing max rule toks with
  | zero => exact .decided (.tooDeep toks) trivial fun _ => rfl
  | succ levels ih => exact operators_foreseen (insist_foresees ih) quotes max rule toks

end Reading

end Clausal
