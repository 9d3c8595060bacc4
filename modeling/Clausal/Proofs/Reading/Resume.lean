import Clausal.Reading.Operators
import Clausal.Proofs.Operator

/-
  Going on behind a term — the loop of one level, step by step

  What is proved:
    1. `resume_nil`, `resume_pop`, `resume_between` — the steps of the loop:
       no operator follows and none waits, none follows and one waits, one
       follows.
    2. `continuation_of_le` — what cannot go on with a term under a bound cannot
       go on with it under a lower bound.
    3. `terms_read` and `terms_tooDeep` — a term that ends the loop is what a level
       reads, and one that nests too deep ends the level.
    4. `Reader.pred_length_lt` — what the recursions over separators get down by.
-/

namespace Clausal

theorem Outcome.after_none {α : Type} (o : Outcome α) : o.after none = o := by
  cases o <;> rfl

theorem Miss.furthest_none (a : Option Miss) : Miss.furthest a none = a := by
  cases a <;> rfl

theorem Outcome.map_read {α β : Type} (f : α → β) (v : α) (rest : List Lexeme)
    (a : Option Miss) : (Outcome.read v rest a).map f = .read (f v) rest a := rfl

theorem Outcome.andThen_read {α β : Type} (v : α) (rest : List Lexeme)
    (next : α → List Lexeme → Outcome β) :
    (Outcome.read v rest none).andThen next = next v rest := by
  rw [andThen, after_none]

theorem expect_read {token : Token} {toks : List Lexeme} (expected : Expected)
    (h : peek toks = token) : expect token expected toks = .read () toks.tail none := by
  rw [expect, if_pos h]

/-- Behind a separator less is left than was read from. -/
theorem Reader.pred_length_lt (sub : Reader) {max : Nat} {rule : Rule} {toks rest : List Lexeme}
    {v : Term × Nat} {a : Option Miss} (h : sub.read max rule toks = .read v rest a) :
    rest.length - 1 < toks.length := by
  have hlt := sub.shortens max rule toks
  rw [h] at hlt
  exact Nat.lt_of_le_of_lt (Nat.sub_le _ _) hlt

namespace Reading

/-- A bracket that opens arguments stands in front of them. -/
theorem opening_of_opensArguments {toks : List Lexeme} (h : opensArguments toks = true) :
    ∃ opening, toks = opening :: toks.tail ∧ opening.token = .openRound ∧
      opening.layoutBefore = false := by
  cases toks with
  | nil => cases h
  | cons opening rest =>
    obtain ⟨htoken, hlayout⟩ := Bool.and_eq_true_iff.mp h
    exact ⟨opening, rfl, beq_iff_eq.mp htoken, by simpa using hlayout⟩

/-- A primary term and what goes on behind it, with operators that wait. -/
def start (style : Style) (sub : Reader) (pending : List Pending) (max : Nat) (rule : Rule)
    (toks : List Lexeme) : Outcome (Term × Nat) :=
  (primary style sub max rule toks).andThen fun (t, priority) rest =>
    resume style sub pending max t priority rest

theorem operators_eq_start (style : Style) (sub : Reader) (max : Nat) (rule : Rule)
    (toks : List Lexeme) : operators style sub max rule toks = start style sub [] max rule toks :=
  rfl

theorem start_of_primary {style : Style} {sub : Reader} {max : Nat} {rule : Rule}
    {toks rest : List Lexeme} {t : Term} {priority : Nat} (pending : List Pending)
    (h : primary style sub max rule toks = .read (t, priority) rest none) :
    start style sub pending max rule toks = resume style sub pending max t priority rest := by
  rw [start, h, Outcome.andThen_read]

/-! ## Equations without the measure -/

theorem arguments_eq (sub : Reader) (toks : List Lexeme) :
    arguments sub toks =
      (sub.read argumentPriority .arguments toks).andThen fun (t, _) rest =>
        match peek rest with
        | .comma => (arguments sub rest.tail).map (t :: ·)
        | .closeRound => .read [t] rest.tail none
        | _ => .miss ⟨rest, .tokens .arguments ["','", "')'"]⟩ none := by
  rw [arguments.eq_def]
  split
  · rename_i rest _ heq
    rw [heq, Outcome.andThen]
    cases hpeek : peek rest <;> simp [Outcome.after, Miss.furthest_none]
  · rename_i heq
    rw [heq, Outcome.andThen]
  · rename_i heq
    rw [heq, Outcome.andThen]

theorem elements_eq (sub : Reader) (toks : List Lexeme) :
    elements sub toks =
      (sub.read argumentPriority .list toks).andThen fun (t, _) rest =>
        match peek rest with
        | .comma => (elements sub rest.tail).map (.cons t)
        | .bar =>
          (sub.read argumentPriority .list rest.tail).andThen fun (tail, _) last =>
            (expect .closeSquare (.tokens .list ["']'"]) last).map fun _ => .cons t tail
        | .closeSquare => .read (.cons t .nil) rest.tail none
        | _ => .miss ⟨rest, .tokens .list ["','", "'|'", "']'"]⟩ none := by
  rw [elements.eq_def]
  split
  · rename_i rest _ heq
    rw [heq, Outcome.andThen]
    cases hpeek : peek rest <;> simp [Outcome.after, Miss.furthest_none]
  · rename_i heq
    rw [heq, Outcome.andThen]
  · rename_i heq
    rw [heq, Outcome.andThen]

theorem resume_eq (style : Style) (sub : Reader) (pending : List Pending) (max : Nat) (left : Term)
    (priority : Nat) (toks : List Lexeme) :
    resume style sub pending max left priority toks =
      match continuation priority max (peek toks) with
      | some (.between functor op) =>
        start style sub (⟨left, functor, op.priority, max⟩ :: pending) op.rightMax .operand
          toks.tail
      | some (.after functor op) =>
        resume style sub pending max (.compound functor [left]) op.priority toks.tail
      | none =>
        match pending with
        | [] => .read (left, priority) toks none
        | outer :: others =>
          resume style sub others outer.max (.compound outer.functor [outer.left, left])
            outer.priority toks := by
  rw [resume.eq_def]
  split
  · rename_i functor op heq
    rw [heq]
    show _ = start style sub (⟨left, functor, op.priority, max⟩ :: pending) _ _ _
    split
    · rename_i hp
      rw [start, hp]
      rfl
    · rename_i hp
      rw [start, hp]
      rfl
    · rename_i hp
      rw [start, hp]
      rfl
  · rename_i heq
    rw [heq]
  · rename_i heq
    cases pending <;> simp only [heq]

/-! ## Steps of the loop -/

section Steps

variable {style : Style} {sub : Reader} {max priority : Nat} {left : Term} {toks : List Lexeme}

theorem resume_nil (h : continuation priority max (peek toks) = none) :
    resume style sub [] max left priority toks = .read (left, priority) toks none := by
  rw [resume_eq, h]

theorem resume_pop (outer : Pending) (others : List Pending)
    (h : continuation priority max (peek toks) = none) :
    resume style sub (outer :: others) max left priority toks =
      resume style sub others outer.max (.compound outer.functor [outer.left, left])
        outer.priority toks := by
  rw [resume_eq, h]

theorem resume_between (pending : List Pending) {functor : String} {op : Operator}
    (h : continuation priority max (peek toks) = some (.between functor op)) :
    resume style sub pending max left priority toks =
      start style sub (⟨left, functor, op.priority, max⟩ :: pending) op.rightMax .operand
        toks.tail := by
  rw [resume_eq, h]

theorem resume_after (pending : List Pending) {functor : String} {op : Operator}
    (h : continuation priority max (peek toks) = some (.after functor op)) :
    resume style sub pending max left priority toks =
      resume style sub pending max (.compound functor [left]) op.priority toks.tail := by
  rw [resume_eq, h]

end Steps

/-! ## What may go on with a term -/

theorem not_fits_of_le {left low max : Nat} {op : Operator} (hle : low ≤ max)
    (h : fits 0 max op = false) : fits left low op = false := by
  simp only [fits, Bool.and_eq_false_iff, decide_eq_false_iff_not] at h ⊢
  omega

theorem filter_fits_of_le {left low max : Nat} {op : Option Operator} (hle : low ≤ max)
    (h : op.filter (fits 0 max) = none) : op.filter (fits left low) = none := by
  cases op with
  | none => rfl
  | some op =>
    rw [Option.filter_eq_none_iff] at h ⊢
    intro o ho
    have hfits : fits 0 max o = false := by simpa using h o ho
    simp [not_fits_of_le hle hfits]

theorem continuationOfName_eq (left max : Nat) (name : String) :
    continuationOfName left max name =
      ((Operator.between? name).filter (fits left max)).map (.between name) := by
  unfold continuationOfName
  rw [Operator.after?_eq_none]
  split
  · rename_i heq
    rw [heq]
    rfl
  · rename_i heq
    rw [heq]
    rfl

/-- Under a lower bound no more can go on with a term. -/
theorem continuation_of_le {left low max : Nat} {token : Token} (hle : low ≤ max)
    (h : continuation 0 max token = none) : continuation left low token = none := by
  cases token with
  | name name =>
    simp only [continuation, continuationOfName_eq, Option.map_eq_none_iff] at h ⊢
    exact filter_fits_of_le hle h
  | comma =>
    simp only [continuation, Option.map_eq_none_iff] at h ⊢
    exact filter_fits_of_le hle h
  | bar =>
    simp only [continuation] at h ⊢
    split at h
    · cases h
    · rename_i hfits
      rw [if_neg]
      simpa using not_fits_of_le hle (by simpa using hfits)
  | _ => rfl

/-- One level more reads what its loop comes to. -/
theorem terms_eq_start (style : Style) (levels max : Nat) (rule : Rule) (toks : List Lexeme) :
    (terms style (levels + 1)).read max rule toks =
      start style (terms style levels) [] max rule toks := rfl

/-- A term behind which nothing goes on is what one level more reads. -/
theorem terms_read {style : Style} {levels max priority : Nat} {rule : Rule} {t : Term}
    {toks rest : List Lexeme}
    (h : start style (terms style levels) [] max rule toks =
      resume style (terms style levels) [] max t priority rest)
    (hstop : continuation 0 max (peek rest) = none) :
    (terms style (levels + 1)).read max rule toks = .read (t, priority) rest none := by
  rw [terms_eq_start, h, resume_nil (continuation_of_le (Nat.le_refl max) hstop)]

/-- A primary term that nests too deep ends the reading on one level more. -/
theorem terms_tooDeep {style : Style} {levels max : Nat} {rule : Rule} {toks rest : List Lexeme}
    (h : primary style (terms style levels) max rule toks = .tooDeep rest) :
    (terms style (levels + 1)).read max rule toks = .tooDeep rest := by
  rw [terms_eq_start, start, h, Outcome.andThen]

end Reading

end Clausal
