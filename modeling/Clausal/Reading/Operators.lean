import Clausal.Reading.Primary

/-
  Operators between and after terms — one level of nesting

  A term under a bound `max` is a primary term and then, as long as the bound
  and the priority read so far allow it, operators with their right arguments.
  Operators that wait for their right argument are kept on a stack, so that a
  chain of them is one level of nesting, however long.

  What is proved:
    1. `resume_inside` and `operators_inside` — every place an outcome speaks
       of lies in the lexemes it was read from.
    2. `operators_shortens` — a term takes at least one lexeme. With these,
       `terms` is a reader for every number of levels.
    3. `terms_zero` and `terms_succ` — what it reads on no level, and on one
       more.
-/

namespace Clausal.Reading

/-- A left argument and its operator, waiting for the right one; `max` is the
bound of the term they belong to. -/
structure Pending where
  left : Term
  functor : String
  priority : Nat
  max : Nat
  deriving DecidableEq

/-- An operator that goes on with the term before it. -/
inductive Continuation where
  | between (functor : String) (op : Operator)
  | after (functor : String) (op : Operator)
  deriving DecidableEq, Repr

/-- The bar between two terms stands for a semicolon. -/
def barOperator : Operator := ⟨1100, .xfy⟩

/-- Whether an operator may follow a term of this priority under a bound. -/
def fits (left max : Nat) (op : Operator) : Bool := op.priority ≤ max && left ≤ op.leftMax

/-- A name as an operator that goes on with the term before it. -/
def continuationOfName (left max : Nat) (name : String) : Option Continuation :=
  match (Operator.between? name).filter (fits left max) with
  | some op => some (.between name op)
  | none => ((Operator.after? name).filter (fits left max)).map (.after name)

/-- The operator that a token is behind a term of priority `left`, in a term of
priority at most `max`. -/
def continuation (left max : Nat) : Token → Option Continuation
  | .name name => continuationOfName left max name
  | .comma => ((Operator.between? ",").filter (fits left max)).map (.between ",")
  | .bar => if fits left max barOperator then some (.between ";" barOperator) else none
  | _ => none

theorem continuation_ne_nil {left max : Nat} {toks : List Lexeme} {c : Continuation}
    (h : continuation left max (peek toks) = some c) : toks ≠ [] := by
  rintro rfl
  simp [peek, continuation] at h

/-- Goes on behind the term `left` of a priority, under the bound `max`, with the
operators that wait for it. -/
def resume (style : Style) (sub : Reader) (pending : List Pending) (max : Nat) (left : Term)
    (priority : Nat) (toks : List Lexeme) : Outcome (Term × Nat) :=
  match _hc : continuation priority max (peek toks) with
  | some (.between functor op) =>
    match _hp : primary style sub op.rightMax .operand toks.tail with
    | .read (right, rightPriority) rest a =>
      (resume style sub (⟨left, functor, op.priority, max⟩ :: pending) op.rightMax right
        rightPriority rest).after a
    | .miss m a => .miss m a
    | .tooDeep rest => .tooDeep rest
  | some (.after functor op) =>
    resume style sub pending max (.compound functor [left]) op.priority toks.tail
  | none =>
    match pending with
    | [] => .read (left, priority) toks none
    | outer :: others =>
      resume style sub others outer.max (.compound outer.functor [outer.left, left])
        outer.priority toks
termination_by (toks.length, pending.length)
decreasing_by
  · have := primary_shortens style sub op.rightMax .operand toks.tail
    rw [_hp] at this
    simp only [Outcome.Shortens, List.length_tail] at this
    exact Prod.Lex.left _ _ (by omega)
  · have := List.length_pos_iff.mpr (continuation_ne_nil _hc)
    exact Prod.Lex.left _ _ (by simp only [List.length_tail]; omega)
  · exact Prod.Lex.right _ (by simp)

/-- A term of priority at most `max`, with the priority it was read at. -/
def operators (style : Style) (sub : Reader) (max : Nat) (rule : Rule) (toks : List Lexeme) :
    Outcome (Term × Nat) :=
  (primary style sub max rule toks).andThen fun (t, priority) rest =>
    resume style sub [] max t priority rest

theorem resume_inside (style : Style) (sub : Reader) (pending : List Pending) (max : Nat)
    (left : Term) (priority : Nat) (toks : List Lexeme) :
    (resume style sub pending max left priority toks).Inside toks := by
  fun_induction resume style sub pending max left priority toks with
  | case1 pending max left priority toks functor op _ right rightPriority rest a hp ih =>
    have hin := primary_inside style sub op.rightMax .operand toks.tail
    rw [hp] at hin
    have htail := List.tail_suffix toks
    exact Outcome.inside_after (ih.mono (hin.1.trans htail))
      fun m hm => (hin.2 m hm).trans htail
  | case2 pending max left priority toks functor op _ m a hp =>
    have hin := primary_inside style sub op.rightMax .operand toks.tail
    rw [hp] at hin
    exact hin.mono (List.tail_suffix toks)
  | case3 pending max left priority toks functor op _ rest hp =>
    have hin := primary_inside style sub op.rightMax .operand toks.tail
    rw [hp] at hin
    exact hin.mono (List.tail_suffix toks)
  | case4 pending max left priority toks functor op _ ih => exact ih.mono (List.tail_suffix toks)
  | case5 max left priority toks _ => exact ⟨List.suffix_refl toks, by simp⟩
  | case6 max left priority toks _ outer others ih => exact ih

theorem operators_inside (style : Style) (sub : Reader) (max : Nat) (rule : Rule)
    (toks : List Lexeme) : (operators style sub max rule toks).Inside toks :=
  Outcome.inside_andThen (primary_inside _ _ _ _ _) fun _ _ => resume_inside _ _ _ _ _ _ _

theorem operators_shortens (style : Style) (sub : Reader) (max : Nat) (rule : Rule)
    (toks : List Lexeme) : (operators style sub max rule toks).Shortens toks :=
  Outcome.shortens_andThen (primary_shortens _ _ _ _ _) fun _ _ => resume_inside _ _ _ _ _ _ _

/-! ## Levels of nesting -/

/-- The reader for one level more. -/
def deeper (style : Style) (sub : Reader) : Reader where
  read := operators style sub
  inside := operators_inside style sub
  shortens := operators_shortens style sub

/-- The reader that no level is left for. -/
def exhausted : Reader where
  read _ _ toks := .tooDeep toks
  inside _ _ toks := List.suffix_refl toks
  shortens _ _ _ := trivial

/-- A term that nests at most so many levels, with what makes it a reading. The
reader for the levels below is made when it is first needed, so that the number
of levels may be as large as it likes. -/
def readWithin (style : Style) : (levels max : Nat) → (rule : Rule) → (toks : List Lexeme) →
    { o : Outcome (Term × Nat) // o.Inside toks ∧ o.Shortens toks }
  | 0, max, rule, toks =>
    ⟨exhausted.read max rule toks, exhausted.inside max rule toks, exhausted.shortens max rule toks⟩
  | levels + 1, max, rule, toks =>
    let below : Reader := {
      read := fun max rule toks => (readWithin style levels max rule toks).val
      inside := fun max rule toks => (readWithin style levels max rule toks).property.1
      shortens := fun max rule toks => (readWithin style levels max rule toks).property.2 }
    ⟨operators style below max rule toks, operators_inside _ _ _ _ _, operators_shortens _ _ _ _ _⟩

/-- Reads terms that nest at most so many levels. -/
def terms (style : Style) (levels : Nat) : Reader where
  read max rule toks := (readWithin style levels max rule toks).val
  inside max rule toks := (readWithin style levels max rule toks).property.1
  shortens max rule toks := (readWithin style levels max rule toks).property.2

theorem terms_zero (style : Style) : terms style 0 = exhausted := rfl

theorem terms_succ (style : Style) (levels : Nat) :
    terms style (levels + 1) = deeper style (terms style levels) := rfl

end Clausal.Reading
