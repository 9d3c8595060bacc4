import Clausal.Reading.Outcome
import Clausal.Term.Lists

/-
  Primary terms — what can be read without an operator between its parts

  Numbers, variables, strings, names, compounds, lists and terms in brackets
  have priority 0. A name that is an operator before its argument may take one,
  and then has that operator's priority, lowered to what the place allows.

  A name with an opening bracket directly behind it is a functor. A minus
  directly before a number is its sign.

  Every function here is given the reader for one level of nesting deeper.

  What is proved:
    1. `primary_inside` and `primary_shortens` — a primary term takes at least
       one lexeme, and every place it speaks of lies in what it was given.
-/

namespace Clausal

/-- What text in double quotes is read as. -/
inductive DoubleQuotes where
  | codes
  | chars
  | atom
  deriving DecidableEq, Repr

/-- How an operator before its argument is read: the fast way keeps to the first
reading, the thorough way takes the operator for an atom when its argument
cannot be read or nothing plausible follows it. -/
inductive Mode where
  | fast
  | thorough
  deriving DecidableEq, Repr

/-- What reading a term depends on besides the lexemes. -/
structure Style where
  quotes : DoubleQuotes
  mode : Mode
  deriving DecidableEq, Repr

namespace Reading

/-- A term of priority 0 that took these lexemes. -/
def simple (t : Term) (rest : List Lexeme) : Outcome (Term × Nat) := .read (t, 0) rest none

/-- Whether an opening bracket stands here with nothing before it. -/
def opensArguments : List Lexeme → Bool
  | [] => false
  | l :: _ => l.token == .openRound && !l.layoutBefore

/-- The list of the character codes of a text. -/
def codes (text : String) : Term :=
  .list (text.toList.map fun c => .integer c.toNat)

/-- Text in double quotes as a term. -/
def stringTerm (quotes : DoubleQuotes) (text : String) : Term :=
  match quotes with
  | .codes => codes text
  | .chars => .list (text.toList.map fun c => .atom c.toString)
  | .atom => .atom text

/-! ## Brackets -/

/-- A term up to its closing bracket. -/
def enclosed (sub : Reader) (rule : Rule) (close : Token) (shown : String)
    (toks : List Lexeme) : Outcome Term :=
  (sub.read maxPriority rule toks).andThen fun (t, _) rest =>
    (expect close (.closing rule shown) rest).map fun _ => t

/-- The arguments of a compound behind its opening bracket. -/
def arguments (sub : Reader) (toks : List Lexeme) : Outcome (List Term) :=
  match _h : sub.read argumentPriority .arguments toks with
  | .read (t, _) rest a =>
    match peek rest with
    | .comma => ((arguments sub rest.tail).map (t :: ·)).after a
    | .closeRound => .read [t] rest.tail a
    | _ => .miss ⟨rest, .tokens .arguments ["','", "')'"]⟩ a
  | .miss m a => .miss m a
  | .tooDeep rest => .tooDeep rest
termination_by toks.length
decreasing_by
  have := sub.shortens argumentPriority .arguments toks
  rw [_h] at this
  simp only [Outcome.Shortens] at this
  simp only [List.length_tail]
  omega

/-- The elements of a list behind its opening bracket, of which there is at
least one. -/
def elements (sub : Reader) (toks : List Lexeme) : Outcome Term :=
  match _h : sub.read argumentPriority .list toks with
  | .read (t, _) rest a =>
    match peek rest with
    | .comma => ((elements sub rest.tail).map (.cons t)).after a
    | .bar =>
      ((sub.read argumentPriority .list rest.tail).andThen fun (tail, _) last =>
        (expect .closeSquare (.tokens .list ["']'"]) last).map fun _ => .cons t tail).after a
    | .closeSquare => .read (.cons t .nil) rest.tail a
    | _ => .miss ⟨rest, .tokens .list ["','", "'|'", "']'"]⟩ a
  | .miss m a => .miss m a
  | .tooDeep rest => .tooDeep rest
termination_by toks.length
decreasing_by
  have := sub.shortens argumentPriority .list toks
  rw [_h] at this
  simp only [Outcome.Shortens] at this
  simp only [List.length_tail]
  omega

/-- A list behind its opening bracket. -/
def listTerm (sub : Reader) (toks : List Lexeme) : Outcome Term :=
  if peek toks = .closeSquare then .read .nil toks.tail none else elements sub toks

/-- A term in curly brackets behind the opening one. -/
def curlyTerm (sub : Reader) (toks : List Lexeme) : Outcome Term :=
  if peek toks = .closeCurly then .read (.atom "\x7b\x7d") toks.tail none
  else (enclosed sub .curly .closeCurly "'\x7d'" toks).map fun t => .compound "\x7b\x7d" [t]

/-- A compound behind its functor, its opening bracket still to be read. -/
def compoundTerm (sub : Reader) (functor : String) (toks : List Lexeme) :
    Outcome (Term × Nat) :=
  (arguments sub toks.tail).map fun args => (.application functor args, 0)

/-! ## Names -/

/-- The number that a minus directly before this stands for. -/
def negativeLiteral : List Lexeme → Option Term
  | [] => none
  | l :: _ =>
    match l.layoutBefore, l.token with
    | false, .integer n => some (.integer (-n))
    | false, .float x => some (.float (-x))
    | _, _ => none

/-- Whether a complete operand may stand before this token. -/
def followsOperand (token : Token) : Bool :=
  match token with
  | .name name => (Operator.between? name).isSome || (Operator.after? name).isSome
  | token => token.isTerminator

/-- What an operator before its argument comes to, given what reading the
argument came to. In the thorough mode it becomes an atom when that fails or
nothing plausible follows. -/
def applied (mode : Mode) (name : String) (priority : Nat) (rest : List Lexeme) :
    Outcome (Term × Nat) → Outcome (Term × Nat)
  | .read (t, _) last a =>
    if mode = .fast ∨ followsOperand (peek last) then .read (.compound name [t], priority) last a
    else .read (.atom name, 0) rest a
  | .miss m a =>
    if mode = .fast then .miss m a
    else .read (.atom name, 0) rest (Miss.furthest a (some m))
  | .tooDeep last => .tooDeep last

/-- An operator before its argument; the argument is the next thing to read. -/
def application (style : Style) (sub : Reader) (name : String) (op : Operator) (max : Nat)
    (rest : List Lexeme) : Outcome (Term × Nat) :=
  applied style.mode name (min op.priority max) rest
    (sub.read (min op.rightMax (min op.priority max)) .operand rest)

/-- A term that begins with an unquoted name; `rest` is what follows it. -/
def nameTerm (style : Style) (sub : Reader) (name : String) (max : Nat)
    (rest : List Lexeme) : Outcome (Term × Nat) :=
  if opensArguments rest then compoundTerm sub name rest
  else
    match (if name = "-" then negativeLiteral rest else none) with
    | some t => simple t rest.tail
    | none =>
      match Operator.before? name with
      | none => simple (.atom name) rest
      | some op =>
        if (peek rest).startsTerm then application style sub name op max rest
        else simple (.atom name) rest

/-- A term without an operator between its parts. -/
def primary (style : Style) (sub : Reader) (max : Nat) (rule : Rule) (toks : List Lexeme) :
    Outcome (Term × Nat) :=
  let rest := toks.tail
  match peek toks with
  | .integer n => simple (.integer n) rest
  | .float x => simple (.float x) rest
  | .var name => simple (.var name) rest
  | .string text => simple (stringTerm style.quotes text) rest
  | .backQuoted text => simple (codes text) rest
  | .openRound => (enclosed sub .parenthesized .closeRound "')'" rest).map (·, 0)
  | .openSquare => (listTerm sub rest).map (·, 0)
  | .openCurly => (curlyTerm sub rest).map (·, 0)
  | .quotedName name =>
    if opensArguments rest then compoundTerm sub name rest else simple (.atom name) rest
  | .name name => nameTerm style sub name max rest
  | _ => .miss ⟨toks, .termStart rule⟩ none

/-! ## What a primary term takes -/

theorem enclosed_inside (sub : Reader) (rule : Rule) (close : Token) (shown : String)
    (toks : List Lexeme) : (enclosed sub rule close shown toks).Inside toks :=
  Outcome.inside_andThen (sub.inside _ _ _) fun _ _ => Outcome.inside_map (expect_inside _ _ _)

theorem arguments_inside (sub : Reader) (toks : List Lexeme) :
    (arguments sub toks).Inside toks := by
  rw [arguments]
  split
  · rename_i t p rest a h
    have hin := sub.inside argumentPriority .arguments toks
    have hlt := sub.shortens argumentPriority .arguments toks
    rw [h] at hin hlt
    have htail : rest.tail <:+ toks := (List.tail_suffix rest).trans hin.1
    split
    · have : rest.length - 1 < toks.length := Nat.lt_of_le_of_lt (Nat.sub_le _ _) hlt
      exact Outcome.inside_after
        (Outcome.inside_map ((arguments_inside sub rest.tail).mono htail)) hin.2
    · exact ⟨htail, hin.2⟩
    · exact hin
  · rename_i m a h
    have hin := sub.inside argumentPriority .arguments toks
    rw [h] at hin
    exact hin
  · rename_i rest h
    have hin := sub.inside argumentPriority .arguments toks
    rw [h] at hin
    exact hin
termination_by toks.length

theorem elements_inside (sub : Reader) (toks : List Lexeme) :
    (elements sub toks).Inside toks := by
  rw [elements]
  split
  · rename_i t p rest a h
    have hin := sub.inside argumentPriority .list toks
    have hlt := sub.shortens argumentPriority .list toks
    rw [h] at hin hlt
    have htail : rest.tail <:+ toks := (List.tail_suffix rest).trans hin.1
    split
    · have : rest.length - 1 < toks.length := Nat.lt_of_le_of_lt (Nat.sub_le _ _) hlt
      exact Outcome.inside_after
        (Outcome.inside_map ((elements_inside sub rest.tail).mono htail)) hin.2
    · refine Outcome.inside_after ((Outcome.inside_andThen (sub.inside _ _ _) ?_).mono htail) hin.2
      exact fun _ _ => Outcome.inside_map (expect_inside _ _ _)
    · exact ⟨htail, hin.2⟩
    · exact hin
  · rename_i m a h
    have hin := sub.inside argumentPriority .list toks
    rw [h] at hin
    exact hin
  · rename_i rest h
    have hin := sub.inside argumentPriority .list toks
    rw [h] at hin
    exact hin
termination_by toks.length

theorem listTerm_inside (sub : Reader) (toks : List Lexeme) : (listTerm sub toks).Inside toks := by
  unfold listTerm
  split
  · exact ⟨List.tail_suffix toks, by simp⟩
  · exact elements_inside sub toks

theorem curlyTerm_inside (sub : Reader) (toks : List Lexeme) :
    (curlyTerm sub toks).Inside toks := by
  unfold curlyTerm
  split
  · exact ⟨List.tail_suffix toks, by simp⟩
  · exact Outcome.inside_map (enclosed_inside _ _ _ _ _)

theorem compoundTerm_inside (sub : Reader) (functor : String) (toks : List Lexeme) :
    (compoundTerm sub functor toks).Inside toks :=
  (Outcome.inside_map (arguments_inside sub toks.tail)).mono (List.tail_suffix toks)

theorem applied_inside (mode : Mode) (name : String) (priority : Nat) {rest : List Lexeme}
    {o : Outcome (Term × Nat)} (h : o.Inside rest) :
    (applied mode name priority rest o).Inside rest := by
  unfold applied
  split
  · split
    · exact h
    · exact ⟨List.suffix_refl rest, h.2⟩
  · split
    · exact h
    · refine ⟨List.suffix_refl rest, fun x hx => ?_⟩
      rcases Outcome.mem_furthest hx with hx | hx
      · exact h.2 x hx
      · rw [← Option.some.inj hx]
        exact h.1
  · exact h

theorem application_inside (style : Style) (sub : Reader) (name : String) (op : Operator)
    (max : Nat) (rest : List Lexeme) : (application style sub name op max rest).Inside rest :=
  applied_inside _ _ _ (sub.inside _ _ _)

theorem simple_inside (t : Term) (rest : List Lexeme) : (simple t rest).Inside rest :=
  ⟨List.suffix_refl rest, by simp⟩

theorem nameTerm_inside (style : Style) (sub : Reader) (name : String) (max : Nat)
    (rest : List Lexeme) : (nameTerm style sub name max rest).Inside rest := by
  unfold nameTerm
  split
  · exact compoundTerm_inside sub name rest
  · split
    · exact (simple_inside _ _).mono (List.tail_suffix rest)
    · split
      · exact simple_inside _ _
      · split
        · exact application_inside _ _ _ _ _ _
        · exact simple_inside _ _

/-- An outcome inside the tail of some lexemes took the first of them. -/
theorem shortens_of_inside_tail {α : Type} {o : Outcome α} {toks : List Lexeme}
    (h : o.Inside toks.tail) (hne : toks ≠ []) : o.Shortens toks := by
  cases o with
  | read v rest a =>
    have := h.1.length_le
    have := List.length_pos_iff.mpr hne
    simp only [List.length_tail] at *
    simp only [Outcome.Shortens]
    omega
  | miss m a => trivial
  | tooDeep rest => trivial

/-- A primary term is a miss at its first lexeme, or it takes that lexeme. -/
theorem primary_cases (style : Style) (sub : Reader) (max : Nat) (rule : Rule)
    (toks : List Lexeme) :
    primary style sub max rule toks = .miss ⟨toks, .termStart rule⟩ none ∨
      toks ≠ [] ∧ (primary style sub max rule toks).Inside toks.tail := by
  cases toks with
  | nil => exact Or.inl rfl
  | cons l rest =>
    unfold primary
    simp only [peek, List.tail_cons, ne_eq, reduceCtorEq, not_false_eq_true, true_and]
    split
    · exact Or.inr (simple_inside _ _)
    · exact Or.inr (simple_inside _ _)
    · exact Or.inr (simple_inside _ _)
    · exact Or.inr (simple_inside _ _)
    · exact Or.inr (simple_inside _ _)
    · exact Or.inr (Outcome.inside_map (enclosed_inside _ _ _ _ _))
    · exact Or.inr (Outcome.inside_map (listTerm_inside _ _))
    · exact Or.inr (Outcome.inside_map (curlyTerm_inside _ _))
    · rename_i name _
      by_cases h : opensArguments rest = true
      · simp only [h, if_true]
        exact Or.inr (compoundTerm_inside _ _ _)
      · simp only [h, if_false, Bool.false_eq_true]
        exact Or.inr (simple_inside _ _)
    · exact Or.inr (nameTerm_inside _ _ _ _ _)
    · exact Or.inl rfl

theorem primary_inside (style : Style) (sub : Reader) (max : Nat) (rule : Rule)
    (toks : List Lexeme) : (primary style sub max rule toks).Inside toks := by
  rcases primary_cases style sub max rule toks with h | ⟨_, h⟩
  · rw [h]
    exact ⟨List.suffix_refl toks, by simp⟩
  · exact h.mono (List.tail_suffix toks)

theorem primary_shortens (style : Style) (sub : Reader) (max : Nat) (rule : Rule)
    (toks : List Lexeme) : (primary style sub max rule toks).Shortens toks := by
  rcases primary_cases style sub max rule toks with h | ⟨hne, h⟩
  · rw [h]
    trivial
  · exact shortens_of_inside_tail h hne

end Reading

end Clausal
