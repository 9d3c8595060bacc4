import Clausal.Reading.Operators

/-
  Grammar — which runs of lexemes are which terms

  The grammar says what a term is without saying how it is found: a number, a
  name, brackets around a term, an operator with its arguments. A term is read
  under a bound and has a priority. An operator before its argument has its own
  priority, lowered to the bound; one between its arguments must fit the bound,
  and the argument before it must fit the operator. Everything else has
  priority 0.

  What is proved:
    1. `Derives.ne_nil` and `Derives.inside_clause` — a run is not empty, and no
       end of a clause or of the text stands in it.
    2. `Derives.priority_le` — the priority of a term is within its bound.
-/

namespace Clausal.Reading

/-! ## The grammar -/

/-- What a run of lexemes may be read as: a term under a bound, with its priority,
the arguments of a compound, or the elements of a list as one term. -/
inductive Part where
  | term (bound : Nat) (t : Term) (priority : Nat)
  | arguments (ts : List Term)
  | elements (t : Term)

/-- The operator between two terms that a token is, and the functor it makes. The
comma is a name, the bar stands for a semicolon. -/
def joining : Token → Option (String × Operator)
  | .name name => (Operator.between? name).map (name, ·)
  | .comma => (Operator.between? ",").map (",", ·)
  | .bar => some (";", barOperator)
  | _ => none

/-- The grammar derives the part from the run. -/
inductive Derives (quotes : DoubleQuotes) : Part → List Lexeme → Prop where
  | integer {l : Lexeme} {n bound : Nat} : l.token = .integer n →
    Derives quotes (.term bound (.integer n) 0) [l]
  | float {l : Lexeme} {x : Number.Binary64} {bound : Nat} : l.token = .float x →
    Derives quotes (.term bound (.float x) 0) [l]
  | negativeInteger {minus l : Lexeme} {n bound : Nat} : minus.token = .name "-" →
    l.token = .integer n → l.layoutBefore = false →
    Derives quotes (.term bound (.integer (-n)) 0) [minus, l]
  | negativeFloat {minus l : Lexeme} {x : Number.Binary64} {bound : Nat} :
    minus.token = .name "-" → l.token = .float x → l.layoutBefore = false →
    Derives quotes (.term bound (.float (-x)) 0) [minus, l]
  | var {l : Lexeme} {name : String} {bound : Nat} : l.token = .var name →
    Derives quotes (.term bound (.var name) 0) [l]
  | string {l : Lexeme} {text : String} {bound : Nat} : l.token = .string text →
    Derives quotes (.term bound (stringTerm quotes text) 0) [l]
  | backQuoted {l : Lexeme} {text : String} {bound : Nat} : l.token = .backQuoted text →
    Derives quotes (.term bound (codes text) 0) [l]
  | atom {l : Lexeme} {name : String} {bound : Nat} :
    l.token = .name name ∨ l.token = .quotedName name →
    Derives quotes (.term bound (.atom name) 0) [l]
  | compound {l opening closing : Lexeme} {functor : String} {ts : List Term} {bound : Nat}
    {run : List Lexeme} : l.token = .name functor ∨ l.token = .quotedName functor →
    opening.token = .openRound → opening.layoutBefore = false → closing.token = .closeRound →
    Derives quotes (.arguments ts) run →
    Derives quotes (.term bound (.application functor ts) 0) (l :: opening :: run ++ [closing])
  | bracketed {opening closing : Lexeme} {t : Term} {bound priority : Nat} {run : List Lexeme} :
    opening.token = .openRound → closing.token = .closeRound →
    Derives quotes (.term maxPriority t priority) run →
    Derives quotes (.term bound t 0) (opening :: run ++ [closing])
  | emptyList {opening closing : Lexeme} {bound : Nat} :
    opening.token = .openSquare → closing.token = .closeSquare →
    Derives quotes (.term bound .nil 0) [opening, closing]
  | list {opening closing : Lexeme} {t : Term} {bound : Nat} {run : List Lexeme} :
    opening.token = .openSquare → closing.token = .closeSquare →
    Derives quotes (.elements t) run →
    Derives quotes (.term bound t 0) (opening :: run ++ [closing])
  | emptyCurly {opening closing : Lexeme} {bound : Nat} :
    opening.token = .openCurly → closing.token = .closeCurly →
    Derives quotes (.term bound (.atom "\x7b\x7d") 0) [opening, closing]
  | curly {opening closing : Lexeme} {t : Term} {bound priority : Nat} {run : List Lexeme} :
    opening.token = .openCurly → closing.token = .closeCurly →
    Derives quotes (.term maxPriority t priority) run →
    Derives quotes (.term bound (.compound "\x7b\x7d" [t]) 0) (opening :: run ++ [closing])
  | before {l : Lexeme} {name : String} {op : Operator} {t : Term} {bound priority : Nat}
    {run : List Lexeme} : l.token = .name name → Operator.before? name = some op →
    Derives quotes (.term (min op.rightMax (min op.priority bound)) t priority) run →
    Derives quotes (.term bound (.compound name [t]) (min op.priority bound)) (l :: run)
  | between {l : Lexeme} {functor : String} {op : Operator} {left right : Term}
    {bound leftPriority rightPriority : Nat} {leftRun rightRun : List Lexeme} :
    joining l.token = some (functor, op) → op.priority ≤ bound →
    Derives quotes (.term bound left leftPriority) leftRun → leftPriority ≤ op.leftMax →
    Derives quotes (.term op.rightMax right rightPriority) rightRun →
    Derives quotes (.term bound (.compound functor [left, right]) op.priority)
      (leftRun ++ l :: rightRun)
  | lastArgument {t : Term} {priority : Nat} {run : List Lexeme} :
    Derives quotes (.term argumentPriority t priority) run → Derives quotes (.arguments [t]) run
  | argument {comma : Lexeme} {t : Term} {ts : List Term} {priority : Nat}
    {run others : List Lexeme} : comma.token = .comma →
    Derives quotes (.term argumentPriority t priority) run → Derives quotes (.arguments ts) others →
    Derives quotes (.arguments (t :: ts)) (run ++ comma :: others)
  | lastElement {t : Term} {priority : Nat} {run : List Lexeme} :
    Derives quotes (.term argumentPriority t priority) run →
    Derives quotes (.elements (.cons t .nil)) run
  | elementAndTail {bar : Lexeme} {t tail : Term} {priority tailPriority : Nat}
    {run tailRun : List Lexeme} : bar.token = .bar →
    Derives quotes (.term argumentPriority t priority) run →
    Derives quotes (.term argumentPriority tail tailPriority) tailRun →
    Derives quotes (.elements (.cons t tail)) (run ++ bar :: tailRun)
  | element {comma : Lexeme} {t ts : Term} {priority : Nat} {run others : List Lexeme} :
    comma.token = .comma → Derives quotes (.term argumentPriority t priority) run →
    Derives quotes (.elements ts) others →
    Derives quotes (.elements (.cons t ts)) (run ++ comma :: others)

/-! ## Runs -/

/-- The lexeme ends neither a clause nor the text. -/
def InClause (l : Lexeme) : Prop := l.token ≠ .stop ∧ l.token ≠ .endOfText

theorem inClause_of_joining {l : Lexeme} {functor : String} {op : Operator}
    (h : joining l.token = some (functor, op)) : InClause l := by
  constructor <;> intro htoken <;> rw [htoken] at h <;> cases h

theorem inClause_of_name {l : Lexeme} {name : String}
    (h : l.token = .name name ∨ l.token = .quotedName name) : InClause l := by
  rcases h with h | h <;> simp [InClause, h]

variable {quotes : DoubleQuotes}

theorem Derives.ne_nil {part : Part} {run : List Lexeme} (h : Derives quotes part run) :
    run ≠ [] := by
  induction h with
  | lastArgument _ ih => exact ih
  | lastElement _ ih => exact ih
  | _ => simp

/-- No end of a clause or of the text stands in a run. -/
theorem Derives.inside_clause {part : Part} {run : List Lexeme} (h : Derives quotes part run) :
    ∀ l ∈ run, InClause l := by
  induction h with
  | atom hname => exact List.forall_mem_singleton.mpr (inClause_of_name hname)
  | compound hname hopening _ hclosing _ ih =>
    have hfunctor := inClause_of_name hname
    simp_all [InClause, or_imp, forall_and]
  | before hname _ _ ih =>
    exact List.forall_mem_cons.mpr ⟨inClause_of_name (Or.inl hname), ih⟩
  | between hjoining _ _ _ _ ihleft ihright =>
    exact List.forall_mem_append.mpr
      ⟨ihleft, List.forall_mem_cons.mpr ⟨inClause_of_joining hjoining, ihright⟩⟩
  | _ => simp_all [InClause, or_imp, forall_and]

/-- The priority of a term is within its bound. -/
theorem Derives.priority_le {t : Term} {bound priority : Nat} {run : List Lexeme}
    (h : Derives quotes (.term bound t priority) run) : priority ≤ bound := by
  cases h with
  | before _ _ _ => exact Nat.min_le_right _ _
  | between _ hfits _ _ _ => exact hfits
  | _ => exact Nat.zero_le _

end Clausal.Reading
