import Clausal.Number.Notation

/-
  Terms — atoms, variables, numbers and compounds

  Two equalities live here. `=` is identity of terms, decidable; `==` compares
  floats as numbers, so the two zeros are equal and a NaN is not equal to
  itself.

  What is proved:
    1. `Term.ind` — to prove a property of all terms, prove it of a compound
       from its arguments.
    2. `Term.mentions_iff` — `mentions` finds exactly the occurring variables.
-/

namespace Clausal

open Number (Binary64)

/-- A term. A compound may have no arguments; that is not the atom. -/
inductive Term where
  | atom (name : String)
  | var (name : String)
  | integer (value : Int)
  | float (value : Binary64)
  | compound (functor : String) (args : List Term)
  deriving Inhabited

/-- A predicate indicator, `name/arity`. -/
structure Indicator where
  name : String
  arity : Nat
  deriving DecidableEq, Repr

namespace Indicator

/-- Written `name/arity`, the name unquoted. -/
def text (i : Indicator) : String := i.name ++ "/" ++ toString i.arity

/-- By name, then by arity. -/
def le (a b : Indicator) : Bool := if a.name = b.name then a.arity ≤ b.arity else a.name < b.name

end Indicator

namespace Term

/-- The name of the anonymous variable. -/
def anonymousName : String := "_"

/-- To prove a property of all terms, prove it of every leaf, and of a compound
from its arguments. -/
theorem ind {P : Term → Prop} (atom : ∀ n, P (.atom n)) (var : ∀ n, P (.var n))
    (integer : ∀ i, P (.integer i)) (float : ∀ x, P (.float x))
    (compound : ∀ f args, (∀ t ∈ args, P t) → P (.compound f args)) : ∀ t, P t := by
  intro t
  refine @Term.rec P (fun ts => ∀ t ∈ ts, P t)
    atom var integer float compound ?_ ?_ t
  · intro t h
    cases h
  · intro t ts ht hts u hu
    rcases List.mem_cons.mp hu with rfl | hu
    · exact ht
    · exact hts u hu

/-! ## Equality -/

mutual
/-- Equality that compares floats as numbers. -/
def equal : Term → Term → Bool
  | .atom a, .atom b => a == b
  | .var a, .var b => a == b
  | .integer a, .integer b => a == b
  | .float a, .float b => a == b
  | .compound f xs, .compound g ys => f == g && equalAll xs ys
  | _, _ => false
/-- Lists of one length, equal member by member. -/
def equalAll : List Term → List Term → Bool
  | [], [] => true
  | x :: xs, y :: ys => equal x y && equalAll xs ys
  | _, _ => false
end

instance : BEq Term := ⟨equal⟩

mutual
/-- Whether two terms are one term. -/
def decideEq : (x y : Term) → Decidable (x = y)
  | .atom a, .atom b => decidable_of_iff (a = b) (by simp)
  | .var a, .var b => decidable_of_iff (a = b) (by simp)
  | .integer a, .integer b => decidable_of_iff (a = b) (by simp)
  | .float a, .float b => decidable_of_iff (a = b) (by simp)
  | .compound f xs, .compound g ys =>
    have := decideEqAll xs ys
    decidable_of_iff (f = g ∧ xs = ys) (by simp)
  | .atom _, .var _ | .atom _, .integer _ | .atom _, .float _ | .atom _, .compound _ _
  | .var _, .atom _ | .var _, .integer _ | .var _, .float _ | .var _, .compound _ _
  | .integer _, .atom _ | .integer _, .var _ | .integer _, .float _ | .integer _, .compound _ _
  | .float _, .atom _ | .float _, .var _ | .float _, .integer _ | .float _, .compound _ _
  | .compound _ _, .atom _ | .compound _ _, .var _ | .compound _ _, .integer _
  | .compound _ _, .float _ => isFalse nofun
/-- Whether two lists of terms are one list. -/
def decideEqAll : (xs ys : List Term) → Decidable (xs = ys)
  | [], [] => isTrue rfl
  | x :: xs, y :: ys =>
    have := decideEq x y
    have := decideEqAll xs ys
    decidable_of_iff (x = y ∧ xs = ys) (by simp)
  | [], _ :: _ | _ :: _, [] => isFalse nofun
end

instance : DecidableEq Term := decideEq

/-! ## Kinds and parts -/

/-- The compound with these arguments, the atom when there are none. -/
def application (functor : String) : List Term → Term
  | [] => .atom functor
  | arg :: args => .compound functor (arg :: args)

def isVariable : Term → Bool
  | .var _ => true
  | _ => false

theorem isVariable_iff {t : Term} : t.isVariable = true ↔ ∃ v, t = .var v := by
  cases t <;> simp [isVariable]

/-- Whether this is the variable `_`. -/
def isAnonymous : Term → Bool
  | .var name => name == anonymousName
  | _ => false

def isAtom : Term → Bool
  | .atom _ => true
  | _ => false

def isNumber : Term → Bool
  | .integer _ | .float _ => true
  | _ => false

def isCompound : Term → Bool
  | .compound _ _ => true
  | _ => false

/-- Atoms and compounds: what can be called as a goal. -/
def isCallable : Term → Bool
  | .atom _ | .compound _ _ => true
  | _ => false

/-- Whether this is the atom or compound `name/arity`. -/
def isNamed (name : String) (arity : Nat) : Term → Bool
  | .atom n => arity == 0 && n == name
  | .compound f args => args.length == arity && f == name
  | _ => false

/-- The name of an atom or the functor of a compound. -/
def name? : Term → Option String
  | .atom name => some name
  | .compound f _ => some f
  | _ => none

/-- The arguments of a compound; nothing else has any. -/
def args : Term → List Term
  | .compound _ args => args
  | _ => []

/-- How many arguments the term has. -/
def arity (t : Term) : Nat := t.args.length

/-- The predicate a term names. A number is named by its text and a variable by
its own name, both with arity 0. -/
def indicator : Term → Indicator
  | .atom name | .var name => ⟨name, 0⟩
  | .integer i => ⟨String.ofList (Number.intChars i), 0⟩
  | .float x => ⟨String.ofList (x.text .bare), 0⟩
  | .compound f args => ⟨f, args.length⟩

/-! ## Variables -/

mutual
/-- The variables of a term from left to right, each as often as it occurs. -/
def vars : Term → List String
  | .var name => [name]
  | .compound _ args => varsAll args
  | _ => []
/-- The variables of a list of terms. -/
def varsAll : List Term → List String
  | [] => []
  | t :: ts => vars t ++ varsAll ts
end

mutual
/-- Whether the variable `v` occurs in the term. -/
def mentions (v : String) : Term → Bool
  | .var name => name == v
  | .compound _ args => mentionsAny v args
  | _ => false
/-- Whether the variable `v` occurs in one of the terms. -/
def mentionsAny (v : String) : List Term → Bool
  | [] => false
  | t :: ts => mentions v t || mentionsAny v ts
end

/-- The variables in order of first occurrence, the anonymous one left out. -/
def freeVars (t : Term) : List String :=
  (t.vars.filter (· != anonymousName)).foldl
    (fun seen v => if seen.contains v then seen else seen ++ [v]) []

mutual
/-- Whether the term has no variable. -/
def isGround : Term → Bool
  | .var _ => false
  | .compound _ args => areGround args
  | _ => true
/-- Whether none of the terms has a variable. -/
def areGround : List Term → Bool
  | [] => true
  | t :: ts => isGround t && areGround ts
end

@[simp] theorem varsAll_eq (ts : List Term) : varsAll ts = ts.flatMap vars := by
  induction ts with
  | nil => rfl
  | cons t ts ih => simp [varsAll, ih]

theorem mentionsAny_eq (v : String) (ts : List Term) :
    mentionsAny v ts = ts.any (mentions v) := by
  induction ts with
  | nil => rfl
  | cons t ts ih => simp [mentionsAny, ih]

theorem mentions_iff {v : String} {t : Term} : t.mentions v = true ↔ v ∈ t.vars := by
  induction t using ind with
  | atom n => simp [mentions, vars]
  | var n =>
    simp only [mentions, vars, List.mem_singleton, beq_iff_eq]
    exact eq_comm
  | integer i => simp [mentions, vars]
  | float x => simp [mentions, vars]
  | compound f args ih =>
    simp only [mentions, vars, mentionsAny_eq, varsAll_eq, List.any_eq_true,
      List.mem_flatMap]
    exact ⟨fun ⟨t, ht, h⟩ => ⟨t, ht, (ih t ht).mp h⟩, fun ⟨t, ht, h⟩ => ⟨t, ht, (ih t ht).mpr h⟩⟩

end Term

end Clausal
