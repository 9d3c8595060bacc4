/-
  Operators — which names may be written before, between or after their
  arguments, and how tightly they bind

  A priority runs from 1 to 1200, a smaller one binding tighter. A term
  without an operator at its top has priority 0. In the name of a fixity `f`
  stands for the operator, `y` for an argument of at most its priority and `x`
  for one of strictly less.

  What is proved:
    1. `leftMax_le` and `rightMax_le` — an argument never has a higher priority
       than its operator.
-/

namespace Clausal

/-- The highest priority, that of a whole clause. -/
def maxPriority : Nat := 1200

/-- The priority under which arguments and list elements stand, one below that
of the comma. -/
def argumentPriority : Nat := 999

/-- Where an operator stands and which arguments it takes. -/
inductive Fixity where
  | fx
  | fy
  | xf
  | xfx
  | xfy
  | yfx
  | notOperator
  deriving DecidableEq, Repr

namespace Fixity

/-- The operator stands before its argument. -/
def isBefore : Fixity → Bool
  | .fx | .fy => true
  | _ => false

/-- The operator stands between its arguments. -/
def isBetween : Fixity → Bool
  | .xfx | .xfy | .yfx => true
  | _ => false

/-- The operator stands after its argument. -/
def isAfter : Fixity → Bool
  | .xf => true
  | _ => false

/-- The number of arguments. -/
def arity : Fixity → Nat
  | .fx | .fy | .xf => 1
  | .xfx | .xfy | .yfx => 2
  | .notOperator => 0

def text : Fixity → String
  | .fx => "fx"
  | .fy => "fy"
  | .xf => "xf"
  | .xfx => "xfx"
  | .xfy => "xfy"
  | .yfx => "yfx"
  | .notOperator => "not an operator"

end Fixity

/-- What an operator's name means in one position. -/
structure Operator where
  priority : Nat
  fixity : Fixity
  deriving DecidableEq, Repr

namespace Operator

/-- The highest priority of a left argument. -/
def leftMax (op : Operator) : Nat :=
  match op.fixity with
  | .yfx => op.priority
  | _ => op.priority - 1

/-- The highest priority of a right argument. -/
def rightMax (op : Operator) : Nat :=
  match op.fixity with
  | .xfy | .fy => op.priority
  | _ => op.priority - 1

theorem leftMax_le (op : Operator) : op.leftMax ≤ op.priority := by
  unfold leftMax; split <;> omega

theorem rightMax_le (op : Operator) : op.rightMax ≤ op.priority := by
  unfold rightMax; split <;> omega

/-! ## The table -/

/-- All operators, grouped by priority and fixity. -/
def table : List (Operator × List String) := [
  (⟨1200, .xfx⟩, [":-", "-->"]),
  (⟨1200, .fx⟩, [":-", "?-"]),
  (⟨1150, .fx⟩, ["dynamic", "discontiguous", "initialization", "meta_predicate",
    "module_transparent", "multifile", "public", "thread_local", "table"]),
  (⟨1100, .xfy⟩, [";"]),
  (⟨1050, .xfy⟩, ["->", "*->"]),
  (⟨1000, .xfy⟩, [","]),
  (⟨990, .xfx⟩, [":="]),
  (⟨900, .fy⟩, ["\\+"]),
  (⟨700, .xfx⟩, ["=", "\\=", "==", "\\==", "@<", "@>", "@=<", "@>=", "=..", "is", "=:=", "=\\=",
    "<", ">", "=<", ">=", ">:<", ":<", "as"]),
  (⟨600, .xfy⟩, [":"]),
  (⟨500, .yfx⟩, ["+", "-", "/\\", "\\/", "xor"]),
  (⟨400, .yfx⟩, ["*", "/", "//", "rem", "mod", "div", "<<", ">>", "divmod", "rdiv"]),
  (⟨200, .xfx⟩, ["**"]),
  (⟨200, .xfy⟩, ["^"]),
  (⟨200, .fy⟩, ["-", "+", "\\"]),
  (⟨1, .fx⟩, ["$"])]

/-- The operator `name` in a position. -/
def find? (position : Fixity → Bool) (name : String) : Option Operator :=
  (table.find? fun (op, names) => position op.fixity && names.contains name).map (·.1)

/-- `name` as an operator before its argument. -/
def before? (name : String) : Option Operator := find? Fixity.isBefore name

/-- `name` as an operator between its arguments. -/
def between? (name : String) : Option Operator := find? Fixity.isBetween name

/-- `name` as an operator after its argument. -/
def after? (name : String) : Option Operator := find? Fixity.isAfter name

/-- Whether `name` is an operator in some position. -/
def isName (name : String) : Bool := table.any fun (_, names) => names.contains name

/-- All operator names, each once. -/
def names : List String := (table.flatMap (·.2)).eraseDups

/-- How many names are operators. -/
def count : Nat := names.length

/-- The operator that a name is with so many arguments: two stand on both sides
of it, one stands behind it or, failing that, before it. -/
def ofArity? (name : String) : Nat → Option Operator
  | 1 => (before? name).or (after? name)
  | 2 => between? name
  | _ => none

end Operator

end Clausal
