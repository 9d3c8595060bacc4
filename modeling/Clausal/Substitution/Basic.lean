import Clausal.Term.Text

/-
  Substitutions — variables and the terms they are bound to

  A substitution is kept in the order in which its variables were bound; the
  order shows in its text and does not count for equality. Bindings are
  followed: a bound term may mention variables that are bound in turn.

  What is proved:
    1. `erase_length_lt` — setting a binding aside leaves fewer, so following
       bindings ends, also where they run in a circle.
    2. `get?_erase` and `erase_comm` — looking up and setting aside.
    3. `get?_bind` — a new binding is found when its variable was free.
-/

namespace Clausal

/-- Bindings in the order they were made. -/
structure Substitution where
  bindings : List (String × Term)
  deriving DecidableEq, Inhabited

/-- Why a binding cannot be added. -/
inductive SubstitutionError where
  | alreadyBound (var : String)
  deriving DecidableEq, Repr

def SubstitutionError.message : SubstitutionError → String
  | .alreadyBound v => "variable " ++ v ++ " is already bound"

namespace Substitution

/-- No bindings. -/
def empty : Substitution := ⟨[]⟩

instance : EmptyCollection Substitution := ⟨empty⟩

/-- The term that a variable is bound to. -/
def get? (s : Substitution) (v : String) : Option Term := s.bindings.lookup v

/-- Whether a variable is bound. -/
def binds (s : Substitution) (v : String) : Bool := (s.get? v).isSome

/-- The bound variables in order. -/
def domain (s : Substitution) : List String := s.bindings.map (·.1)

def size (s : Substitution) : Nat := s.bindings.length

def isEmpty (s : Substitution) : Bool := s.bindings.isEmpty

/-- Binds a variable, taken to be free. -/
def bind (s : Substitution) (v : String) (t : Term) : Substitution := ⟨s.bindings ++ [(v, t)]⟩

/-- Binds a variable unless it is bound already. -/
def add (s : Substitution) (v : String) (t : Term) : Except SubstitutionError Substitution :=
  if s.binds v then .error (.alreadyBound v) else .ok (s.bind v t)

/-- The substitution without the binding of `v`. -/
def erase (s : Substitution) (v : String) : Substitution :=
  ⟨s.bindings.filter fun b => b.1 != v⟩

/-- The bindings of the variables in `keep`. -/
def restrict (s : Substitution) (keep : List String) : Substitution :=
  ⟨s.bindings.filter fun b => keep.contains b.1⟩

/-- Frees a variable: what it was bound to, and the other bindings. -/
def remove (s : Substitution) (v : String) : Option Term × Substitution := (s.get? v, s.erase v)

/-- Keeps the bindings of the variables in `keep`, and says whether there were
others. -/
def retain (s : Substitution) (keep : List String) : Bool × Substitution :=
  (!s.domain.all keep.contains, s.restrict keep)

/-! ## Looking up -/

theorem lookup_filter_ne {v w : String} (h : w ≠ v) (bs : List (String × Term)) :
    (bs.filter fun b => b.1 != v).lookup w = bs.lookup w := by
  induction bs with
  | nil => rfl
  | cons b rest ih =>
    obtain ⟨x, t⟩ := b
    by_cases hx : x = v
    · subst hx
      have : (w == x) = false := by simpa using h
      simp [List.lookup_cons, this, ih]
    · simp only [bne_iff_ne, ne_eq, hx, not_false_eq_true, List.filter_cons_of_pos]
      simp only [List.lookup_cons, ih]

theorem lookup_filter_self (v : String) (bs : List (String × Term)) :
    (bs.filter fun b => b.1 != v).lookup v = none := by
  induction bs with
  | nil => rfl
  | cons b rest ih =>
    obtain ⟨x, t⟩ := b
    by_cases hx : x = v
    · subst hx
      simpa using ih
    · have : (v == x) = false := by simpa using fun h : v = x => hx h.symm
      simp [hx, List.lookup_cons, this, ih]

theorem get?_erase (s : Substitution) (v w : String) :
    (s.erase v).get? w = if w = v then none else s.get? w := by
  unfold get? erase
  split
  · rename_i h
    subst h
    exact lookup_filter_self w s.bindings
  · rename_i h
    exact lookup_filter_ne h s.bindings

theorem erase_comm (s : Substitution) (v w : String) : (s.erase v).erase w = (s.erase w).erase v := by
  simp only [erase, List.filter_filter, mk.injEq]
  congr 1
  funext b
  exact Bool.and_comm _ _

theorem lookup_mem {v : String} {t : Term} {bs : List (String × Term)}
    (h : bs.lookup v = some t) : (v, t) ∈ bs := by
  induction bs with
  | nil => simp at h
  | cons b rest ih =>
    obtain ⟨x, u⟩ := b
    by_cases hx : v = x
    · subst hx
      simp only [List.lookup_cons_self, Option.some.injEq] at h
      simp [h]
    · have : (v == x) = false := by simpa using hx
      simp only [List.lookup_cons, this] at h
      exact List.mem_cons_of_mem _ (ih h)

theorem erase_length_lt {s : Substitution} {v : String} {t : Term} (h : s.get? v = some t) :
    (s.erase v).bindings.length < s.bindings.length := by
  have hm := lookup_mem h
  refine List.length_filter_lt_length_iff_exists.mpr ⟨(v, t), hm, ?_⟩
  simp

theorem lookup_append (v : String) (bs cs : List (String × Term)) :
    (bs ++ cs).lookup v = (bs.lookup v).or (cs.lookup v) := by
  induction bs with
  | nil => rfl
  | cons b rest ih =>
    obtain ⟨x, t⟩ := b
    simp only [List.cons_append, List.lookup_cons]
    split
    · rfl
    · exact ih

theorem get?_bind {s : Substitution} {v w : String} {t : Term} (h : s.get? v = none) :
    (s.bind v t).get? w = if w = v then some t else s.get? w := by
  simp only [get?, bind, lookup_append] at *
  split
  · rename_i hw
    subst hw
    simp [h]
  · rename_i hw
    have : (w == v) = false := by simpa using hw
    simp [List.lookup_cons, this]

/-! ## Following bindings -/

/-- The term with every bound variable replaced, following bindings to their
end. A variable met again while it is being replaced stays. -/
def apply (s : Substitution) (t : Term) : Term :=
  match t with
  | .var v =>
    match _h : s.get? v with
    | some bound => (s.erase v).apply bound
    | none => .var v
  | .compound f args => .compound f (args.map s.apply)
  | t => t
termination_by (s.bindings.length, sizeOf t)
decreasing_by
  · exact Prod.Lex.left _ _ (erase_length_lt _h)
  · rename_i arg hmem
    have := List.sizeOf_lt_of_mem hmem
    exact Prod.Lex.right _ (by simp only [Term.compound.sizeOf_spec]; omega)

/-- The same bindings with every bound term followed to its end. -/
def resolved (s : Substitution) : Substitution := ⟨s.bindings.map fun (v, t) => (v, s.apply t)⟩

/-! ## Equality and text -/

/-- The same variables bound to equal terms, in whatever order. -/
instance : BEq Substitution where
  beq s t := s.size == t.size && s.bindings.all fun (v, u) => t.get? v == some u

/-- Written `[X/a, Y/f(Z)]`. -/
def text (s : Substitution) : String :=
  "[" ++ ", ".intercalate (s.bindings.map fun (v, t) => v ++ "/" ++ t.text) ++ "]"

end Substitution

end Clausal
