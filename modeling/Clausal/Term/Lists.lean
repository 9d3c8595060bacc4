import Clausal.Term.Basic

/-
  Lists and conjunctions — two ways of chaining terms

  A list is a chain of cells `'.'(Head, Tail)` that ends in `[]` when it is
  proper. A conjunction is a tree of `','(Left, Right)`.

  What is proved:
    1. `conjuncts_conj` — the conjuncts of `','(l, r)` are those of `l` and
       then those of `r`; `conjuncts_conjunction` — the conjuncts of a
       conjunction are those of its members.
    2. `conjuncts_ne_nil` — every term has a conjunct.
    3. `unconj?_of_mem_conjuncts` — no conjunct is a conjunction.
-/

namespace Clausal.Term

/-- The functor of a list cell. -/
def consName : String := "."

/-- The empty list. -/
def nil : Term := .atom "[]"

/-- A list cell. -/
def cons (head tail : Term) : Term := .compound consName [head, tail]

/-- The list of `heads` that ends in `tail`. -/
def listWithTail (heads : List Term) (tail : Term) : Term := heads.foldr cons tail

/-- The proper list of these terms. -/
def list (ts : List Term) : Term := listWithTail ts nil

/-- Whether this is the empty list. -/
def isNil : Term → Bool
  | .atom name => name == "[]"
  | _ => false

/-- The head and tail of a list cell. -/
def uncons? : Term → Option (Term × Term)
  | .compound f [head, tail] => if f = consName then some (head, tail) else none
  | _ => none

theorem sizeOf_uncons {t head tail : Term} (h : t.uncons? = some (head, tail)) :
    sizeOf head < sizeOf t ∧ sizeOf tail < sizeOf t := by
  unfold uncons? at h
  split at h
  · split at h
    · simp only [Option.some.injEq, Prod.mk.injEq] at h
      obtain ⟨rfl, rfl⟩ := h
      simp only [compound.sizeOf_spec, List.cons.sizeOf_spec, List.nil.sizeOf_spec]
      omega
    · simp at h
  · simp at h

/-- The elements of a chain of list cells and the term it ends in. A term that
is no cell has no elements and is its own tail. -/
def elements (t : Term) : List Term × Term :=
  match _h : t.uncons? with
  | some (head, tail) =>
    let (heads, last) := elements tail
    (head :: heads, last)
  | none => ([], t)
termination_by sizeOf t
decreasing_by exact (sizeOf_uncons _h).2

/-! ## Conjunctions -/

/-- The conjunction of two terms. -/
def conj (left right : Term) : Term := .compound "," [left, right]

/-- The conjunction of the terms, nested to the right; `true` when there are
none. -/
def conjunction : List Term → Term
  | [] => .atom "true"
  | [t] => t
  | t :: u :: ts => conj t (conjunction (u :: ts))

/-- The two sides of a conjunction. -/
def unconj? : Term → Option (Term × Term)
  | .compound f [left, right] => if f = "," then some (left, right) else none
  | _ => none

theorem unconj_eq {t left right : Term} (h : t.unconj? = some (left, right)) :
    t = conj left right := by
  unfold unconj? at h
  split at h
  · split at h
    · rename_i hf
      simp only [Option.some.injEq, Prod.mk.injEq] at h
      obtain ⟨rfl, rfl⟩ := h
      rw [hf]; rfl
    · simp at h
  · simp at h

theorem sizeOf_unconj {t left right : Term} (h : t.unconj? = some (left, right)) :
    sizeOf left < sizeOf t ∧ sizeOf right < sizeOf t := by
  rw [unconj_eq h]
  simp only [conj, compound.sizeOf_spec, List.cons.sizeOf_spec, List.nil.sizeOf_spec]
  omega

/-- The leaves of a tree of conjunctions, from left to right. -/
def conjuncts (t : Term) : List Term :=
  match _h : t.unconj? with
  | some (left, right) => conjuncts left ++ conjuncts right
  | none => [t]
termination_by sizeOf t
decreasing_by
  · exact (sizeOf_unconj _h).1
  · exact (sizeOf_unconj _h).2

@[simp] theorem conjuncts_conj (left right : Term) :
    (conj left right).conjuncts = left.conjuncts ++ right.conjuncts := by
  rw [conjuncts]
  split
  · rename_i l r h
    simp only [unconj?, conj, if_true, Option.some.injEq, Prod.mk.injEq] at h
    obtain ⟨rfl, rfl⟩ := h
    rfl
  · rename_i h
    simp [unconj?, conj] at h

theorem conjuncts_of_unconj? {t : Term} (h : t.unconj? = none) : t.conjuncts = [t] := by
  rw [conjuncts]
  split
  · rename_i hsome
    rw [h] at hsome
    cases hsome
  · rfl

theorem conjuncts_conjunction {ts : List Term} (h : ts ≠ []) :
    (conjunction ts).conjuncts = ts.flatMap conjuncts := by
  fun_induction conjunction ts with
  | case1 => exact absurd rfl h
  | case2 t => simp
  | case3 t u ts ih =>
    rw [conjuncts_conj, ih (List.cons_ne_nil u ts), ← List.flatMap_cons]

theorem conjuncts_ne_nil (t : Term) : t.conjuncts ≠ [] := by
  rw [conjuncts]
  split
  · rename_i left right h
    have := sizeOf_unconj h
    simp [conjuncts_ne_nil left]
  · simp
termination_by sizeOf t

theorem unconj?_of_mem_conjuncts {t c : Term} (h : c ∈ t.conjuncts) : c.unconj? = none := by
  fun_induction conjuncts t with
  | case1 t left right _ ihl ihr =>
    rcases List.mem_append.mp h with h | h
    · exact ihl h
    · exact ihr h
  | case2 t hleaf =>
    rw [List.mem_singleton.mp h]
    exact hleaf

theorem conjuncts_of_mem {t c : Term} (h : c ∈ t.conjuncts) : c.conjuncts = [c] :=
  conjuncts_of_unconj? (unconj?_of_mem_conjuncts h)

end Clausal.Term
