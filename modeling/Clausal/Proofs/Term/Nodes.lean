import Clausal.Term.Basic

/-
  Nodes — the size of the tree that a term is

  What is proved:
    1. `nodes_lt_of_mem` — an argument has fewer nodes than its compound.
-/

namespace Clausal.Term

mutual
/-- The number of nodes of the tree that a term is. -/
def nodes : Term → Nat
  | .compound _ args => nodesAll args + 1
  | _ => 1
/-- The number of nodes of some terms together. -/
def nodesAll : List Term → Nat
  | [] => 0
  | t :: ts => nodes t + nodesAll ts
end

theorem nodes_pos (t : Term) : 0 < t.nodes := by
  cases t <;> simp [nodes]

theorem nodes_le_nodesAll {t : Term} {ts : List Term} (h : t ∈ ts) : t.nodes ≤ nodesAll ts := by
  induction ts with
  | nil => cases h
  | cons u us ih =>
    rw [nodesAll]
    rcases List.mem_cons.mp h with rfl | h
    · omega
    · have := ih h
      omega

theorem nodes_lt_of_mem {f : String} {args : List Term} {t : Term} (h : t ∈ args) :
    t.nodes < (compound f args).nodes := by
  rw [nodes]
  exact Nat.lt_succ_of_le (nodes_le_nodesAll h)

end Clausal.Term
