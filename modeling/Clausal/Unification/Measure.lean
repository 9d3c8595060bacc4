import Clausal.Substitution.Acyclic

/-
  Measures — why unification ends

  The weight of a term counts its nodes with all bindings followed and one more
  for each binding on the way. It falls when a variable gives way to the term
  it is bound to and when a compound gives way to its arguments. Binding a
  variable may raise weights, but leaves one variable fewer free.

  What is proved:
    1. `Ranked.weight_bound` — following a binding takes one off the weight.
    2. `weight_pos` — no term weighs nothing.
    3. `free_bind_lt` — a new binding leaves one variable fewer free.
-/

namespace Clausal.Substitution

/-- The sum of some numbers. -/
def total : List Nat → Nat
  | [] => 0
  | n :: ns => n + total ns

@[simp] theorem total_nil : total [] = 0 := rfl

@[simp] theorem total_cons (n : Nat) (ns : List Nat) : total (n :: ns) = n + total ns := rfl

@[simp] theorem total_append (ms ns : List Nat) : total (ms ++ ns) = total ms + total ns := by
  induction ms with
  | nil => simp
  | cons m ms ih => rw [List.cons_append, total_cons, total_cons, ih, Nat.add_assoc]

/-- The nodes of a term with its bindings followed, and the bindings
themselves. -/
def weight (s : Substitution) (t : Term) : Nat :=
  match t with
  | .var v =>
    match _h : s.get? v with
    | some bound => (s.erase v).weight bound + 1
    | none => 1
  | .compound _ args => total (args.map s.weight) + 1
  | _ => 1
termination_by (s.bindings.length, sizeOf t)
decreasing_by
  · exact Prod.Lex.left _ _ (erase_length_lt _h)
  · rename_i arg hmem
    have := List.sizeOf_lt_of_mem hmem
    exact Prod.Lex.right _ (by simp only [Term.compound.sizeOf_spec]; omega)

theorem weight_pos (s : Substitution) (t : Term) : 0 < s.weight t := by
  rw [weight.eq_def]
  split
  · split <;> omega
  · omega
  · omega

theorem weight_var_bound {s : Substitution} {v : String} {t : Term} (h : s.get? v = some t) :
    s.weight (.var v) = (s.erase v).weight t + 1 := by
  rw [weight]
  split <;> simp_all

theorem weight_compound (s : Substitution) (f : String) (args : List Term) :
    s.weight (.compound f args) = total (args.map s.weight) + 1 := by
  rw [weight]

theorem weight_erase {rank : String → Nat} {s : Substitution} {t : Term} {u : String}
    (hs : Ranked rank s) (ht : ∀ w ∈ t.vars, rank w < rank u) :
    (s.erase u).weight t = s.weight t := by
  fun_induction weight s t with
  | case1 s v bound hv ih =>
    have hlt := ht v (by simp [Term.vars])
    have hne : v ≠ u := fun h => by rw [h] at hlt; exact Nat.lt_irrefl _ hlt
    have hv' : (s.erase u).get? v = some bound := by rw [get?_erase, if_neg hne, hv]
    rw [weight_var_bound hv', erase_comm]
    rw [ih (hs.erase v) fun w hw => Nat.lt_trans (hs v bound hv w hw) hlt]
  | case2 s v hv =>
    have hv' : (s.erase u).get? v = none := by
      rw [get?_erase]
      split <;> simp [hv]
    rw [weight]
    split <;> simp_all
  | case3 s f args ih =>
    rw [weight_compound]
    congr 2
    refine List.map_congr_left fun arg harg => ih arg harg hs fun w hw => ht w ?_
    simp only [Term.vars, Term.varsAll_eq, List.mem_flatMap]
    exact ⟨arg, harg, hw⟩
  | case4 s t hvar hcompound =>
    cases t with
    | var v => exact absurd rfl (hvar v)
    | compound f args => exact absurd rfl (hcompound f args)
    | atom n => rw [weight] <;> simp
    | integer i => rw [weight] <;> simp
    | float x => rw [weight] <;> simp

theorem Ranked.weight_bound {rank : String → Nat} {s : Substitution} {v : String} {t : Term}
    (hs : Ranked rank s) (h : s.get? v = some t) : s.weight (.var v) = s.weight t + 1 := by
  rw [weight_var_bound h, weight_erase hs (hs v t h)]

/-- How many of these variables are free. -/
def free (s : Substitution) (scope : List String) : Nat := scope.countP fun v => !s.binds v

theorem free_bind_lt {s : Substitution} {v : String} {t : Term} {scope : List String}
    (hv : s.get? v = none) (hin : v ∈ scope) : (s.bind v t).free scope < s.free scope := by
  have hsub : ∀ w : String, (!(s.bind v t).binds w) = true → (!s.binds w) = true := by
    intro w hw
    simp only [binds, get?_bind hv] at hw ⊢
    split at hw
    · simp at hw
    · exact hw
  induction scope with
  | nil => simp at hin
  | cons w ws ih =>
    have hmono : (s.bind v t).free ws ≤ s.free ws :=
      List.countP_mono_left fun x _ hx => hsub x hx
    simp only [free, List.countP_cons] at ih hmono ⊢
    rcases List.mem_cons.mp hin with rfl | hin
    · have h₁ : (s.bind v t).binds v = true := by simp [binds, get?_bind hv]
      have h₂ : s.binds v = false := by simp [binds, hv]
      simp only [h₁, h₂, Bool.not_true, Bool.not_false, Bool.false_eq_true, if_false, if_true]
      omega
    · have hrest := ih hin
      by_cases hw : (!(s.bind v t).binds w) = true
      · rw [if_pos hw, if_pos (hsub w hw)]
        omega
      · rw [if_neg hw]
        split <;> omega

end Clausal.Substitution
