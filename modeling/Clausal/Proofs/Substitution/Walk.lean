import Clausal.Proofs.Substitution.Resolved
import Clausal.Proofs.Term.Equality

/-
  Walks — following a variable to the term it stands for

  A walk follows the bindings of a variable as long as they lead to another one.
  It ends at a free variable or at a term that is no variable, whose own variables
  are left alone. This is as far as unification follows bindings before it looks
  at a term.

  What is proved:
    1. `Ranked.walk_bound` — a bound variable walks where its term does.
    2. `free_of_walk` — a walk that ends at a variable ends at a free one.
    3. `leads_walk_iff` — the variables at the end of a walk lead to the same free
       variables as those at its beginning.
    4. `walk_bind` — a new binding prolongs the walks that ended at its variable.
-/

namespace Clausal.Substitution

/-- Where the bindings of a variable end: at a free variable or at a term that is
no variable. -/
def walk (s : Substitution) (t : Term) : Term :=
  match t with
  | .var v =>
    match _h : s.get? v with
    | some bound => (s.erase v).walk bound
    | none => .var v
  | t => t
termination_by s.bindings.length
decreasing_by exact erase_length_lt _h

variable {s : Substitution} {v : String} {t u : Term}

/-! ## Following one binding -/

theorem walk_of_not_variable (h : t.isVariable = false) : s.walk t = t := by
  cases t with
  | var v => cases h
  | _ => simp [walk]

theorem walk_free (h : s.get? v = none) : s.walk (.var v) = .var v := by
  rw [walk]
  split <;> simp_all

theorem walk_var_bound (h : s.get? v = some t) : s.walk (.var v) = (s.erase v).walk t := by
  rw [walk]
  split <;> simp_all

theorem walk_erase {rank : String → Nat} (hs : Ranked rank s) (ht : ∀ w ∈ t.vars, rank w < rank v) :
    (s.erase v).walk t = s.walk t := by
  fun_induction walk s t with
  | case1 s w bound hw ih =>
    have hlt := ht w (by simp [Term.vars])
    have hne : w ≠ v := fun h => by rw [h] at hlt; exact Nat.lt_irrefl _ hlt
    have hw' : (s.erase v).get? w = some bound := by rw [get?_erase, if_neg hne, hw]
    rw [walk_var_bound hw', erase_comm]
    exact ih (hs.erase w) fun u hu => Nat.lt_trans (hs w bound hw u hu) hlt
  | case2 s w hw =>
    refine walk_free ?_
    rw [get?_erase]
    split <;> simp [hw]
  | case3 s t hvar =>
    refine walk_of_not_variable ?_
    cases t with
    | var w => exact absurd rfl (hvar w)
    | _ => rfl

/-- A bound variable walks where its term does. -/
theorem Ranked.walk_bound {rank : String → Nat} (hs : Ranked rank s) (h : s.get? v = some t) :
    s.walk (.var v) = s.walk t := by
  rw [walk_var_bound h]
  exact walk_erase hs (hs v t h)

/-! ## Where a walk ends -/

/-- To prove a property of all terms, prove it of every free variable and of every
term that is no variable, and of a bound variable from its term. -/
theorem Ranked.indWalk {rank : String → Nat} (hs : Ranked rank s) {P : Term → Prop}
    (other : ∀ t, t.isVariable = false → P t) (free : ∀ v, s.get? v = none → P (.var v))
    (bound : ∀ v t, s.get? v = some t → P t → P (.var v)) : ∀ t, P t :=
  hs.ind (fun _ => other _ rfl) (fun _ => other _ rfl) (fun _ => other _ rfl) free bound
    (fun _ _ _ => other _ rfl)

/-- A walk that ends at a variable ends at a free one. -/
theorem free_of_walk (hs : s.Acyclic) (h : s.walk t = .var v) : s.get? v = none := by
  obtain ⟨rank, hr⟩ := hs
  induction t using hr.indWalk with
  | other t ht =>
    rw [walk_of_not_variable ht] at h
    subst h
    cases ht
  | free w hw =>
    rw [walk_free hw] at h
    rwa [← Term.var.inj h]
  | bound w t hw ih =>
    rw [hr.walk_bound hw] at h
    exact ih h

/-- There is nothing to follow from where a walk ends. -/
theorem walk_walk (hs : s.Acyclic) (t : Term) : s.walk (s.walk t) = s.walk t := by
  cases h : s.walk t with
  | var v => exact walk_free (free_of_walk hs h)
  | _ => exact walk_of_not_variable rfl

theorem apply_walk (hs : s.Acyclic) (t : Term) : s.apply (s.walk t) = s.apply t := by
  obtain ⟨rank, hr⟩ := hs
  induction t using hr.indWalk with
  | other t ht => rw [walk_of_not_variable ht]
  | free v hv => rw [walk_free hv]
  | bound v t hv ih => rw [hr.walk_bound hv, hr.apply_bound hv, ih]

/-- The variables where a walk ends lead to the same free variables as those where
it begins. -/
theorem leads_walk_iff (hs : s.Acyclic) (hv : s.get? v = none) :
    (∃ w ∈ (s.walk t).vars, Reaches s v w) ↔ ∃ w ∈ t.vars, Reaches s v w := by
  obtain ⟨rank, hr⟩ := id hs
  rw [← mem_apply_iff hr hv, ← mem_apply_iff hr hv, apply_walk hs]

/-! ## A new binding -/

/-- A binding to a term that leads nowhere prolongs the walks that ended at its
variable. -/
theorem walk_bind (hs : s.Acyclic) (hv : s.get? v = none) (hfar : ∀ w ∈ t.vars, ¬ Reaches s v w)
    (ht : s.walk t = t) (u : Term) :
    (s.bind v t).walk u = if s.walk u = .var v then t else s.walk u := by
  obtain ⟨rank', hr'⟩ := hs.bind hv hfar
  obtain ⟨rank, hr⟩ := id hs
  induction u using hr.indWalk with
  | other u hu =>
    rw [walk_of_not_variable hu, walk_of_not_variable hu, if_neg]
    rintro rfl
    cases hu
  | free w hw =>
    rw [walk_free hw]
    by_cases hwv : w = v
    · subst hwv
      rw [if_pos rfl, hr'.walk_bound (t := t) (by rw [get?_bind hv, if_pos rfl])]
      cases t with
      | var x =>
        -- The term is another variable, and free: the walk ends there.
        have hx : s.get? x = none := free_of_walk hs ht
        have hne : x ≠ w := by
          rintro rfl
          exact hfar x (by simp [Term.vars]) .here
        exact walk_free (by rw [get?_bind hv, if_neg hne, hx])
      | _ => exact walk_of_not_variable rfl
    · rw [if_neg fun h => hwv (Term.var.inj h)]
      exact walk_free (by rw [get?_bind hv, if_neg hwv, hw])
  | bound w u hw ih =>
    have hne : w ≠ v := by
      rintro rfl
      rw [hv] at hw
      cases hw
    rw [hr.walk_bound hw, hr'.walk_bound (t := u) (by rw [get?_bind hv, if_neg hne, hw])]
    exact ih

end Clausal.Substitution
