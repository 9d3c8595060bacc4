import Clausal.Proofs.Substitution.Circle
import Clausal.Proofs.Term.Equality

/-
  Expansion — following bindings with a record of the variables on the way

  Applying a substitution sets a binding aside while its variable is replaced. It
  comes to the same to keep all bindings and to record the variables that are
  being replaced: a variable of the record stays where it is met again. Whatever
  is left of a bound variable was met below itself, so it is on a circle. Without
  a circle nothing is left of any bound variable, and the record does not matter.

  What is proved:
    1. `expand_eq_apply` — with the record and with bindings set aside the result
       is the same.
    2. `circular_of_mem_expand` — the bound variables that are left are on a circle.
    3. `resolved_resolved` — bindings that were followed to their end once have
       nothing left to follow.
    4. `apply_exhaustive` — applying ends, leaves bound variables of circles only,
       and without a circle is done once and for all.
-/

namespace Clausal.Substitution

open Relation (TransGen)

variable {s : Substitution}

/-- The term with every bound variable replaced, following bindings to their end.
The variables of the path are being replaced already and stay. -/
def expand (s : Substitution) (path : List String) (t : Term) : Term :=
  match t with
  | .var v =>
    if _hpath : v ∈ path then .var v
    else
      match _hbound : s.get? v with
      | some bound => s.expand (v :: path) bound
      | none => .var v
  | .compound f args => .compound f (args.map (s.expand path))
  | t => t
termination_by (s.outside path, sizeOf t)
decreasing_by
  · exact Prod.Lex.left _ _ (outside_cons_lt _hpath _hbound)
  · rename_i arg hmem
    have := List.sizeOf_lt_of_mem hmem
    exact Prod.Lex.right _ (by simp only [Term.compound.sizeOf_spec]; omega)

/-! ## Bindings set aside -/

/-- The substitution without the bindings of the variables of the path. -/
def without (s : Substitution) : List String → Substitution
  | [] => s
  | v :: path => (s.without path).erase v

theorem get?_without (s : Substitution) (path : List String) (v : String) :
    (s.without path).get? v = if v ∈ path then none else s.get? v := by
  induction path with
  | nil => rfl
  | cons w path ih =>
    rw [without, get?_erase, ih]
    by_cases hw : v = w
    · simp [hw]
    · simp [hw]

/-- Recording the variables that are being replaced comes to the same as setting
their bindings aside. -/
theorem expand_eq_apply (s : Substitution) (path : List String) (t : Term) :
    s.expand path t = (s.without path).apply t := by
  fun_induction expand s path t with
  | case1 path v hpath => rw [apply_var_free (by rw [get?_without, if_pos hpath])]
  | case2 path v hpath bound hbound ih =>
    rw [ih, apply_var_bound (by rw [get?_without, if_neg hpath, hbound])]
    rfl
  | case3 path v hpath hfree => rw [apply_var_free (by rw [get?_without, if_neg hpath, hfree])]
  | case4 path f args ih => rw [apply_compound, List.map_congr_left ih]
  | case5 path t hvar hcompound =>
    cases t with
    | var v => exact absurd rfl (hvar v)
    | compound f args => exact absurd rfl (hcompound f args)
    | _ => simp [apply]

/-! ## What is left of bound variables -/

/-- A bound variable that is left was met below itself. -/
theorem circular_of_mem_expand {path : List String} {t : Term} {v : String}
    (halong : ∀ w ∈ t.vars, s.Along path w) (hv : v ∈ (s.expand path t).vars)
    (hbinds : s.binds v = true) : s.Circular v := by
  fun_induction expand s path t with
  | case1 path w hpath =>
    obtain rfl : v = w := by simpa [Term.vars] using hv
    exact halong v hv v hpath
  | case2 path w hpath bound hbound ih =>
    have hw := halong w (by simp [Term.vars])
    exact ih (fun u hu => hw.cons hbound hu) hv
  | case3 path w hpath hfree =>
    obtain rfl : v = w := by simpa [Term.vars] using hv
    simp [binds, hfree] at hbinds
  | case4 path f args ih =>
    obtain ⟨_, hmem, hv⟩ := Term.mem_vars_compound.mp hv
    obtain ⟨arg, harg, rfl⟩ := List.mem_map.mp hmem
    exact ih arg harg (fun w hw => halong w (Term.mem_vars_compound.mpr ⟨arg, harg, hw⟩)) hv
  | case5 path t hvar hcompound =>
    cases t with
    | var v => exact absurd rfl (hvar v)
    | compound f args => exact absurd rfl (hcompound f args)
    | _ => cases hv

/-! ## Bindings without a circle -/

theorem domain_resolved (s : Substitution) : s.resolved.domain = s.domain := by
  rw [domain, resolved, List.map_map]
  rfl

theorem free_of_mem_resolved (h : s.Acyclic) {b : String × Term} (hb : b ∈ s.resolved.bindings) :
    ∀ w ∈ b.2.vars, s.resolved.get? w = none := by
  intro w hw
  obtain ⟨t, _, hterm⟩ := mem_resolved hb
  rw [hterm] at hw
  rw [get?_resolved, free_of_mem_apply h t w hw]
  rfl

theorem resolved_resolved (h : s.Acyclic) : s.resolved.resolved = s.resolved := by
  have hsame : ∀ b ∈ s.resolved.bindings, (b.1, s.resolved.apply b.2) = b := fun b hb =>
    Prod.ext rfl (apply_of_free (free_of_mem_resolved h hb))
  show Substitution.mk (s.resolved.bindings.map fun b => (b.1, s.resolved.apply b.2)) = s.resolved
  rw [List.map_congr_left hsame, List.map_id']

/-- Following bindings ends, whether with a record of the variables that are being
replaced or with their bindings set aside. A bound variable is left only when a
chain of mentions leads from it back to it. Without such a chain a bound variable
gives way to what becomes of its term, following bindings again changes nothing,
and following them beforehand makes no difference: it leaves the same variables
bound, none of which occurs in a bound term, and need not be repeated. -/
theorem apply_exhaustive (s : Substitution) :
    (∀ t : Term, s.apply t = s.expand [] t ∧
      ∀ v ∈ (s.apply t).vars, s.binds v = true → s.Circular v) ∧
    ((∀ v, ¬ s.Circular v) →
      (∀ v t, s.get? v = some t → s.apply (.var v) = s.apply t) ∧
      (∀ t : Term, s.apply (s.apply t) = s.apply t) ∧
      s.resolved.domain = s.domain ∧
      (∀ b ∈ s.resolved.bindings, ∀ w ∈ b.2.vars, w ∉ s.resolved.domain) ∧
      (∀ t : Term, s.resolved.apply t = s.apply t) ∧
      s.resolved.resolved = s.resolved) := by
  have hexpand : ∀ t : Term, s.apply t = s.expand [] t := fun t => (expand_eq_apply s [] t).symm
  refine ⟨fun t => ⟨hexpand t, fun v hv hbinds => ?_⟩, fun hnone => ?_⟩
  · rw [hexpand t] at hv
    exact circular_of_mem_expand (fun _ _ u hu => absurd hu List.not_mem_nil) hv hbinds
  · have hacyclic : s.Acyclic := acyclic_iff.mpr hnone
    obtain ⟨rank, hr⟩ := id hacyclic
    refine ⟨fun v t hv => hr.apply_bound hv, fun t => ?_, domain_resolved s, fun b hb w hw => ?_,
      apply_resolved hacyclic, resolved_resolved hacyclic⟩
    · exact apply_of_free (free_of_mem_apply hacyclic t)
    · exact get?_eq_none_iff.mp (free_of_mem_resolved hacyclic hb w hw)

/-- `X` is bound to `Y` and `Y` to `f(Z, Z)`, so both come to the same. With `X`
and `Y` bound to one another `X` stays, and leads to itself. -/
theorem apply_exhaustive_chain :
    let chain : Substitution := ⟨[("X", .var "Y"), ("Y", .compound "f" [.var "Z", .var "Z"])]⟩
    let circle : Substitution := ⟨[("X", .var "Y"), ("Y", .var "X")]⟩
    (∀ v, ¬ chain.Circular v) ∧ chain.apply (.var "X") = chain.apply (.var "Y") ∧
      chain.resolved.resolved = chain.resolved ∧ circle.binds "X" = true ∧
      circle.apply (.var "X") = .var "X" ∧ circle.Circular "X" := by
  intro chain circle
  have hchain : ∀ v, ¬ chain.Circular v := acyclic_iff.mp (acyclic_of_isCyclic (by decide +kernel))
  obtain ⟨hbound, _, _, _, _, hagain⟩ := (apply_exhaustive chain).2 hchain
  have hstays : circle.apply (.var "X") = .var "X" := by
    rw [apply_var_bound (t := .var "Y") rfl, apply_var_bound (t := .var "X") rfl, apply_var_free rfl]
  have hcircular := ((apply_exhaustive circle).1 (.var "X")).2
  rw [hstays] at hcircular
  exact ⟨hchain, hbound "X" (.var "Y") rfl, hagain, rfl, hstays, hcircular "X" (by decide) rfl⟩

end Clausal.Substitution
