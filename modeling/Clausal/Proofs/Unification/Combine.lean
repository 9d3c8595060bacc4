import Clausal.Proofs.Unification.Complete
import Clausal.Proofs.Unification.Sound

/-
  Combined substitutions — the most general bindings that meet two substitutions

  A binding is an equation between its variable and its term. Combining meets the
  equations of the second substitution beginning with the bindings of the first,
  so that the bindings in the end meet the equations of both: the first ones are
  kept and the others are met one by one. Only the first substitution has to be
  free of circles; a circle in the second one is an equation that cannot be met.

  What is proved:
    1. `combine_eq_some_iff` — combining comes to the end of a run.
    2. `assign_apply_var` — bindings followed in a term are an assignment.
    3. `Run.meets_both` — the equations and the first bindings are met in the end.
    4. `combine_mostGeneral` — two substitutions combine exactly when their
       equations have a unifier, and then into the most general one.
-/

namespace Clausal.Substitution

open Term (anonymousName)

theorem combine_eq_some_iff {s t r : Substitution} :
    s.combine t = some r ↔
      s.isCyclic = false ∧ ∃ final, Run t.equations s final ∧ r = final.resolved := by
  unfold combine
  rw [Option.map_eq_some_iff]
  constructor
  · rintro ⟨final, hextend, rfl⟩
    obtain ⟨hcyclic, hrun⟩ := extend_eq_some_iff.mp hextend
    exact ⟨hcyclic, final, hrun, rfl⟩
  · rintro ⟨hcyclic, final, hrun, rfl⟩
    exact ⟨final, extend_eq_some_iff.mpr ⟨hcyclic, hrun⟩, rfl⟩

/-- Bindings followed in a term are an assignment to its variables. -/
theorem assign_apply_var (s : Substitution) (t : Term) :
    t.assign (fun v => s.apply (.var v)) = s.apply t := by
  induction t using Term.ind with
  | compound f args ih => rw [Term.assign_compound, apply_compound, List.map_congr_left ih]
  | var v => rfl
  | _ => simp [Term.assign, apply]

/-- No NaN occurs in a bound term. -/
def Numbers (s : Substitution) : Prop := ∀ b ∈ s.bindings, b.2.hasNaN = false

theorem Numbers.holds {s t : Substitution} (hs : s.Numbers) (ht : t.Numbers) :
    Holds (fun u => u.hasNaN = false) t.equations s where
  equations := List.forall_mem_map.mpr fun b hb => ⟨rfl, ht b hb⟩
  bindings b hb := ⟨rfl, hs b hb⟩

section

variable {s t final : Substitution}

/-- A variable and its term are equal when bindings are followed in both. -/
theorem Final.apply_equal (h : Final final) {v : String} {u : Term} (hv : final.get? v = some u) :
    (final.apply (.var v) == final.apply u) = true := by
  obtain ⟨rank, hr⟩ := h.acyclic
  rw [hr.apply_bound hv]
  exact Term.equal_self_iff.mpr (not_hasNaN_apply h.acyclic h.bound (h.bound v u hv))

theorem Named.apply (hs : s.Acyclic) (h : s.Named) {u : Term} (hu : anonymousName ∉ u.vars) :
    anonymousName ∉ (s.apply u).vars := by
  intro hv
  rcases mem_vars_of_mem_apply hs hv with hv | ⟨w, b, hw, hv⟩
  · exact hu hv
  · exact (h.get? hw).2 hv

/-- The equations of both substitutions are met at the end of a run: the first
bindings are kept, and the others are met on the way. -/
theorem Run.meets_both (h : Run t.equations s final) (hfinal : Final final)
    (hnodup : s.domain.Nodup) (hs : s.Named) (ht : t.Named) :
    ∀ e ∈ s.equations ++ t.equations, (final.apply e.1 == final.apply e.2) = true := by
  have hnamed := h.named hs ht.sides
  intro e he
  rcases List.mem_append.mp he with he | he
  · obtain ⟨b, hb, rfl⟩ := List.mem_map.mp he
    exact hfinal.apply_equal (h.keeps (get?_eq_of_mem hnodup hb))
  · obtain ⟨hleft, hright⟩ := ht.sides e he
    have hacyclic := hfinal.acyclic
    exact (h.alike hfinal e he).equal_of_named (hnamed.apply hacyclic hleft)
      (hnamed.apply hacyclic hright)

end

/-- Two substitutions, the first one without a circle, combine exactly when some
assignment of terms without a NaN unifies the equations of both. What they
combine into binds no variable that occurs in a term it binds, meets every
equation, and is most general: every unifier factors through it. A substitution
with a circle does not combine with any other. -/
theorem combine_mostGeneral {s : Substitution} (t : Substitution) (hnodup : s.domain.Nodup) :
    (¬ s.Acyclic → s.combine t = none) ∧
    (s.Acyclic → s.Named → t.Named → s.Numbers → t.Numbers →
      ((s.combine t).isSome = true ↔
        ∃ θ, (∀ v, (θ v).hasNaN = false) ∧ Unifies θ (s.equations ++ t.equations)) ∧
      ∀ r, s.combine t = some r →
        (∀ b ∈ r.bindings, ∀ w ∈ b.2.vars, r.get? w = none) ∧
        (∀ e ∈ s.equations ++ t.equations, (r.apply e.1 == r.apply e.2) = true) ∧
        ∀ θ, (∀ v, (θ v).hasNaN = false) → Unifies θ (s.equations ++ t.equations) →
          ∀ v, (θ v == (r.apply (.var v)).assign θ) = true) := by
  constructor
  · intro hcircle
    refine Option.eq_none_iff_forall_ne_some.mpr fun r hr => hcircle ?_
    exact acyclic_of_isCyclic (combine_eq_some_iff.mp hr).1
  · intro hs hsnamed htnamed hsnumbers htnumbers
    have hmeets : ∀ θ, Unifies θ (s.equations ++ t.equations) → Meets θ t.equations s := by
      intro θ hθ
      have hboth := List.forall_mem_append.mp hθ
      exact meets_of_unifies hsnamed htnamed.sides hboth.2 hboth.1
    have hfinal : ∀ {final}, Run t.equations s final → Final final := fun hrun =>
      hrun.final hs hsnamed.anonymous_free (hsnumbers.holds htnumbers)
    refine ⟨⟨?_, ?_⟩, ?_⟩
    · -- The bindings followed to their end are a unifier themselves.
      intro hsome
      obtain ⟨r, hr⟩ := Option.isSome_iff_exists.mp hsome
      obtain ⟨_, final, hrun, _⟩ := combine_eq_some_iff.mp hr
      refine ⟨fun v => final.apply (.var v), fun v => ?_, fun e he => ?_⟩
      · exact not_hasNaN_apply (hfinal hrun).acyclic (hfinal hrun).bound rfl
      · rw [assign_apply_var, assign_apply_var]
        exact hrun.meets_both (hfinal hrun) hnodup hsnamed htnamed e he
    · rintro ⟨θ, _, hunifies⟩
      obtain ⟨final, hextend, _⟩ := extend_of_meets hnodup hs (hmeets θ hunifies)
      rw [combine, hextend]
      rfl
    · intro r hr
      obtain ⟨_, final, hrun, rfl⟩ := combine_eq_some_iff.mp hr
      have hacyclic := (hfinal hrun).acyclic
      simp only [apply_resolved hacyclic]
      refine ⟨?_, hrun.meets_both (hfinal hrun) hnodup hsnamed htnamed, ?_⟩
      · intro b hb w hw
        obtain ⟨u, _, heq⟩ := mem_resolved hb
        rw [heq] at hw
        rw [get?_resolved, free_of_mem_apply hacyclic u w hw]
        rfl
      · intro θ hθ hunifies
        exact hrun.factors hθ hs hsnamed htnamed.sides (hmeets θ hunifies)

/-- With `X` bound to `f(Y)` on one side, and `Y` to `Z` and `X` to `f(a)` on the
other, all three variables are made out. With `X` bound to `f(X)` nothing is. -/
theorem combine_mostGeneral_shared :
    let s : Substitution := ⟨[("X", .compound "f" [.var "Y"])]⟩
    let t : Substitution := ⟨[("Y", .var "Z"), ("X", .compound "f" [.atom "a"])]⟩
    let circle : Substitution := ⟨[("X", .compound "f" [.var "X"])]⟩
    let θ : String → Term := fun v => if v = "X" then .compound "f" [.atom "a"] else .atom "a"
    s.domain.Nodup ∧ s.Acyclic ∧ s.Named ∧ t.Named ∧ s.Numbers ∧ t.Numbers ∧
      (∀ v, (θ v).hasNaN = false) ∧ Unifies θ (s.equations ++ t.equations) ∧
      (∃ r, s.combine t = some r ∧ (r.apply (.var "Y") == r.apply (.var "Z")) = true ∧
        ∀ v, (θ v == (r.apply (.var v)).assign θ) = true) ∧
      circle.domain.Nodup ∧ ¬ circle.Acyclic ∧ circle.combine t = none := by
  intro s t circle θ
  have hs : s.Acyclic := acyclic_of_isCyclic (by decide +kernel)
  have hsnamed : s.Named := by unfold Named; decide
  have htnamed : t.Named := by unfold Named; decide
  have hsnumbers : s.Numbers := by unfold Numbers; decide
  have htnumbers : t.Numbers := by unfold Numbers; decide
  have hθ : ∀ v, (θ v).hasNaN = false := by
    intro v
    show (if v = "X" then Term.compound "f" [.atom "a"] else .atom "a").hasNaN = false
    split <;> rfl
  have hunifies : Unifies θ (s.equations ++ t.equations) := by unfold Unifies; decide
  have hcircle : ¬ circle.Acyclic := by
    rintro ⟨rank, hrank⟩
    exact Nat.lt_irrefl _ (hrank "X" _ rfl "X" (by decide))
  have ⟨hiff, hgeneral⟩ := (combine_mostGeneral t (s := s) (by decide)).2 hs hsnamed htnamed
    hsnumbers htnumbers
  obtain ⟨r, hr⟩ := Option.isSome_iff_exists.mp (hiff.mpr ⟨θ, hθ, hunifies⟩)
  obtain ⟨_, hmet, hfactor⟩ := hgeneral r hr
  refine ⟨by decide, hs, hsnamed, htnamed, hsnumbers, htnumbers, hθ, hunifies, ⟨r, hr, ?_, ?_⟩,
    by decide, hcircle, (combine_mostGeneral t (by decide)).1 hcircle⟩
  · exact hmet (.var "Y", .var "Z") (by simp [t, equations])
  · exact hfactor θ hθ hunifies

end Clausal.Substitution
