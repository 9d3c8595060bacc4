import Clausal.Proofs.Substitution.Circle
import Clausal.Proofs.Unification.Calls

/-
  Extension — what unification adds to the bindings it begins with

  A run only appends. Each binding it appends is of a variable that was free, that
  has a name, and that occurs in an equation or in a term bound before; and the
  term it is bound to leads back to it by no chain of bindings, those of the
  anonymous variable included, which a run never makes but may begin with.

  What is proved:
    1. `Run.appends` — the bindings in the end are those at the beginning and
       after them bindings of variables with a name.
    2. `Run.scope` — all variables in the end are variables of the equations or of
       the bindings at the beginning; `Run.atHand` — so are those it binds.
    3. `unify_extends` — unification extends bindings without a circle by bindings
       of free variables at hand and closes no circle.
-/

namespace Clausal

open Term (anonymousName)

namespace Substitution

namespace Run

variable {equations : List Equation} {s final : Substitution}

/-- A run appends bindings of variables with a name. -/
theorem appends (h : Run equations s final) :
    ∃ added, final.bindings = s.bindings ++ added ∧ ∀ b ∈ added, b.1 ≠ anonymousName := by
  refine h.invariant (P := fun later => ∃ added, later.bindings = s.bindings ++ added ∧
    ∀ b ∈ added, b.1 ≠ anonymousName) ?_ ⟨[], (List.append_nil _).symm, fun b hb => ?_⟩
  · rintro later v t hname _ _ ⟨added, hadded, hnames⟩
    refine ⟨added ++ [(v, t)], ?_, fun b hb => ?_⟩
    · show later.bindings ++ [(v, t)] = _
      rw [hadded, List.append_assoc]
    · rcases List.mem_append.mp hb with hb | hb
      · exact hnames b hb
      · rwa [List.mem_singleton.mp hb]
  · cases hb

/-- The variables of the equations and of the bindings at the beginning are all
there are in the end. -/
theorem scope {scope : String → Prop} (h : Run equations s final)
    (hequations : ∀ e ∈ equations, (∀ w ∈ e.1.vars, scope w) ∧ ∀ w ∈ e.2.vars, scope w)
    (hbindings : ∀ b ∈ s.bindings, scope b.1 ∧ ∀ w ∈ b.2.vars, scope w) :
    ∀ b ∈ final.bindings, scope b.1 ∧ ∀ w ∈ b.2.vars, scope w := by
  have hkey : ∀ v, (∀ w ∈ (Term.var v).vars, scope w) ↔ scope v := by simp [Term.vars]
  have hend : Holds (fun t => ∀ w ∈ t.vars, scope w) [] final := by
    refine h.holds ?_ ⟨hequations, fun b hb => ?_⟩
    · exact fun f args hall t ht w hw => hall w (Term.mem_vars_compound.mpr ⟨t, ht, hw⟩)
    · exact ⟨(hkey b.1).mpr (hbindings b hb).1, (hbindings b hb).2⟩
  exact fun b hb => ⟨(hkey b.1).mp (hend.bindings b hb).1, (hend.bindings b hb).2⟩

end Run

/-- The variable is bound, or occurs in one of the two terms or in a bound term. -/
def AtHand (s : Substitution) (x y : Term) (w : String) : Prop :=
  s.get? w ≠ none ∨ w ∈ x.vars ∨ w ∈ y.vars ∨ ∃ c ∈ s.bindings, w ∈ c.2.vars

theorem Run.atHand {s final : Substitution} {x y : Term} (h : Run [(x, y)] s final) :
    ∀ b ∈ final.bindings, s.AtHand x y b.1 := by
  have hscope : ∀ b ∈ final.bindings, s.AtHand x y b.1 ∧ ∀ w ∈ b.2.vars, s.AtHand x y w := by
    refine h.scope (fun e he => ?_) fun b hb => ⟨Or.inl fun hfree => ?_, fun w hw => ?_⟩
    · rw [List.mem_singleton.mp he]
      exact ⟨fun w hw => Or.inr (Or.inl hw), fun w hw => Or.inr (Or.inr (Or.inl hw))⟩
    · exact get?_eq_none_iff.mp hfree (mem_domain_of_mem hb)
    · exact Or.inr (Or.inr (Or.inr ⟨b, hb, hw⟩))
  exact fun b hb => (hscope b hb).1

/-- Where no variable is bound twice, those bound later were free. -/
theorem free_of_appended {s final : Substitution} {added : List (String × Term)}
    (hnodup : final.domain.Nodup) (hadded : final.bindings = s.bindings ++ added) :
    ∀ b ∈ added, s.get? b.1 = none := by
  intro b hb
  rw [domain, hadded, List.map_append] at hnodup
  refine get?_eq_none_iff.mpr fun hv => ?_
  exact List.disjoint_of_nodup_append hnodup hv (List.mem_map.mpr ⟨b, hb, rfl⟩)

end Substitution

open Substitution

/-- Unification fails on bindings that run in a circle. It extends others: the
bindings it began with come first and are followed by bindings of variables that
were free, have a name, and occur in one of the two terms or in a term bound
before. No variable is bound twice, and the bindings still run in no circle. -/
theorem unify_extends {s : Substitution} (hnodup : s.domain.Nodup) (x y : Term) :
    ((∃ v, s.Circular v) → s.unify x y = none) ∧
    ((¬ ∃ v, s.Circular v) → ∀ final, s.unify x y = some final →
      ∃ added, final.bindings = s.bindings ++ added ∧
        (∀ b ∈ added, s.get? b.1 = none ∧ b.1 ≠ anonymousName ∧
          (b.1 ∈ x.vars ∨ b.1 ∈ y.vars ∨ ∃ c ∈ s.bindings, b.1 ∈ c.2.vars)) ∧
        final.domain.Nodup ∧ ¬ ∃ v, final.Circular v) := by
  refine ⟨fun hcircular => ?_, fun hnone final hunify => ?_⟩
  · refine Option.eq_none_iff_forall_ne_some.mpr fun final hunify => ?_
    have hcyclic := (unify_eq_some_iff.mp hunify).1
    rw [(isCyclic_iff hnodup).mpr hcircular] at hcyclic
    cases hcyclic
  · have hrun := (unify_eq_some_iff.mp hunify).2
    have hacyclic : s.Acyclic := acyclic_iff.mpr fun v hv => hnone ⟨v, hv⟩
    have hnodup' := hrun.nodup hnodup
    obtain ⟨added, hadded, hnames⟩ := hrun.appends
    refine ⟨added, hadded, fun b hb => ?_, hnodup', ?_⟩
    · have hfree := free_of_appended hnodup' hadded b hb
      have hmem : b ∈ final.bindings := hadded ▸ List.mem_append_right _ hb
      -- What was bound at the beginning counts as at hand, but is not bound again.
      exact ⟨hfree, hnames b hb, (hrun.atHand b hmem).resolve_left fun hv => hv hfree⟩
    · rintro ⟨v, hv⟩
      exact acyclic_iff.mp (hrun.acyclic hacyclic) v hv

/-- `_` is bound to `f(Z)` and `X` to `g(Y)`. The terms `p(X, Y, _)` and
`p(g(W), h(Z), V)` bind `Y` and `W`; `_` equals `V` anyway. -/
theorem unify_extends_anonymous :
    let s : Substitution := ⟨[("_", .compound "f" [.var "Z"]), ("X", .compound "g" [.var "Y"])]⟩
    let x : Term := .compound "p" [.var "X", .var "Y", .var "_"]
    let y : Term := .compound "p"
      [.compound "g" [.var "W"], .compound "h" [.var "Z"], .var "V"]
    let added := [("Y", .var "W"), ("W", .compound "h" [.var "Z"])]
    let circle : Substitution := ⟨[("X", .compound "f" [.var "Y"]), ("Y", .var "X")]⟩
    s.domain.Nodup ∧ (¬ ∃ v, s.Circular v) ∧ s.unify x y = some ⟨s.bindings ++ added⟩ ∧
      (¬ ∃ v, (Substitution.mk (s.bindings ++ added)).Circular v) ∧
      circle.domain.Nodup ∧ (∃ v, circle.Circular v) ∧ circle.unify x y = none := by
  intro s x y added circle
  have hs : s.isCyclic = false := by decide +kernel
  have hnone : ¬ ∃ v, s.Circular v := by
    rw [← isCyclic_iff (by decide), hs]
    exact Bool.false_ne_true
  have hcircle : ∃ v, circle.Circular v := (isCyclic_iff (by decide)).mp (by decide +kernel)
  have hfirst : s.step (.var "Y") (.var "W") = .bind "Y" (.var "W") := by
    rw [step_of_left rfl, stepVar_of_allFree rfl rfl rfl (by decide)]
  have hsecond : (s.bind "Y" (.var "W")).step (.var "W") (.compound "h" [.var "Z"]) =
      .bind "W" (.compound "h" [.var "Z"]) := by
    rw [step_of_left rfl, stepVar_of_allFree rfl rfl rfl (by decide)]
  have hrun : Run [(x, y)] s ⟨s.bindings ++ added⟩ :=
    .replace rfl (.replace rfl (.replace rfl (.bind hfirst
      (.replace rfl (.bind hsecond (.replace rfl (.done _)))))))
  have hunify : s.unify x y = some ⟨s.bindings ++ added⟩ := unify_eq_some_iff.mpr ⟨hs, hrun⟩
  obtain ⟨_, _, _, _, hfinal⟩ := (unify_extends (by decide) x y).2 hnone _ hunify
  exact ⟨by decide, hnone, hunify, hfinal, by decide, hcircle,
    (unify_extends (by decide) x y).1 hcircle⟩

end Clausal
