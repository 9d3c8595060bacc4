import Clausal.Proofs.Unification.Matching
import Clausal.Proofs.Unification.Step

/-
  Completeness of unification — what has a unifier is unified, and no tighter
  than need be

  An assignment meets equations and bindings when both sides of every equation
  match one and the same term, and every bound term matches what its variable
  stands for. No step fails on equations that are met, and every step leaves
  equations and bindings that are met by the same assignment.

  What is proved:
    1. `Meets.not_fail`, `Meets.replace`, `Meets.bind` — the steps.
    2. `solve_of_meets` and `Run.meets` — the runs; `extend_of_meets` — equations that
       are met do extend acyclic bindings.
    3. `assign_apply` — an assignment that meets the bindings is not changed by
       following them first.
    4. `unify_complete` — unification finds bindings whenever there is a unifier,
       and every unifier factors through them.
-/

namespace Clausal

open Term (anonymousName)

namespace Substitution

/-- The assignment meets the equations and the bindings; the anonymous variable
is not bound. -/
structure Meets (θ : String → Term) (equations : List Equation) (s : Substitution) : Prop where
  equations : ∀ e ∈ equations, ∃ u, Matches θ e.1 u ∧ Matches θ e.2 u
  bindings : ∀ v t, s.get? v = some t → Matches θ t (θ v)
  anonymous : s.get? anonymousName = none

variable {θ : String → Term} {s : Substitution} {x y : Term} {rest : List Equation}

/-! ## Steps -/

/-- Along the bindings of a circle sizes do not grow. -/
theorem Meets.reaches {equations : List Equation} (h : Meets θ equations s) {v w : String}
    (hreach : s.Reaches v w) (hv : v ≠ anonymousName) :
    w ≠ anonymousName ∧ (θ v).nodes ≤ (θ w).nodes := by
  induction hreach with
  | here => exact ⟨hv, Nat.le_refl _⟩
  | @through u w t hu hw _ ih =>
    obtain ⟨hname, hle⟩ := ih
    refine ⟨?_, Nat.le_trans hle ((h.bindings u t hu).nodes_le hw hname)⟩
    rintro rfl
    rw [h.anonymous] at hu
    cases hu

/-- Terms that match one term do not clash. -/
theorem not_clash {u : Term} (hx : Matches θ x u) (hy : Matches θ y u) (hne : (x == y) = false)
    (hxvar : x.isVariable = false) (hyvar : y.isVariable = false)
    (hparts : ∀ f xs ys, x = .compound f xs → y = .compound f ys → xs.length ≠ ys.length) :
    False := by
  cases hx with
  | anonymous _ => cases hxvar
  | var _ => cases hxvar
  | constant _ hcompound hxu =>
    cases hy with
    | anonymous _ => cases hyvar
    | var _ => cases hyvar
    | constant _ _ hyu =>
      rw [Term.equal_trans hxu (Term.equal_symm hyu)] at hne
      cases hne
    | compound _ _ =>
      obtain ⟨zs, rfl, _⟩ := Term.compound_equal_iff.mp (Term.equal_symm hxu)
      cases hcompound
  | @compound f xs us hxlength _ =>
    cases hy with
    | anonymous _ => cases hyvar
    | var _ => cases hyvar
    | constant _ hcompound hyu =>
      obtain ⟨zs, rfl, _⟩ := Term.compound_equal_iff.mp (Term.equal_symm hyu)
      cases hcompound
    | @compound _ ys _ hylength _ =>
      exact hparts f xs ys rfl rfl (hxlength.trans hylength.symm)

/-- No step fails on terms that match one term. -/
theorem StepsTo.not_fail {equations : List Equation} {u : Term} (hstep : StepsTo s x y .fail)
    (h : Meets θ equations s) (hx : Matches θ x u) (hy : Matches θ y u) : False := by
  generalize hfail : Step.fail = r at hstep
  induction hstep with
  | circle hv hw hreach =>
    -- The variable of the compound that leads back to `v` stands for no less than
    -- `v` does, but for less than the compound, and `v` stands for all of that.
    obtain ⟨hname, hle⟩ := h.reaches hreach hv
    have hlt := nodes_lt_of_matches hy hw hname
    have heq := Term.nodes_eq_of_equal (hx.var_equal hv)
    omega
  | clash hne hxvar hyvar hparts => exact not_clash hx hy hne hxvar hyvar hparts
  | swapped _ ih => exact ih hy hx hfail
  | _ => cases hfail

/-- The equations that a step leaves are met with the one it took. -/
theorem StepsTo.meets {equations more : List Equation} {u : Term}
    (hstep : StepsTo s x y (.replace more)) (h : Meets θ equations s) (hx : Matches θ x u)
    (hy : Matches θ y u) : ∀ e ∈ more, ∃ w, Matches θ e.1 w ∧ Matches θ e.2 w := by
  generalize hreplace : Step.replace more = r at hstep
  induction hstep with
  | same _ =>
    obtain rfl := Step.replace.inj hreplace
    exact fun e he => absurd he List.not_mem_nil
  | anonymous _ =>
    obtain rfl := Step.replace.inj hreplace
    exact fun e he => absurd he List.not_mem_nil
  | @followed v bound t hname _ hv =>
    obtain rfl := Step.replace.inj hreplace
    intro e he
    rw [List.mem_singleton.mp he]
    exact ⟨u, (h.bindings v bound hv).congr (hx.var_equal hname), hy⟩
  | @followedRight v bound t hname _ hv =>
    obtain rfl := Step.replace.inj hreplace
    intro e he
    rw [List.mem_singleton.mp he]
    exact ⟨u, hx, (h.bindings v bound hv).congr (hy.var_equal hname)⟩
  | @parts f xs ys _ =>
    obtain rfl := Step.replace.inj hreplace
    obtain ⟨us, rfl, hxs⟩ := hx.of_compound
    obtain ⟨vs, hsame, hys⟩ := hy.of_compound
    obtain ⟨_, rfl⟩ := Term.compound.inj hsame
    have hback : List.Forall₂ (fun w y => Matches θ y w) us ys := List.Forall₂.flip hys
    exact fun e he => List.forall₂_zip (forall₂_comp hxs hback) he
  | swapped _ ih => exact ih hy hx hreplace
  | bound _ _ _ _ => cases hreplace
  | circle _ _ _ => cases hreplace
  | clash _ _ _ _ => cases hreplace

theorem Meets.not_fail (h : Meets θ ((x, y) :: rest) s) (hstep : StepsTo s x y .fail) : False := by
  obtain ⟨u, hx, hy⟩ := h.equations (x, y) List.mem_cons_self
  exact hstep.not_fail h hx hy

theorem Meets.replace {more : List Equation} (h : Meets θ ((x, y) :: rest) s)
    (hstep : StepsTo s x y (.replace more)) : Meets θ (more ++ rest) s := by
  obtain ⟨u, hx, hy⟩ := h.equations (x, y) List.mem_cons_self
  refine ⟨fun e he => ?_, h.bindings, h.anonymous⟩
  rcases List.mem_append.mp he with he | he
  · exact hstep.meets h hx hy e he
  · exact h.equations e (List.mem_cons_of_mem _ he)

theorem Meets.bind {v : String} {t : Term} (h : Meets θ ((x, y) :: rest) s)
    (hstep : StepsTo s x y (.bind v t)) : Meets θ rest (s.bind v t) := by
  obtain ⟨u, hx, hy⟩ := h.equations (x, y) List.mem_cons_self
  obtain ⟨hname, hfree, _, hsides⟩ := hstep.of_bind
  have hnew : Matches θ t (θ v) := by
    rcases hsides with ⟨rfl, rfl⟩ | ⟨rfl, rfl⟩
    · exact hy.congr (Term.equal_symm (hx.var_equal hname))
    · exact hx.congr (Term.equal_symm (hy.var_equal hname))
  refine ⟨fun e he => h.equations e (List.mem_cons_of_mem _ he), fun w b hw => ?_, ?_⟩
  · rw [get?_bind hfree] at hw
    split at hw
    · rename_i hwv
      obtain rfl := Option.some.inj hw
      rwa [hwv]
    · exact h.bindings w b hw
  · rw [get?_bind hfree, if_neg hname.symm, h.anonymous]

/-! ## Runs -/

/-- Equations that are met are solved. -/
theorem solve_of_meets {scope : List String} {equations : List Equation}
    (hfits : Fits scope equations s) (h : Meets θ equations s) :
    ∃ final, solve scope equations s hfits = some final := by
  fun_induction solve scope equations s hfits with
  | case1 s hfits _ => exact ⟨s, rfl⟩
  | case2 s x y rest hfits hstep _ =>
    exact (h.not_fail (stepsTo_of_step hstep)).elim
  | case3 s x y rest hfits more hstep _ ih =>
    exact ih (h.replace (stepsTo_of_step hstep))
  | case4 s x y rest hfits v t hstep _ ih =>
    exact ih (h.bind (stepsTo_of_step hstep))

theorem Run.meets {equations : List Equation} {final : Substitution} (hrun : Run equations s final)
    (h : Meets θ equations s) : Meets θ [] final := by
  induction hrun with
  | done s => exact h
  | replace hstep _ ih => exact ih (h.replace (stepsTo_of_step hstep))
  | bind hstep _ ih => exact ih (h.bind (stepsTo_of_step hstep))

theorem extend_of_meets {equations : List Equation} (hnodup : s.domain.Nodup) (hs : s.Acyclic)
    (h : Meets θ equations s) :
    ∃ final, s.extend equations = some final ∧ Run equations s final := by
  have hcyclic := isCyclic_of_acyclic hnodup hs
  obtain ⟨final, hsolve⟩ := solve_of_meets (fits_scopeOf hcyclic) h
  have hrun := run_of_solve hsolve
  exact ⟨final, extend_eq_some_iff.mpr ⟨hcyclic, hrun⟩, hrun⟩

theorem unify_of_meets (hnodup : s.domain.Nodup) (hs : s.Acyclic) (h : Meets θ [(x, y)] s) :
    ∃ final, s.unify x y = some final ∧ Run [(x, y)] s final :=
  extend_of_meets hnodup hs h

/-! ## Bindings in the end -/

/-- An assignment that meets the bindings is not changed by following them
first. -/
theorem assign_apply (hs : s.Acyclic) (h : Meets θ [] s)
    (hnamed : ∀ v t, s.get? v = some t → anonymousName ∉ t.vars) {t u : Term}
    (ht : (t.assign θ == u) = true) : ((s.apply t).assign θ == u) = true := by
  obtain ⟨rank, hr⟩ := hs
  induction t using hr.ind generalizing u with
  | atom n => simpa [apply] using ht
  | integer i => simpa [apply] using ht
  | float x => simpa [apply] using ht
  | free v hv => rwa [apply_var_free hv]
  | bound v t hv ih =>
    rw [hr.apply_bound hv]
    have hinstance := assign_of_matches (hnamed v t hv) (h.bindings v t hv)
    exact ih (Term.equal_trans hinstance ht)
  | compound f args ih =>
    rw [Term.assign_compound] at ht
    rw [apply_compound, Term.assign_compound, List.map_map]
    obtain ⟨us, rfl, hus⟩ := Term.compound_equal_iff.mp ht
    refine Term.compound_equal_iff.mpr ⟨us, rfl, ?_⟩
    rw [List.forall₂_map_left_iff] at hus ⊢
    exact forall₂_imp_of_mem hus fun t ht' y hty => ih t ht' hty

/-- No anonymous variable is bound or occurs in a bound term. -/
def Named (s : Substitution) : Prop :=
  ∀ b ∈ s.bindings, b.1 ≠ anonymousName ∧ anonymousName ∉ b.2.vars

theorem named_empty : (∅ : Substitution).Named := fun _ hb => absurd hb List.not_mem_nil

theorem Named.get? (h : s.Named) {v : String} {t : Term} (hv : s.get? v = some t) :
    v ≠ anonymousName ∧ anonymousName ∉ t.vars :=
  h _ (lookup_mem hv)

theorem Named.anonymous_free (h : s.Named) : s.get? anonymousName = none := by
  cases hv : s.get? anonymousName with
  | none => rfl
  | some t => exact absurd rfl (h.get? hv).1

/-- The assignment makes the two sides of every equation equal. -/
def Unifies (θ : String → Term) (equations : List Equation) : Prop :=
  ∀ e ∈ equations, (e.1.assign θ == e.2.assign θ) = true

theorem unifies_equations_iff :
    Unifies θ s.equations ↔ ∀ b ∈ s.bindings, (θ b.1 == b.2.assign θ) = true :=
  List.forall_mem_map

/-- The anonymous variable occurs on neither side of an equation. -/
def NamedSides (equations : List Equation) : Prop :=
  ∀ e ∈ equations, anonymousName ∉ e.1.vars ∧ anonymousName ∉ e.2.vars

theorem Named.sides (h : s.Named) : NamedSides s.equations :=
  List.forall_mem_map.mpr fun b hb => ⟨by simpa [Term.vars] using (h b hb).1.symm, (h b hb).2⟩

/-- A unifier of the equations and of the bindings meets both. -/
theorem meets_of_unifies {equations : List Equation} (hnamed : s.Named)
    (hsides : NamedSides equations) (h : Unifies θ equations) (hbindings : Unifies θ s.equations) :
    Meets θ equations s where
  equations e he := by
    have hequal := h e he
    have hself := Term.equal_self_iff.mpr (Term.not_hasNaN_of_equal hequal)
    obtain ⟨hleft, hright⟩ := hsides e he
    exact ⟨e.2.assign θ, matches_of_assign hleft hequal, matches_of_assign hright hself⟩
  bindings v t hv := by
    have hequal := Term.equal_symm (unifies_equations_iff.mp hbindings _ (lookup_mem hv))
    exact matches_of_assign (hnamed.get? hv).2 hequal
  anonymous := hnamed.anonymous_free

/-- A run leaves no anonymous variable in the bindings when there was none. -/
theorem Run.named {equations : List Equation} {final : Substitution} (h : Run equations s final)
    (hnamed : s.Named) (hsides : NamedSides equations) : final.Named := by
  have hholds : Holds (fun t => anonymousName ∉ t.vars) [] final := by
    refine h.holds (fun f args hall t ht hv => ?_) ⟨hsides, fun b hb => ?_⟩
    · exact hall (Term.mem_vars_compound.mpr ⟨t, ht, hv⟩)
    · exact (hnamed.sides (.var b.1, b.2) (List.mem_map.mpr ⟨b, hb, rfl⟩))
  intro b hb
  obtain ⟨hkey, hterm⟩ := hholds.bindings b hb
  exact ⟨fun hname => hkey (by simp [Term.vars, hname]), hterm⟩

/-- A unifier factors through the bindings at the end of a run. -/
theorem Run.factors {equations : List Equation} {final : Substitution} (h : Run equations s final)
    (hθ : ∀ v, (θ v).hasNaN = false) (hs : s.Acyclic) (hnamed : s.Named)
    (hsides : NamedSides equations) (hmeets : Meets θ equations s) (v : String) :
    (θ v == (final.apply (.var v)).assign θ) = true := by
  have hfinal := h.named hnamed hsides
  refine Term.equal_symm (assign_apply (h.acyclic hs) (h.meets hmeets) ?_ ?_)
  · exact fun v t hv => (hfinal.get? hv).2
  · exact Term.equal_self_iff.mpr (hθ v)

/-- Without the anonymous variable every unifier is found and factors through
what is found. -/
theorem unify_of_unifier (hθ : ∀ v, (θ v).hasNaN = false) (hnodup : s.domain.Nodup)
    (hs : s.Acyclic) (hnamed : s.Named) (hx : anonymousName ∉ x.vars) (hy : anonymousName ∉ y.vars)
    (hxy : (x.assign θ == y.assign θ) = true)
    (hbindings : ∀ b ∈ s.bindings, (θ b.1 == b.2.assign θ) = true) :
    ∃ final, s.unify x y = some final ∧
      ∀ v, (θ v == (final.apply (.var v)).assign θ) = true := by
  have hsides : NamedSides [(x, y)] := List.forall_mem_singleton.mpr ⟨hx, hy⟩
  have hunifies : Unifies θ [(x, y)] := List.forall_mem_singleton.mpr hxy
  have hmeets := meets_of_unifies hnamed hsides hunifies (unifies_equations_iff.mpr hbindings)
  obtain ⟨final, hunify, hrun⟩ := unify_of_meets hnodup hs hmeets
  exact ⟨final, hunify, hrun.factors hθ hs hnamed hsides hmeets⟩

end Substitution

open Substitution

/-- An assignment of terms without a NaN that makes `x` and `y` equal and agrees
with the bindings of `s` is a unifier. Unification finds bindings whenever there
is one, and the unifier factors through them; so do the most general bindings,
and these are found as well when the occurrences of the anonymous variable need
names of their own to be unified. -/
theorem unify_complete {θ : String → Term} (hθ : ∀ v, (θ v).hasNaN = false) :
    (∀ (s : Substitution) (x y : Term), s.domain.Nodup → s.Acyclic → s.Named →
      anonymousName ∉ x.vars → anonymousName ∉ y.vars →
      (x.assign θ == y.assign θ) = true →
      (∀ b ∈ s.bindings, (θ b.1 == b.2.assign θ) = true) →
      ∃ final, s.unify x y = some final ∧
        ∀ v, (θ v == (final.apply (.var v)).assign θ) = true) ∧
    (∀ x y : Term, anonymousName ∉ x.vars → anonymousName ∉ y.vars →
      (x.assign θ == y.assign θ) = true →
      ∃ s, mgu x y = some s ∧ ∀ v, (θ v == (s.apply (.var v)).assign θ) = true) ∧
    ∀ (x y : Term) (names : Nat → String), x.hasNaN = false → y.hasNaN = false →
      ((x.freshen names 0).1.assign θ ==
        (y.freshen names (x.freshen names 0).2).1.assign θ) = true →
      (mgu x y).isSome = true := by
  refine ⟨?_, ?_, ?_⟩
  · intro s x y hnodup hs hnamed hx hy hxy hbindings
    exact unify_of_unifier hθ hnodup hs hnamed hx hy hxy hbindings
  · intro x y hx hy hxy
    have hbindings : ∀ b ∈ (∅ : Substitution).bindings, (θ b.1 == b.2.assign θ) = true :=
      fun b hb => absurd hb List.not_mem_nil
    obtain ⟨final, hunify, hfactor⟩ :=
      unify_of_unifier hθ nodup_empty acyclic_empty named_empty hx hy hxy hbindings
    have hacyclic := (unify_eq_some_iff.mp hunify).2.acyclic acyclic_empty
    refine ⟨final.resolved, by rw [mgu, hunify]; rfl, fun v => ?_⟩
    rw [apply_resolved hacyclic]
    exact hfactor v
  · intro x y names hx hy hxy
    have hmeets : Meets θ [(x, y)] ∅ := by
      refine ⟨fun e he => ?_, fun v t hv => absurd hv (Option.some_ne_none t).symm, rfl⟩
      rw [List.mem_singleton.mp he]
      exact ⟨_, (matches_freshen hθ names 0 hx).congr hxy, matches_freshen hθ names _ hy⟩
    obtain ⟨final, hunify, _⟩ := unify_of_meets nodup_empty acyclic_empty hmeets
    rw [mgu, hunify]
    rfl

/-- With `X` bound to `f(Y)`, the terms `p(X, Y)` and `p(f(Z), a)` have a unifier. -/
theorem unify_complete_bound :
    let θ : String → Term := fun v => if v = "X" then .compound "f" [.atom "a"] else .atom "a"
    let s : Substitution := ⟨[("X", .compound "f" [.var "Y"])]⟩
    let x : Term := .compound "p" [.var "X", .var "Y"]
    let y : Term := .compound "p" [.compound "f" [.var "Z"], .atom "a"]
    (∀ v, (θ v).hasNaN = false) ∧ s.domain.Nodup ∧ s.Acyclic ∧ s.Named ∧
      (x.assign θ == y.assign θ) = true ∧
      (∀ b ∈ s.bindings, (θ b.1 == b.2.assign θ) = true) ∧
      ∃ final, s.unify x y = some final ∧
        ∀ v, (θ v == (final.apply (.var v)).assign θ) = true := by
  intro θ s x y
  have hθ : ∀ v, (θ v).hasNaN = false := by
    intro v
    show (if v = "X" then Term.compound "f" [.atom "a"] else .atom "a").hasNaN = false
    split <;> rfl
  have hnodup : s.domain.Nodup := by decide
  have hs : s.Acyclic := acyclic_of_isCyclic (by decide +kernel)
  have hnamed : s.Named := by
    intro b hb
    rw [List.mem_singleton.mp hb]
    exact ⟨by decide, by decide⟩
  have hbindings : ∀ b ∈ s.bindings, (θ b.1 == b.2.assign θ) = true := by
    intro b hb
    rw [List.mem_singleton.mp hb]
    rfl
  have hxy : (x.assign θ == y.assign θ) = true := rfl
  have hfound := (unify_complete hθ).1 s x y hnodup hs hnamed (by decide) (by decide) hxy hbindings
  exact ⟨hθ, hnodup, hs, hnamed, hxy, hbindings, hfound⟩

end Clausal
