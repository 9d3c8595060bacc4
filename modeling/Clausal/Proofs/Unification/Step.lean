import Clausal.Unification.Basic
import Clausal.Proofs.Substitution.Resolved
import Clausal.Proofs.Term.Equality

/-
  Steps and runs — everything a step of unification can do

  The steps are listed once as a relation, with the guards under which each is
  taken. A run is a chain of steps that ends with all equations met. What holds
  of every run is proved of one step and carried along the chain.

  What is proved:
    1. `step_stepsTo` — the step that is taken is in the list.
    2. `extend_eq_some_iff`, `unify_eq_some_iff` — meeting equations comes to the
       end of a run.
    3. `Run.invariant` — what every binding that a step makes keeps is kept by a
       run; `Run.keeps` — so are the bindings it began with.
    4. `Run.acyclic`, `Run.nodup`, `Run.anonymous_free` — a run closes no circle,
       binds no variable twice, and never binds the anonymous variable.
    5. `Run.holds` — what holds of all terms of the equations and the bindings,
       and of the parts of every term it holds of, holds of all terms in the end.
-/

namespace Clausal

open Term (anonymousName)

namespace Substitution

/-- What a step can do with an equation, either side first. -/
inductive StepsTo (s : Substitution) : Term → Term → Step → Prop where
  | same {x y : Term} : (x == y) = true → StepsTo s x y (.replace [])
  | anonymous (t : Term) : StepsTo s (.var anonymousName) t (.replace [])
  | followed {v : String} {bound t : Term} : v ≠ anonymousName → t.isAnonymous = false →
    s.get? v = some bound → StepsTo s (.var v) t (.replace [(bound, t)])
  | followedRight {v : String} {bound t : Term} : v ≠ anonymousName → t.isAnonymous = false →
    s.get? v = some bound → StepsTo s t (.var v) (.replace [(t, bound)])
  | bound {v : String} {t : Term} : v ≠ anonymousName → t.isAnonymous = false →
    s.get? v = none → (∀ w ∈ t.vars, ¬ s.Reaches v w) → StepsTo s (.var v) t (.bind v t)
  | circle {v w f : String} {args : List Term} : v ≠ anonymousName →
    w ∈ (Term.compound f args).vars → s.Reaches v w → StepsTo s (.var v) (.compound f args) .fail
  | parts {f : String} {xs ys : List Term} : xs.length = ys.length →
    StepsTo s (.compound f xs) (.compound f ys) (.replace (xs.zip ys))
  | clash {x y : Term} : (x == y) = false → x.isVariable = false → y.isVariable = false →
    (∀ f xs ys, x = .compound f xs → y = .compound f ys → xs.length ≠ ys.length) →
    StepsTo s x y .fail
  | swapped {x y : Term} {r : Step} : StepsTo s y x r → StepsTo s x y r

theorem eq_anonymous {t : Term} (h : t.isAnonymous = true) : t = .var anonymousName := by
  cases t with
  | var name =>
    rw [Term.isAnonymous, beq_iff_eq] at h
    rw [h]
  | _ => cases h

theorem stepVar_stepsTo {s : Substitution} {v : String} {t : Term}
    (hne : (Term.var v == t) = false) : StepsTo s (.var v) t (s.stepVar v t) := by
  unfold stepVar
  split
  · rename_i hanonymous
    rcases Bool.or_eq_true_iff.mp hanonymous with hv | ht
    · rw [beq_iff_eq.mp hv]
      exact .anonymous t
    · rw [eq_anonymous ht]
      exact .swapped (.anonymous _)
  · rename_i hnamed
    have hv : v ≠ anonymousName := fun h => hnamed (by simp [h])
    have ht : t.isAnonymous = false := by
      cases h : t.isAnonymous with
      | false => rfl
      | true => exact absurd (by simp [h]) hnamed
    split
    · rename_i bound hbound
      exact .followed hv ht hbound
    · rename_i bound hfree hbound
      obtain ⟨u, rfl, hu⟩ := boundTerm?_eq_some hbound
      have hu' : u ≠ anonymousName := by
        rintro rfl
        cases ht
      exact .followedRight hu' (by simpa [Term.isAnonymous] using hv) hu
    · rename_i hfree hother
      split
      · rename_i hlead
        obtain ⟨w, hw, hreach⟩ := leadTo_iff.mp hlead
        cases t with
        | var u =>
          -- A free variable is reached from itself alone, and then the sides are equal.
          rw [Term.vars, List.mem_singleton] at hw
          subst hw
          rw [hreach.eq_of_free hother, Term.equal_self_iff.mpr rfl] at hne
          cases hne
        | compound f args => exact .circle hv hw hreach
        | atom n => cases hw
        | integer i => cases hw
        | float x => cases hw
      · rename_i hfar
        exact .bound hv ht hfree fun w hw hreach => hfar (leadTo_iff.mpr ⟨w, hw, hreach⟩)

/-- The step that is taken is one of those listed. -/
theorem step_stepsTo (s : Substitution) (x y : Term) : StepsTo s x y (s.step x y) := by
  unfold step
  split
  · rename_i hsame
    exact .same hsame
  · rename_i hne
    rw [Bool.not_eq_true] at hne
    split
    · exact stepVar_stepsTo hne
    · rename_i v hx
      exact .swapped (stepVar_stepsTo (by rwa [Term.equal_comm]))
    · split
      · rename_i hsame
        obtain ⟨rfl, hlength⟩ := hsame
        exact .parts hlength
      · rename_i hdiffer
        refine .clash hne rfl rfl ?_
        intro f xs ys hx hy hlength
        obtain ⟨rfl, rfl⟩ := Term.compound.inj hx
        obtain ⟨rfl, rfl⟩ := Term.compound.inj hy
        exact hdiffer ⟨rfl, hlength⟩
    · rename_i hx hy hcompound
      refine .clash hne ?_ ?_ ?_
      · cases x with
        | var v => exact absurd rfl (hx v)
        | _ => rfl
      · cases y with
        | var v => exact absurd rfl (hy v)
        | _ => rfl
      · intro f xs ys hx hy
        exact absurd hy (hcompound f xs f ys hx)

theorem stepsTo_of_step {s : Substitution} {x y : Term} {r : Step} (h : s.step x y = r) :
    StepsTo s x y r :=
  h ▸ step_stepsTo s x y

/-! ## Runs -/

/-- A chain of steps from equations and bindings to the bindings in the end. -/
inductive Run : List Equation → Substitution → Substitution → Prop where
  | done (s : Substitution) : Run [] s s
  | replace {x y : Term} {rest more : List Equation} {s final : Substitution} :
    s.step x y = .replace more → Run (more ++ rest) s final → Run ((x, y) :: rest) s final
  | bind {x y t : Term} {v : String} {rest : List Equation} {s final : Substitution} :
    s.step x y = .bind v t → Run rest (s.bind v t) final → Run ((x, y) :: rest) s final

theorem run_of_solve {scope : List String} {equations : List Equation} {s final : Substitution}
    {h : Fits scope equations s} (hsolve : solve scope equations s h = some final) :
    Run equations s final := by
  fun_induction solve scope equations s h with
  | case1 s h _ =>
    obtain rfl := Option.some.inj hsolve
    exact .done s
  | case2 s x y rest h hstep _ => cases hsolve
  | case3 s x y rest h more hstep _ ih => exact .replace hstep (ih hsolve)
  | case4 s x y rest h v t hstep _ ih => exact .bind hstep (ih hsolve)

theorem solve_of_run {scope : List String} {equations : List Equation} {s final : Substitution}
    (hrun : Run equations s final) (h : Fits scope equations s) :
    solve scope equations s h = some final := by
  induction hrun with
  | done s => rw [solve]
  | replace hstep _ ih =>
    rw [solve]
    split
    · rename_i heq
      rw [hstep] at heq
      cases heq
    · rename_i heq
      rw [hstep] at heq
      obtain rfl := Step.replace.inj heq
      exact ih _
    · rename_i heq
      rw [hstep] at heq
      cases heq
  | bind hstep _ ih =>
    rw [solve]
    split
    · rename_i heq
      rw [hstep] at heq
      cases heq
    · rename_i heq
      rw [hstep] at heq
      cases heq
    · rename_i heq
      rw [hstep] at heq
      obtain ⟨rfl, rfl⟩ := Step.bind.inj heq
      exact ih _

/-- Meeting equations comes to the end of a run. -/
theorem extend_eq_some_iff {equations : List Equation} {s final : Substitution} :
    s.extend equations = some final ↔ s.isCyclic = false ∧ Run equations s final := by
  unfold extend
  split
  · rename_i hcyclic
    exact ⟨fun h => ⟨hcyclic, run_of_solve h⟩, fun h => solve_of_run h.2 _⟩
  · rename_i hcyclic
    exact ⟨fun h => absurd h (Option.some_ne_none final).symm, fun h => absurd h.1 hcyclic⟩

/-- Unification comes to the end of a run. -/
theorem unify_eq_some_iff {s final : Substitution} {x y : Term} :
    s.unify x y = some final ↔ s.isCyclic = false ∧ Run [(x, y)] s final :=
  extend_eq_some_iff

/-! ## What a step binds -/

theorem StepsTo.of_bind {s : Substitution} {x y t : Term} {v : String}
    (h : StepsTo s x y (.bind v t)) :
    v ≠ anonymousName ∧ s.get? v = none ∧ (∀ w ∈ t.vars, ¬ s.Reaches v w) ∧
      (x = .var v ∧ y = t ∨ y = .var v ∧ x = t) := by
  generalize hr : Step.bind v t = r at h
  induction h with
  | bound hv _ hfree hfar =>
    obtain ⟨rfl, rfl⟩ := Step.bind.inj hr
    exact ⟨hv, hfree, hfar, Or.inl ⟨rfl, rfl⟩⟩
  | swapped _ ih =>
    obtain ⟨hv, hfree, hfar, hsides⟩ := ih hr
    exact ⟨hv, hfree, hfar, hsides.symm⟩
  | _ => cases hr

namespace Run

variable {equations : List Equation} {s final : Substitution}

/-- What every binding of a free variable keeps is kept by a run: a step binds a
variable with a name, that is free and that its term does not lead back to. -/
theorem invariant {P : Substitution → Prop} (h : Run equations s final)
    (hbind : ∀ (s : Substitution) (v : String) (t : Term), v ≠ anonymousName → s.get? v = none →
      (∀ w ∈ t.vars, ¬ s.Reaches v w) → P s → P (s.bind v t)) (hs : P s) : P final := by
  induction h with
  | done s => exact hs
  | replace _ _ ih => exact ih hs
  | bind hstep _ ih =>
    obtain ⟨hv, hfree, hfar, _⟩ := (stepsTo_of_step hstep).of_bind
    exact ih (hbind _ _ _ hv hfree hfar hs)

/-- A run keeps the bindings it began with. -/
theorem keeps (h : Run equations s final) {v : String} {t : Term} (hv : s.get? v = some t) :
    final.get? v = some t := by
  refine h.invariant (P := fun s => s.get? v = some t) (fun s u b _ hfree _ hv => ?_) hv
  have hne : v ≠ u := by
    rintro rfl
    rw [hfree] at hv
    cases hv
  rw [get?_bind hfree, if_neg hne, hv]

theorem acyclic (h : Run equations s final) (hs : s.Acyclic) : final.Acyclic :=
  h.invariant (fun _ _ _ _ hfree hfar hs => hs.bind hfree hfar) hs

theorem anonymous_free (h : Run equations s final) (hs : s.get? anonymousName = none) :
    final.get? anonymousName = none := by
  refine h.invariant (P := fun s => s.get? anonymousName = none) (fun s v t hv hfree _ hs => ?_) hs
  rw [get?_bind hfree, if_neg hv.symm, hs]

theorem nodup (h : Run equations s final) (hs : s.domain.Nodup) : final.domain.Nodup :=
  h.invariant (fun _ _ t _ hfree _ hs => nodup_bind t hs hfree) hs

end Run

/-- The property holds of all terms of the equations, of the bound terms and of
the bound variables. -/
structure Holds (P : Term → Prop) (equations : List Equation) (s : Substitution) : Prop where
  equations : ∀ e ∈ equations, P e.1 ∧ P e.2
  bindings : ∀ b ∈ s.bindings, P (.var b.1) ∧ P b.2

theorem Holds.get? {P : Term → Prop} {equations : List Equation} {s : Substitution} {v : String}
    {t : Term} (h : Holds P equations s) (hv : s.get? v = some t) : P t :=
  (h.bindings _ (lookup_mem hv)).2

/-- A step leaves parts of the equation and bound terms. -/
theorem StepsTo.of_replace {P : Term → Prop} {s : Substitution} {x y : Term} {more : List Equation}
    (h : StepsTo s x y (.replace more))
    (hparts : ∀ f args, P (.compound f args) → ∀ t ∈ args, P t) (hx : P x) (hy : P y)
    (hbound : ∀ v t, s.get? v = some t → P t) : ∀ e ∈ more, P e.1 ∧ P e.2 := by
  generalize hr : Step.replace more = r at h
  induction h with
  | same _ =>
    obtain rfl := Step.replace.inj hr
    exact fun e he => absurd he List.not_mem_nil
  | anonymous _ =>
    obtain rfl := Step.replace.inj hr
    exact fun e he => absurd he List.not_mem_nil
  | followed _ _ hv =>
    obtain rfl := Step.replace.inj hr
    intro e he
    rw [List.mem_singleton.mp he]
    exact ⟨hbound _ _ hv, hy⟩
  | followedRight _ _ hv =>
    obtain rfl := Step.replace.inj hr
    intro e he
    rw [List.mem_singleton.mp he]
    exact ⟨hx, hbound _ _ hv⟩
  | parts _ =>
    obtain rfl := Step.replace.inj hr
    intro e he
    obtain ⟨h₁, h₂⟩ := List.of_mem_zip he
    exact ⟨hparts _ _ hx _ h₁, hparts _ _ hy _ h₂⟩
  | swapped _ ih => exact ih hy hx hr
  | bound _ _ _ _ => cases hr
  | circle _ _ _ => cases hr
  | clash _ _ _ _ => cases hr

/-- What holds of every part of a term it holds of is kept by a run. -/
theorem Run.holds {P : Term → Prop} {equations : List Equation} {s final : Substitution}
    (h : Run equations s final) (hparts : ∀ f args, P (.compound f args) → ∀ t ∈ args, P t)
    (hs : Holds P equations s) : Holds P [] final := by
  induction h with
  | done s => exact hs
  | @replace x y rest more s final hstep _ ih =>
    refine ih ⟨fun e he => ?_, hs.bindings⟩
    obtain ⟨hx, hy⟩ := hs.equations (x, y) List.mem_cons_self
    rcases List.mem_append.mp he with he | he
    · exact (stepsTo_of_step hstep).of_replace hparts hx hy (fun v t hv => hs.get? hv) e he
    · exact hs.equations e (List.mem_cons_of_mem _ he)
  | @bind x y t v rest s final hstep _ ih =>
    refine ih ⟨fun e he => hs.equations e (List.mem_cons_of_mem _ he), fun b hb => ?_⟩
    obtain ⟨_, _, _, hsides⟩ := (stepsTo_of_step hstep).of_bind
    have hpair := hs.equations (x, y) List.mem_cons_self
    rw [Substitution.bind] at hb
    rcases List.mem_append.mp hb with hb | hb
    · exact hs.bindings b hb
    · rw [List.mem_singleton.mp hb]
      rcases hsides with ⟨rfl, rfl⟩ | ⟨rfl, rfl⟩
      · exact hpair
      · exact hpair.symm

end Substitution

open Substitution

theorem mgu_eq_some_iff {x y : Term} {s : Substitution} :
    mgu x y = some s ↔ ∃ final : Substitution, Run [(x, y)] ∅ final ∧ s = final.resolved := by
  have hcyclic := isCyclic_of_acyclic nodup_empty acyclic_empty
  unfold mgu
  rw [Option.map_eq_some_iff]
  constructor
  · rintro ⟨final, hunify, rfl⟩
    exact ⟨final, (unify_eq_some_iff.mp hunify).2, rfl⟩
  · rintro ⟨final, hrun, rfl⟩
    exact ⟨final, unify_eq_some_iff.mpr ⟨hcyclic, hrun⟩, rfl⟩

end Clausal
