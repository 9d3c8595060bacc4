import Clausal.Proofs.Substitution.Mirror
import Clausal.Proofs.Unification.Calls
import Clausal.Proofs.Unification.Sound
import Mathlib.Data.List.Zip

/-
  Symmetry of unification — which side stands where does not decide whether two
  terms unify

  With the anonymous variable matching is not transitive, so that two terms may be
  unified without having an instance in common, and symmetry does not follow from
  generality. It is shown by running both ways round side by side. The two runs
  bind free variables to each other in opposite directions, and may follow
  different variables, but each makes the same ends one, so that their bindings
  mirror each other: they meet the same clashes and the same circles.

  What is proved:
    1. `solves_of_walk` — equations can be met when they can be met for the terms
       that their sides walk to, either way round.
    2. `StepsTo.mirrored` and `Binds.solves_mirrored` — a step in the one run, which
       leaves equations or binds a variable, is matched in the other.
    3. `Run.mirrored` — so is a whole run.
    4. `mgu_isSome_comm` — two terms unify exactly when they do with the sides
       exchanged.
-/

namespace Clausal

open List (Forall₂)
open Term (anonymousName)

namespace Substitution

/-! ## Equations that can be met -/

/-- Some run meets all the equations. -/
def Solves (equations : List Equation) (s : Substitution) : Prop := ∃ final, Run equations s final

/-- After this step the equations left can be met. -/
def Step.Solves (rest : List Equation) (s : Substitution) : Step → Prop
  | .fail => False
  | .replace more => Substitution.Solves (more ++ rest) s
  | .bind v t => Substitution.Solves rest (s.bind v t)

variable {s : Substitution} {x y : Term} {rest : List Equation}

theorem solves_cons : Solves ((x, y) :: rest) s ↔ (s.step x y).Solves rest s := by
  constructor
  · rintro ⟨final, hrun⟩
    cases hrun with
    | replace hstep hrun =>
      rw [hstep]
      exact ⟨final, hrun⟩
    | bind hstep hrun =>
      rw [hstep]
      exact ⟨final, hrun⟩
  · intro h
    cases hstep : s.step x y with
    | fail =>
      rw [hstep] at h
      exact h.elim
    | replace more =>
      rw [hstep] at h
      exact h.imp fun final hrun => .replace hstep hrun
    | bind v t =>
      rw [hstep] at h
      exact h.imp fun final hrun => .bind hstep hrun

theorem solves_of_same (h : (x == y) = true) : Solves ((x, y) :: rest) s ↔ Solves rest s := by
  rw [solves_cons, step_of_same h]
  rfl

theorem step_of_anonymous (h : x.isAnonymous = true ∨ y.isAnonymous = true) :
    s.step x y = .replace [] := by
  cases hsame : x == y with
  | true => exact step_of_same hsame
  | false =>
    cases x with
    | var v =>
      rw [step_of_left hsame]
      exact stepVar_of_anyway (by simpa [anyway, Term.isAnonymous] using h)
    | _ =>
      obtain rfl := eq_anonymous (h.resolve_left (by simp [Term.isAnonymous]))
      rw [step_of_right hsame rfl]
      exact stepVar_of_anyway (by simp [anyway])

theorem solves_of_anonymous (h : x.isAnonymous = true ∨ y.isAnonymous = true) :
    Solves ((x, y) :: rest) s ↔ Solves rest s := by
  rw [solves_cons, step_of_anonymous h]
  rfl

/-! ## Sides that are walked -/

theorem Final.not_hasNaN_walk (h : Final s) {t : Term} (ht : t.hasNaN = false) :
    (s.walk t).hasNaN = false := by
  obtain ⟨rank, hr⟩ := h.acyclic
  induction t using hr.indWalk with
  | other t hvar => rwa [walk_of_not_variable hvar]
  | free v hv => rwa [walk_free hv]
  | bound v t hv ih =>
    rw [hr.walk_bound hv]
    exact ih (h.bound v t hv)

theorem Final.walk_equal (h : Final s) (hxy : (x == y) = true) :
    (s.walk x == s.walk y) = true := by
  cases hx : x.isVariable with
  | true =>
    obtain ⟨v, rfl⟩ := Term.isVariable_iff.mp hx
    obtain rfl := Term.var_equal_iff.mp hxy
    exact Term.equal_self_iff.mpr (h.not_hasNaN_walk rfl)
  | false =>
    have hy : y.isVariable = false := by rwa [← Term.isVariable_of_equal hxy]
    rwa [walk_of_not_variable hx, walk_of_not_variable hy]

theorem walk_of_settled (h : s.boundTerm? x = none) : s.walk x = x := by
  cases x with
  | var v => exact walk_free h
  | _ => exact walk_of_not_variable rfl

theorem Final.isAnonymous_walk (h : Final s) (hx : x.isAnonymous = true) :
    (s.walk x).isAnonymous = true := by
  obtain rfl := eq_anonymous hx
  rwa [walk_free h.anonymous]

/-- An equation can be met when it can be met for the ends of its sides, either way
round: where only the right side is a variable a step exchanges the sides. -/
theorem solves_of_walk (hs : Final s) (hxy : Solves ((s.walk x, s.walk y) :: rest) s)
    (hyx : Solves ((s.walk y, s.walk x) :: rest) s) : Solves ((x, y) :: rest) s := by
  obtain ⟨rank, hr⟩ := hs.acyclic
  -- The induction is on the weight of both sides; each binding followed takes one off.
  induction hweight : s.weight x + s.weight y using Nat.strongRecOn generalizing x y with
  | ind n ih =>
    cases hsame : x == y with
    | true => exact (solves_of_same hsame).mpr ((solves_of_same (hs.walk_equal hsame)).mp hxy)
    | false =>
      by_cases hanonymous : x.isAnonymous = true ∨ y.isAnonymous = true
      · have hends := hanonymous.imp hs.isAnonymous_walk hs.isAnonymous_walk
        exact (solves_of_anonymous hanonymous).mpr ((solves_of_anonymous hends).mp hxy)
      cases hx : x.isVariable with
      | true =>
        obtain ⟨v, rfl⟩ := Term.isVariable_iff.mp hx
        have hany : anyway v y = false := by simpa [anyway, Term.isAnonymous] using hanonymous
        rw [solves_cons, step_of_left hsame]
        cases hv : s.get? v with
        | some t =>
          have hlighter := hr.weight_bound hv
          rw [hr.walk_bound hv] at hxy hyx
          rw [stepVar_of_bound hany hv]
          exact ih _ (by omega) hxy hyx rfl
        | none =>
          cases hy : s.boundTerm? y with
          | some t =>
            obtain ⟨u, rfl, hu⟩ := boundTerm?_eq_some hy
            have hlighter := hr.weight_bound hu
            rw [hr.walk_bound hu] at hxy hyx
            rw [stepVar_of_boundTerm hany hv hy]
            exact ih _ (by omega) hxy hyx rfl
          | none =>
            rwa [walk_free hv, walk_of_settled hy, solves_cons, step_of_left hsame] at hxy
      | false =>
        cases hy : y.isVariable with
        | true =>
          obtain ⟨v, rfl⟩ := Term.isVariable_iff.mp hy
          have hany : anyway v x = false := by
            simpa [anyway, Term.isAnonymous, or_comm] using hanonymous
          cases hv : s.get? v with
          | some t =>
            have hlighter := hr.weight_bound hv
            rw [hr.walk_bound hv] at hxy hyx
            rw [solves_cons, step_of_right hsame hx, stepVar_of_bound hany hv]
            exact ih _ (by omega) hyx hxy rfl
          | none => rwa [walk_of_not_variable hx, walk_free hv] at hxy
        | false => rwa [walk_of_not_variable hx, walk_of_not_variable hy] at hxy

/-! ## Steps and their mirror -/

/-- The bindings at an earlier point of a run that leaves such bindings. -/
theorem Final.earlier {final : Substitution} (h : Final final)
    (hkeeps : ∀ v t, s.get? v = some t → final.get? v = some t) : Final s where
  acyclic :=
    have ⟨rank, hr⟩ := h.acyclic
    ⟨rank, fun v t hv => hr v t (hkeeps v t hv)⟩
  bound v t hv := h.bound v t (hkeeps v t hv)
  anonymous := by
    cases hv : s.get? anonymousName with
    | none => rfl
    | some t => rw [← hkeeps _ _ hv, h.anonymous]

section

variable {s₁ s₂ : Substitution} {a b : Term}

/-- Terms that agree with equal ones walk to equal ends. -/
theorem Agree.equal (hm : Mirrors s₁ s₂) (ha : Agree s₁ s₂ x a) (hb : Agree s₁ s₂ y b)
    (h : (s₁.walk x == s₁.walk y) = true) : (s₂.walk a == s₂.walk b) = true := by
  cases hx : (s₁.walk x).isVariable with
  | true =>
    obtain ⟨v, hv⟩ := Term.isVariable_iff.mp hx
    have hend : s₁.walk x = s₁.walk y := by
      rw [hv] at h ⊢
      exact Term.var_equal_iff.mp h
    have hvar : (s₂.walk b).isVariable = true := by rw [hb.isVariable hm, ← hend, hx]
    obtain ⟨w, hw⟩ := Term.isVariable_iff.mp hvar
    rw [(ha.walk_iff hm hb).mp hend, hw]
    exact Term.equal_self_iff.mpr rfl
  | false =>
    have hy : (s₁.walk y).isVariable = false := by rwa [← Term.isVariable_of_equal h]
    rwa [ha.term hm hx, hb.term hm hy]

theorem Agree.anonymous (h₂ : Final s₂) (hm : Mirrors s₁ s₂)
    (h : Agree s₁ s₂ (.var anonymousName) b) : (s₂.walk b).isAnonymous = true := by
  rw [(h.walk_iff hm (agree_self s₁ s₂ (.var anonymousName))).mp rfl, walk_free h₂.anonymous]
  rfl

variable {e₁ e₂ : Equation}

theorem Paired.swap (h : Paired s₁ s₂ (x, y) e₂) : Paired s₁ s₂ (y, x) e₂ :=
  (Or.symm h).imp And.symm And.symm

theorem Paired.solves_of_same (h₁ : Final s₁) (h₂ : Final s₂) (hm : Mirrors s₁ s₂)
    (hpair : Paired s₁ s₂ e₁ e₂) (hsame : (e₁.1 == e₁.2) = true) (hrest : Solves rest s₂) :
    Solves (e₂ :: rest) s₂ := by
  have hends := h₁.walk_equal hsame
  have hequal : (s₂.walk e₂.1 == s₂.walk e₂.2) = true := by
    rcases hpair with ⟨hl, hr⟩ | ⟨hl, hr⟩
    · exact hl.equal hm hr hends
    · exact Term.equal_symm (hl.equal hm hr hends)
  exact solves_of_walk h₂ ((Substitution.solves_of_same hequal).mpr hrest)
    ((Substitution.solves_of_same (Term.equal_symm hequal)).mpr hrest)

theorem Paired.solves_of_anonymous (h₂ : Final s₂) (hm : Mirrors s₁ s₂)
    (hpair : Paired s₁ s₂ (.var anonymousName, y) e₂) (hrest : Solves rest s₂) :
    Solves (e₂ :: rest) s₂ := by
  have hends : (s₂.walk e₂.1).isAnonymous = true ∨ (s₂.walk e₂.2).isAnonymous = true :=
    hpair.imp (fun h => h.1.anonymous h₂ hm) fun h => h.1.anonymous h₂ hm
  exact solves_of_walk h₂ ((Substitution.solves_of_anonymous hends).mpr hrest)
    ((Substitution.solves_of_anonymous hends.symm).mpr hrest)

theorem solves_of_parts {f : String} {xs ys : List Term}
    (hne : (Term.compound f xs == .compound f ys) = false) (hlength : xs.length = ys.length)
    (h : Solves (xs.zip ys ++ rest) s) : Solves ((.compound f xs, .compound f ys) :: rest) s := by
  rw [solves_cons, step_of_parts hne hlength]
  exact h

theorem Paired.solves_of_parts {f : String} {xs ys : List Term} (h₂ : Final s₂)
    (hm : Mirrors s₁ s₂) (hpair : Paired s₁ s₂ (.compound f xs, .compound f ys) e₂)
    (hne : (Term.compound f xs == .compound f ys) = false) (hlength : xs.length = ys.length)
    (hmore : ∀ more, Forall₂ (Paired s₁ s₂) (xs.zip ys) more → Solves (more ++ rest) s₂) :
    Solves (e₂ :: rest) s₂ := by
  have hne' : (Term.compound f ys == .compound f xs) = false := by rwa [Term.equal_comm]
  have hforth : Solves ((.compound f xs, .compound f ys) :: rest) s₂ := by
    refine Substitution.solves_of_parts hne hlength (hmore _ (List.forall₂_same.mpr fun e _ => ?_))
    exact Or.inl ⟨agree_self s₁ s₂ e.1, agree_self s₁ s₂ e.2⟩
  have hback : Solves ((.compound f ys, .compound f xs) :: rest) s₂ := by
    refine Substitution.solves_of_parts hne' hlength.symm (hmore _ ?_)
    rw [← List.zip_swap, List.forall₂_map_left_iff]
    exact List.forall₂_same.mpr fun e _ => Or.inr ⟨agree_self s₁ s₂ e.2, agree_self s₁ s₂ e.1⟩
  have hend : ∀ {zs : List Term} {b : Term}, Agree s₁ s₂ (.compound f zs) b →
      s₂.walk b = .compound f zs := by
    intro zs b h
    have hself : s₁.walk (.compound f zs) = .compound f zs := walk_of_not_variable rfl
    rw [h.term hm (by rw [hself]; rfl), hself]
  obtain ⟨a, b⟩ := e₂
  rcases hpair with ⟨hx, hy⟩ | ⟨hx, hy⟩
  · exact solves_of_walk h₂ (by rwa [hend hx, hend hy]) (by rwa [hend hx, hend hy])
  · exact solves_of_walk h₂ (by rwa [hend hx, hend hy]) (by rwa [hend hx, hend hy])

/-- A step that leaves equations in the one run is matched in the other: paired
equations are left to be met there. -/
theorem StepsTo.mirrored {more : List Equation} (h : StepsTo s₁ x y (.replace more))
    (h₁ : Final s₁) (h₂ : Final s₂) (hm : Mirrors s₁ s₂) (hne : (x == y) = false)
    (hpair : Paired s₁ s₂ (x, y) e₂)
    (hmore : ∀ more₂, Forall₂ (Paired s₁ s₂) more more₂ → Solves (more₂ ++ rest) s₂) :
    Solves (e₂ :: rest) s₂ := by
  obtain ⟨rank, hr⟩ := h₁.acyclic
  generalize hreplace : Step.replace more = r at h
  induction h with
  | same hsame =>
    rw [hsame] at hne
    cases hne
  | anonymous t =>
    obtain rfl := Step.replace.inj hreplace
    exact hpair.solves_of_anonymous h₂ hm (hmore [] .nil)
  | followed _ _ hv =>
    obtain rfl := Step.replace.inj hreplace
    have hwalk := (hr.walk_bound hv).symm
    exact hmore [e₂] (.cons (hpair.imp (And.imp_left (·.of_walk hwalk))
      (And.imp_left (·.of_walk hwalk))) .nil)
  | followedRight _ _ hv =>
    obtain rfl := Step.replace.inj hreplace
    have hwalk := (hr.walk_bound hv).symm
    exact hmore [e₂] (.cons (hpair.imp (And.imp_right (·.of_walk hwalk))
      (And.imp_right (·.of_walk hwalk))) .nil)
  | parts hlength =>
    obtain rfl := Step.replace.inj hreplace
    exact hpair.solves_of_parts h₂ hm hne hlength hmore
  | swapped _ ih => exact ih (by rwa [Term.equal_comm]) hpair.swap hreplace
  | bound _ _ _ _ => cases hreplace
  | circle _ _ _ => cases hreplace
  | clash _ _ _ _ => cases hreplace

/-! ## Bindings and their mirror -/

theorem settled_of_walk (hs : s.Acyclic) (h : s.walk x = x) : s.boundTerm? x = none := by
  cases x with
  | var v => exact free_of_walk hs h
  | _ => rfl

/-- A step binds a variable only to a term from which there is nothing to
follow. -/
theorem step_bind_settled {v : String} {t : Term} (h : s.step x y = .bind v t) :
    s.boundTerm? t = none ∧ t.isAnonymous = false := by
  have key : ∀ {w : String} {u : Term}, s.stepVar w u = .bind v t →
      s.boundTerm? t = none ∧ t.isAnonymous = false := by
    intro w u hstep
    unfold stepVar at hstep
    split at hstep
    · cases hstep
    · rename_i hany
      rw [Bool.not_eq_true, Bool.or_eq_false_iff] at hany
      split at hstep
      · cases hstep
      · cases hstep
      · rename_i hu
        split at hstep
        · cases hstep
        · obtain ⟨_, rfl⟩ := Step.bind.inj hstep
          exact ⟨hu, hany.2⟩
  unfold step at h
  split at h
  · cases h
  · split at h
    · exact key h
    · exact key h
    · split at h <;> cases h
    · cases h

/-- The variable `v` is free and has a name, and from the term `t`, which is not the
anonymous variable, there is nothing to follow and no way back to `v`. -/
structure Binds (s : Substitution) (v : String) (t : Term) : Prop where
  free : s.get? v = none
  named : v ≠ anonymousName
  settled : s.boundTerm? t = none
  notAnonymous : t.isAnonymous = false
  far : ∀ w ∈ t.vars, ¬ Reaches s v w

theorem binds_of_step {v : String} {t : Term} (h : s.step x y = .bind v t) :
    Binds s v t ∧ (x = .var v ∧ y = t ∨ y = .var v ∧ x = t) := by
  obtain ⟨hname, hfree, hfar, hsides⟩ := (stepsTo_of_step h).of_bind
  obtain ⟨hsettled, hanonymous⟩ := step_bind_settled h
  exact ⟨⟨hfree, hname, hsettled, hanonymous, hfar⟩, hsides⟩

section

variable {v w : String} {t u : Term}

theorem Binds.stepVar (h : Binds s v t) : s.stepVar v t = .bind v t := by
  have hany : anyway v t = false := by simp [anyway, h.named, h.notAnonymous]
  rw [stepVar_of_free hany h.free h.settled, if_neg]
  rw [leadTo_iff]
  rintro ⟨w, hw, hreach⟩
  exact h.far w hw hreach

theorem Binds.ne (h : Binds s v t) : (Term.var v == t) = false := by
  cases hsame : Term.var v == t with
  | false => rfl
  | true =>
    obtain rfl := Term.var_equal_iff.mp hsame
    exact absurd .here (h.far v (by simp [Term.vars]))

/-- Of two free variables either can be bound to the other. -/
theorem Binds.flip (h : Binds s v (.var w)) : Binds s w (.var v) where
  free := h.settled
  named := by simpa [Term.isAnonymous] using h.notAnonymous
  settled := h.free
  notAnonymous := by simpa [Term.isAnonymous] using h.named
  far x hx hreach := by
    obtain rfl : x = v := by simpa [Term.vars] using hx
    have hsame := hreach.eq_of_free h.free
    exact h.far w (by simp [Term.vars]) (hsame ▸ .here)

theorem Binds.merges (hs : s.Acyclic) (h : Binds s v t) : Merges s (s.bind v t) (.var v) t :=
  merges_bind hs h.free h.far (walk_of_settled h.settled)

theorem Final.bind (h : Final s) (hb : Binds s v t) (ht : t.hasNaN = false) :
    Final (s.bind v t) where
  acyclic := h.acyclic.bind hb.free hb.far
  bound w u hw := by
    rw [get?_bind hb.free] at hw
    split at hw
    · rwa [← Option.some.inj hw]
    · exact h.bound w u hw
  anonymous := by rw [get?_bind hb.free, if_neg hb.named.symm, h.anonymous]

theorem Binds.solves (h : Binds s v t) (hrest : Solves rest (s.bind v t)) :
    Solves ((.var v, t) :: rest) s := by
  rw [solves_cons, step_of_left h.ne, h.stepVar]
  exact hrest

theorem Binds.solves_right (h : Binds s v t) (ht : t.isVariable = false)
    (hrest : Solves rest (s.bind v t)) : Solves ((t, .var v) :: rest) s := by
  rw [solves_cons, step_of_right (by rw [Term.equal_comm, h.ne]) ht, h.stepVar]
  exact hrest

/-- Where two terms agree from which there is nothing to follow, and one is no
variable, they are one term. -/
theorem Agree.eq_of_settled (hm : Mirrors s₁ s₂) (h : Agree s₁ s₂ t u)
    (ht : s₁.boundTerm? t = none) (hu : s₂.boundTerm? u = none) (hvar : u.isVariable = false) :
    t = u := by
  have hend := h.symm.term hm.symm (by rw [walk_of_settled hu, hvar])
  rwa [walk_of_settled ht, walk_of_settled hu] at hend

/-- What can be bound in the one substitution can be bound in the other, for terms
that agree. -/
theorem Binds.mirrored (h : Binds s₁ v t) (h₁ : Final s₁) (h₂ : Final s₂) (hm : Mirrors s₁ s₂)
    (hvw : Agree s₁ s₂ (.var v) (.var w)) (hw : s₂.get? w = none) (htu : Agree s₁ s₂ t u)
    (hu : s₂.boundTerm? u = none) : Binds s₂ w u where
  free := hw
  named := by
    rintro rfl
    have hsame := (hvw.walk_iff hm (agree_self s₁ s₂ (.var anonymousName))).mpr rfl
    rw [walk_free h.free, walk_free h₁.anonymous] at hsame
    exact h.named (Term.var.inj hsame)
  settled := hu
  notAnonymous := by
    by_contra hanonymous
    obtain rfl := eq_anonymous ((Bool.not_eq_false _).mp hanonymous)
    have hend := htu.symm.anonymous h₁ hm.symm
    rw [walk_of_settled h.settled, h.notAnonymous] at hend
    cases hend
  far x hx hreach := by
    cases hvar : u.isVariable with
    | false =>
      obtain rfl := htu.eq_of_settled hm h.settled hu hvar
      exact h.far x hx (hvw.reaches hm h₁.acyclic h₂.acyclic h.free hreach)
    | true =>
      -- A free variable is reached from itself alone, and then `v` and `t` agree with it.
      obtain ⟨y, rfl⟩ := Term.isVariable_iff.mp hvar
      obtain rfl : x = y := by simpa [Term.vars] using hx
      obtain rfl := hreach.eq_of_free hu
      have hsame := (hvw.walk_iff hm htu).mpr rfl
      rw [walk_free h.free, walk_of_settled h.settled] at hsame
      exact Bool.false_ne_true (h.ne.symm.trans (Term.var_equal_iff.mpr hsame))

/-- The other run can go on from all bindings that mirror those of the one run after
its step and leave paired what was. -/
def GoesOn (s₁ s₁' s₂ : Substitution) (rest : List Equation) : Prop :=
  ∀ s₂', Final s₂' → Mirrors s₁' s₂' → (∀ e e', Paired s₁ s₂ e e' → Paired s₁' s₂' e e') →
    Solves rest s₂'

theorem Binds.goesOn (h : Binds s₁ v t) (hb : Binds s₂ w u) (h₁ : Final s₁) (h₂ : Final s₂)
    (hm : Mirrors s₁ s₂) (hu : u.hasNaN = false) (hpair : Paired s₁ s₂ (.var v, t) (.var w, u))
    (hrest : GoesOn s₁ (s₁.bind v t) s₂ rest) : Solves rest (s₂.bind w u) := by
  have hmerges := h.merges h₁.acyclic
  have hmerges₂ := hb.merges h₂.acyclic
  exact hrest _ (h₂.bind hb hu) (hm.merge hmerges hmerges₂ hpair) fun _ _ he =>
    he.merge hmerges hmerges₂

/-- Where the one run binds `v` to `t`, the other binds one of the two ends that agree
with them to the other, whichever side it meets first. -/
theorem Binds.solves_ends {p q : Term} (h : Binds s₁ v t) (h₁ : Final s₁) (h₂ : Final s₂)
    (hm : Mirrors s₁ s₂) (ht : t.hasNaN = false) (hp : Agree s₁ s₂ (.var v) p)
    (hq : Agree s₁ s₂ t q) (hrest : GoesOn s₁ (s₁.bind v t) s₂ rest) :
    Solves ((s₂.walk p, s₂.walk q) :: rest) s₂ ∧ Solves ((s₂.walk q, s₂.walk p) :: rest) s₂ := by
  have hpvar : (s₂.walk p).isVariable = true := by
    rw [hp.isVariable hm, walk_free h.free]
    rfl
  obtain ⟨w, hw⟩ := Term.isVariable_iff.mp hpvar
  have hfree : s₂.get? w = none := free_of_walk h₂.acyclic hw
  have hvw : Agree s₁ s₂ (.var v) (.var w) :=
    (hp.symm.of_walk ((walk_free hfree).trans hw.symm)).symm
  have hq' : Agree s₁ s₂ t (s₂.walk q) := (hq.symm.of_walk (walk_walk h₂.acyclic q)).symm
  have hsettled := settled_of_walk h₂.acyclic (walk_walk h₂.acyclic q)
  have hb := h.mirrored h₁ h₂ hm hvw hfree hq' hsettled
  rw [hw]
  cases hvar : (s₂.walk q).isVariable with
  | false =>
    have hnumber : (s₂.walk q).hasNaN = false := by
      rwa [← hq'.eq_of_settled hm h.settled hsettled hvar]
    have hdone := h.goesOn hb h₁ h₂ hm hnumber (Or.inl ⟨hvw, hq'⟩) hrest
    exact ⟨hb.solves hdone, hb.solves_right hvar hdone⟩
  | true =>
    -- Both ends are variables: the side met first is bound to the other.
    obtain ⟨u, hu⟩ := Term.isVariable_iff.mp hvar
    rw [hu] at hb hq' ⊢
    have hforth := h.goesOn hb h₁ h₂ hm rfl (Or.inl ⟨hvw, hq'⟩) hrest
    have hback := h.goesOn hb.flip h₁ h₂ hm rfl (Or.inr ⟨hvw, hq'⟩) hrest
    exact ⟨hb.solves hforth, hb.flip.solves hback⟩

/-- A step that binds in the one run is matched in the other by one that makes the
same two ends one. -/
theorem Binds.solves_mirrored (h : Binds s₁ v t) (h₁ : Final s₁) (h₂ : Final s₂)
    (hm : Mirrors s₁ s₂) (ht : t.hasNaN = false) (hpair : Paired s₁ s₂ (.var v, t) e₂)
    (hrest : GoesOn s₁ (s₁.bind v t) s₂ rest) : Solves (e₂ :: rest) s₂ := by
  rcases hpair with ⟨hp, hq⟩ | ⟨hp, hq⟩
  · obtain ⟨hforth, hback⟩ := h.solves_ends h₁ h₂ hm ht hp hq hrest
    exact solves_of_walk h₂ hforth hback
  · obtain ⟨hforth, hback⟩ := h.solves_ends h₁ h₂ hm ht hp hq hrest
    exact solves_of_walk h₂ hback hforth

end

/-! ## Runs and their mirror -/

/-- A run is matched by a run from mirroring bindings on paired equations. -/
theorem Run.mirrored {equations equations₂ : List Equation} {final : Substitution}
    (hrun : Run equations s₁ final) (hfinal : Final final) (h₂ : Final s₂) (hm : Mirrors s₁ s₂)
    (hpaired : Forall₂ (Paired s₁ s₂) equations equations₂) : Solves equations₂ s₂ := by
  induction hrun generalizing s₂ equations₂ with
  | done s =>
    cases hpaired
    exact ⟨s₂, .done s₂⟩
  | @replace x y rest more s final hstep hrun ih =>
    have h₁ : Final s := hfinal.earlier fun v t hv => hrun.keeps hv
    cases hpaired with
    | cons hpair hrest =>
      cases hsame : x == y with
      | true =>
        rw [step_of_same hsame] at hstep
        obtain rfl := Step.replace.inj hstep
        exact hpair.solves_of_same h₁ h₂ hm hsame (ih hfinal h₂ hm hrest)
      | false =>
        refine (stepsTo_of_step hstep).mirrored h₁ h₂ hm hsame hpair fun more₂ hmore => ?_
        exact ih hfinal h₂ hm (List.rel_append hmore hrest)
  | @bind x y t v rest s final hstep hrun ih =>
    have h₁ : Final s := hfinal.earlier fun w u hw => (Run.bind hstep hrun).keeps hw
    obtain ⟨hb, hsides⟩ := binds_of_step hstep
    have hbound : final.get? v = some t := hrun.keeps (by rw [get?_bind hb.free, if_pos rfl])
    cases hpaired with
    | @cons _ e₂ _ rest₂ hpair hrest =>
      have hpair' : Paired s s₂ (.var v, t) e₂ := by
        rcases hsides with ⟨rfl, rfl⟩ | ⟨rfl, rfl⟩
        · exact hpair
        · exact hpair.swap
      refine hb.solves_mirrored h₁ h₂ hm (hfinal.bound v t hbound) hpair' fun s₂' h₂' hm' hkeep => ?_
      exact ih hfinal h₂' hm' (hrest.imp hkeep)

end

end Substitution

open Substitution

/-- Two terms without a NaN unify exactly when they do with the sides exchanged,
wherever the anonymous variable occurs in them. -/
theorem mgu_isSome_comm {x y : Term} (hx : x.hasNaN = false) (hy : y.hasNaN = false) :
    (mgu x y).isSome = true ↔ (mgu y x).isSome = true := by
  have hother : ∀ {x y : Term}, x.hasNaN = false → y.hasNaN = false →
      (mgu x y).isSome = true → (mgu y x).isSome = true := by
    intro x y hx hy hsome
    obtain ⟨s, hs⟩ := Option.isSome_iff_exists.mp hsome
    obtain ⟨final, hrun, _⟩ := mgu_eq_some_iff.mp hs
    have hempty : Final ∅ := ⟨acyclic_empty, fun _ t hv => absurd hv (Option.some_ne_none t).symm, rfl⟩
    have hpaired : Forall₂ (Paired ∅ ∅) [(x, y)] [(y, x)] :=
      .cons (Or.inr ⟨agree_self ∅ ∅ x, agree_self ∅ ∅ y⟩) .nil
    obtain ⟨final', hrun'⟩ :=
      hrun.mirrored (final_of_run hrun hx hy) hempty (mirrors_self ∅) hpaired
    rw [mgu_eq_some_iff.mpr ⟨final', hrun', rfl⟩]
    rfl
  exact ⟨hother hx hy, hother hy hx⟩

/-- `p(X, X, X, Y)` and `p(f(_), f(a), f(b), Z)` have no instance in common, but they
unify: `X` is bound to `f(_)` and `Y` to `Z`. So they do with the sides exchanged,
where `Z` is bound to `Y`. -/
theorem mgu_isSome_comm_anonymous :
    let x : Term := .compound "p" [.var "X", .var "X", .var "X", .var "Y"]
    let y : Term := .compound "p" [.compound "f" [.var "_"], .compound "f" [.atom "a"],
      .compound "f" [.atom "b"], .var "Z"]
    x.hasNaN = false ∧ y.hasNaN = false ∧ (mgu x y).isSome = true ∧ (mgu y x).isSome = true := by
  intro x y
  let first : Substitution := (∅ : Substitution).bind "X" (.compound "f" [.var "_"])
  have hfirst : (∅ : Substitution).step (.var "X") (.compound "f" [.var "_"]) =
      .bind "X" (.compound "f" [.var "_"]) := by
    rw [step_of_left rfl, stepVar_of_allFree rfl rfl rfl (by decide)]
  have hsecond : first.step (.var "Y") (.var "Z") = .bind "Y" (.var "Z") := by
    rw [step_of_left rfl, stepVar_of_allFree rfl rfl rfl (by decide)]
  -- `X` is followed for each of its other occurrences, and `f(_)` is taken apart.
  have hrun : Run [(x, y)] ∅ (first.bind "Y" (.var "Z")) :=
    .replace rfl (.bind hfirst (.replace rfl (.replace rfl (.replace rfl
      (.replace rfl (.replace rfl (.replace rfl (.bind hsecond (.done _)))))))))
  have hmgu : (mgu x y).isSome = true := by
    rw [mgu_eq_some_iff.mpr ⟨_, hrun, rfl⟩]
    rfl
  exact ⟨rfl, rfl, hmgu, (mgu_isSome_comm rfl rfl).mp hmgu⟩

end Clausal
