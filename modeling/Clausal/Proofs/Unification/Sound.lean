import Clausal.Proofs.Unification.Step

/-
  Soundness of unification — the bindings found make the terms equal

  The anonymous variable stands for any term, each time for another one, so that
  two terms with it are made alike rather than equal. Alike is not transitive,
  and no chain of such pairs is followed: the pairs that a run was given are
  recovered from the pairs of the step after, all under the bindings in the end.

  What is proved:
    1. `Alike.equal_of_named` — alike terms without the anonymous variable are
       equal.
    2. `StepsTo.alike` — when the equations that a step leaves are met in the
       end, so is the equation it took.
    3. `Run.alike` — every equation of a run is met in the end.
    4. `mgu_sound` — the most general bindings meet their equation, mention only
       its variables, and need to be applied only once.
-/

namespace Clausal

open Term (anonymousName)

/-- The terms are equal except where one of them has the anonymous variable. -/
inductive Alike : Term → Term → Prop where
  | equal {a b : Term} : (a == b) = true → Alike a b
  | anonymousLeft (b : Term) : Alike (.var anonymousName) b
  | anonymousRight (a : Term) : Alike a (.var anonymousName)
  | compound {f : String} {xs ys : List Term} : xs.length = ys.length →
    (∀ p ∈ xs.zip ys, Alike p.1 p.2) → Alike (.compound f xs) (.compound f ys)

theorem alike_compound {f : String} {xs ys : List Term} (h : List.Forall₂ Alike xs ys) :
    Alike (.compound f xs) (.compound f ys) :=
  .compound h.length_eq fun _ hp => List.forall₂_zip h hp

theorem Alike.symm {a b : Term} (h : Alike a b) : Alike b a := by
  induction h with
  | equal h => exact .equal (Term.equal_symm h)
  | anonymousLeft b => exact .anonymousRight b
  | anonymousRight a => exact .anonymousLeft a
  | @compound f xs ys hlength _ ih =>
    exact alike_compound (List.Forall₂.flip (List.forall₂_iff_zip.mpr ⟨hlength, ih _⟩))

theorem alike_self {t : Term} (h : t.hasNaN = false) : Alike t t :=
  .equal (Term.equal_self_iff.mpr h)

/-- Alike terms without the anonymous variable are equal. -/
theorem Alike.equal_of_named {a b : Term} (h : Alike a b) (ha : anonymousName ∉ a.vars)
    (hb : anonymousName ∉ b.vars) : (a == b) = true := by
  induction h with
  | equal h => exact h
  | anonymousLeft b => exact absurd (by simp [Term.vars]) ha
  | anonymousRight a => exact absurd (by simp [Term.vars]) hb
  | @compound f xs ys hlength _ ih =>
    refine Term.compound_equal_iff.mpr ⟨ys, rfl, List.forall₂_iff_zip.mpr ⟨hlength, fun hp => ?_⟩⟩
    refine ih _ hp (fun hv => ha ?_) fun hv => hb ?_
    · exact Term.mem_vars_compound.mpr ⟨_, (List.of_mem_zip hp).1, hv⟩
    · exact Term.mem_vars_compound.mpr ⟨_, (List.of_mem_zip hp).2, hv⟩

namespace Substitution

/-! ## Bindings followed in terms without a NaN -/

theorem not_hasNaN_apply {s : Substitution} (hs : s.Acyclic)
    (hbound : ∀ v t, s.get? v = some t → t.hasNaN = false) {t : Term} (ht : t.hasNaN = false) :
    (s.apply t).hasNaN = false := by
  obtain ⟨rank, hr⟩ := hs
  induction t using hr.ind with
  | atom n => simp [apply, Term.hasNaN]
  | integer i => simp [apply, Term.hasNaN]
  | float x => simpa [apply] using ht
  | free v hv => rwa [apply_var_free hv]
  | bound v t hv ih =>
    rw [hr.apply_bound hv]
    exact ih (hbound v t hv)
  | compound f args ih =>
    rw [apply_compound, Term.hasNaN_compound]
    intro u hu
    obtain ⟨t, ht', rfl⟩ := List.mem_map.mp hu
    exact ih t ht' (Term.hasNaN_compound.mp ht t ht')

/-- A variable of a term with its bindings followed is one of the term itself or
of a bound term. -/
theorem mem_vars_of_mem_apply {s : Substitution} (hs : s.Acyclic) {t : Term} {v : String}
    (hv : v ∈ (s.apply t).vars) : v ∈ t.vars ∨ ∃ u b, s.get? u = some b ∧ v ∈ b.vars := by
  obtain ⟨rank, hr⟩ := hs
  induction t using hr.ind with
  | atom n => simp [apply, Term.vars] at hv
  | integer i => simp [apply, Term.vars] at hv
  | float x => simp [apply, Term.vars] at hv
  | free u hu =>
    rw [apply_var_free hu] at hv
    exact Or.inl hv
  | bound u t hu ih =>
    rw [hr.apply_bound hu] at hv
    rcases ih hv with ht | hbound
    · exact Or.inr ⟨u, t, hu, ht⟩
    · exact Or.inr hbound
  | compound f args ih =>
    rw [apply_compound, Term.mem_vars_compound] at hv
    obtain ⟨_, hu, hv⟩ := hv
    obtain ⟨t, ht, rfl⟩ := List.mem_map.mp hu
    rcases ih t ht hv with hv | hbound
    · exact Or.inl (Term.mem_vars_compound.mpr ⟨t, ht, hv⟩)
    · exact Or.inr hbound

/-- What holds of all variables of a term and of the bound terms holds of those
that following the bindings brings in. -/
theorem Holds.vars_apply {scope : String → Prop} {s : Substitution} {t : Term}
    (h : Holds (fun t => ∀ w ∈ t.vars, scope w) [] s) (hs : s.Acyclic)
    (ht : ∀ w ∈ t.vars, scope w) : ∀ w ∈ (s.apply t).vars, scope w := by
  intro w hw
  rcases mem_vars_of_mem_apply hs hw with hw | ⟨u, b, hu, hw⟩
  · exact ht w hw
  · exact h.get? hu w hw

/-- Equal terms stay equal when bindings are followed in both. -/
theorem apply_equal {s : Substitution} (hs : s.Acyclic)
    (hbound : ∀ v t, s.get? v = some t → t.hasNaN = false) {x y : Term} (h : (x == y) = true) :
    (s.apply x == s.apply y) = true := by
  induction x using Term.ind generalizing y with
  | atom n =>
    obtain rfl := Term.atom_equal_iff.mp h
    simpa [apply] using h
  | var v =>
    obtain rfl := Term.var_equal_iff.mp h
    exact Term.equal_self_iff.mpr (not_hasNaN_apply hs hbound rfl)
  | integer i =>
    obtain rfl := Term.integer_equal_iff.mp h
    simpa [apply] using h
  | float x =>
    obtain ⟨z, rfl, _⟩ := Term.float_equal_iff.mp h
    simpa [apply] using h
  | compound f xs ih =>
    obtain ⟨ys, rfl, hall⟩ := Term.compound_equal_iff.mp h
    rw [apply_compound, apply_compound]
    refine Term.compound_equal_iff.mpr ⟨_, rfl, ?_⟩
    rw [List.forall₂_map_left_iff, List.forall₂_map_right_iff]
    exact forall₂_imp_of_mem hall fun x hx y hxy => ih x hx hxy

/-! ## Equations met in the end -/

/-- Bindings as a run leaves them when it began with terms without a NaN. -/
structure Final (s : Substitution) : Prop where
  acyclic : s.Acyclic
  bound : ∀ v t, s.get? v = some t → t.hasNaN = false
  anonymous : s.get? anonymousName = none

/-- When the equations that a step leaves are met in the end, so is the equation
it took. -/
theorem StepsTo.alike {s final : Substitution} {x y : Term} {more : List Equation}
    (h : StepsTo s x y (.replace more)) (hfinal : Final final)
    (hkeeps : ∀ v t, s.get? v = some t → final.get? v = some t)
    (hmore : ∀ e ∈ more, Alike (final.apply e.1) (final.apply e.2)) :
    Alike (final.apply x) (final.apply y) := by
  obtain ⟨rank, hr⟩ := hfinal.acyclic
  generalize hreplace : Step.replace more = r at h
  -- A later binding undoes no equation: what the step used of the bindings is
  -- still there in the end.
  induction h with
  | same hsame => exact .equal (apply_equal hfinal.acyclic hfinal.bound hsame)
  | anonymous t =>
    rw [apply_var_free hfinal.anonymous]
    exact .anonymousLeft _
  | followed _ _ hv =>
    obtain rfl := Step.replace.inj hreplace
    rw [hr.apply_bound (hkeeps _ _ hv)]
    exact hmore _ (List.mem_singleton.mpr rfl)
  | followedRight _ _ hv =>
    obtain rfl := Step.replace.inj hreplace
    rw [hr.apply_bound (hkeeps _ _ hv)]
    exact hmore _ (List.mem_singleton.mpr rfl)
  | @parts f xs ys hlength =>
    obtain rfl := Step.replace.inj hreplace
    rw [apply_compound, apply_compound]
    refine alike_compound ?_
    rw [List.forall₂_map_left_iff, List.forall₂_map_right_iff]
    exact List.forall₂_iff_zip.mpr ⟨hlength, hmore _⟩
  | swapped _ ih => exact (ih hreplace).symm
  | bound _ _ _ _ => cases hreplace
  | circle _ _ _ => cases hreplace
  | clash _ _ _ _ => cases hreplace

/-- Every equation of a run is met in the end. -/
theorem Run.alike {equations : List Equation} {s final : Substitution}
    (h : Run equations s final) (hfinal : Final final) :
    ∀ e ∈ equations, Alike (final.apply e.1) (final.apply e.2) := by
  induction h with
  | done s => exact fun e he => absurd he List.not_mem_nil
  | replace hstep hrun ih =>
    intro e he
    rcases List.mem_cons.mp he with rfl | he
    · refine (stepsTo_of_step hstep).alike hfinal (fun v t hv => hrun.keeps hv) fun e he => ?_
      exact ih hfinal e (List.mem_append_left _ he)
    · exact ih hfinal e (List.mem_append_right _ he)
  | @bind x y t v rest s final hstep hrun ih =>
    intro e he
    rcases List.mem_cons.mp he with rfl | he
    · obtain ⟨rank, hr⟩ := hfinal.acyclic
      obtain ⟨_, hfree, _, hsides⟩ := (stepsTo_of_step hstep).of_bind
      have hbound : final.get? v = some t := hrun.keeps (by rw [get?_bind hfree, if_pos rfl])
      have hvalue := hfinal.bound v t hbound
      have hself := alike_self (not_hasNaN_apply hfinal.acyclic hfinal.bound hvalue)
      rcases hsides with ⟨rfl, rfl⟩ | ⟨rfl, rfl⟩
      · rw [hr.apply_bound hbound]
        exact hself
      · rw [hr.apply_bound hbound]
        exact hself
    · exact ih hfinal e he

end Substitution

open Substitution

/-- What holds of both terms and of their parts holds of all that a run from no
bindings binds. -/
theorem holds_of_run {P : Term → Prop} {x y : Term} {final : Substitution}
    (h : Run [(x, y)] ∅ final) (hparts : ∀ f args, P (.compound f args) → ∀ t ∈ args, P t)
    (hx : P x) (hy : P y) : Holds P [] final := by
  refine h.holds hparts ⟨fun e he => ?_, fun b hb => absurd hb List.not_mem_nil⟩
  rw [List.mem_singleton.mp he]
  exact ⟨hx, hy⟩

/-- A run leaves such bindings when it begins with terms without a NaN. -/
theorem Substitution.Run.final {equations : List Equation} {s final : Substitution}
    (h : Run equations s final) (hs : s.Acyclic) (hanonymous : s.get? anonymousName = none)
    (hnumbers : Holds (fun t => t.hasNaN = false) equations s) : Final final := by
  have hend := h.holds (fun f args => Term.hasNaN_compound.mp) hnumbers
  exact ⟨h.acyclic hs, fun v t hv => hend.get? hv, h.anonymous_free hanonymous⟩

theorem final_of_run {x y : Term} {final : Substitution} (h : Run [(x, y)] ∅ final)
    (hx : x.hasNaN = false) (hy : y.hasNaN = false) : Final final := by
  refine h.final acyclic_empty rfl ⟨fun e he => ?_, fun b hb => absurd hb List.not_mem_nil⟩
  rw [List.mem_singleton.mp he]
  exact ⟨hx, hy⟩

/-- A run from no bindings mentions only the variables of its two terms. -/
theorem scope_of_run {x y : Term} {final : Substitution} (h : Run [(x, y)] ∅ final) :
    Holds (fun t => ∀ w ∈ t.vars, w ∈ x.vars ∨ w ∈ y.vars) [] final := by
  refine holds_of_run h ?_ (fun w hw => Or.inl hw) (fun w hw => Or.inr hw)
  exact fun f args hall t ht w hw => hall w (Term.mem_vars_compound.mpr ⟨t, ht, hw⟩)

/-- The most general bindings make their two terms alike, and equal where the
anonymous variable does not occur. They leave that variable free and mention no
variable but those of the two terms. No variable they bind is left in a term
they bind, so that applying them again changes nothing. -/
theorem mgu_sound {x y : Term} {s : Substitution} (hx : x.hasNaN = false) (hy : y.hasNaN = false)
    (h : mgu x y = some s) :
    Alike (s.apply x) (s.apply y) ∧
      (anonymousName ∉ x.vars → anonymousName ∉ y.vars → (s.apply x == s.apply y) = true) ∧
      s.get? anonymousName = none ∧
      (∀ b ∈ s.bindings, (b.1 ∈ x.vars ∨ b.1 ∈ y.vars) ∧
        ∀ w ∈ b.2.vars, w ∈ x.vars ∨ w ∈ y.vars) ∧
      (∀ b ∈ s.bindings, ∀ w ∈ b.2.vars, s.get? w = none) ∧
      ∀ t : Term, t.hasNaN = false → (s.apply (s.apply t) == s.apply t) = true := by
  obtain ⟨final, hrun, rfl⟩ := mgu_eq_some_iff.mp h
  have hfinal := final_of_run hrun hx hy
  have hacyclic := hfinal.acyclic
  have halike := hrun.alike hfinal _ List.mem_cons_self
  have hscope := scope_of_run hrun
  have hfree : ∀ t : Term, ∀ w ∈ (final.apply t).vars, final.resolved.get? w = none := by
    intro t w hw
    rw [get?_resolved, free_of_mem_apply hacyclic t w hw]
    rfl
  simp only [apply_resolved hacyclic]
  refine ⟨halike, ?_, ?_, ?_, ?_, ?_⟩
  · intro hxnamed hynamed
    have hnamed : ∀ w, w ∈ x.vars ∨ w ∈ y.vars → w ≠ anonymousName := by
      rintro w (hw | hw) rfl
      · exact hxnamed hw
      · exact hynamed hw
    exact halike.equal_of_named
      (fun hw => hnamed _ (hscope.vars_apply hacyclic (fun w hw => Or.inl hw) _ hw) rfl)
      (fun hw => hnamed _ (hscope.vars_apply hacyclic (fun w hw => Or.inr hw) _ hw) rfl)
  · rw [get?_resolved, hfinal.anonymous]
    rfl
  · intro b hb
    obtain ⟨t, hmem, heq⟩ := mem_resolved hb
    obtain ⟨hkey, hterm⟩ := hscope.bindings _ hmem
    refine ⟨hkey b.1 (by simp [Term.vars]), ?_⟩
    rw [heq]
    exact hscope.vars_apply hacyclic hterm
  · intro b hb
    obtain ⟨t, _, heq⟩ := mem_resolved hb
    rw [heq]
    exact hfree t
  · intro t ht
    have hagain := apply_apply_resolved hacyclic t
    simp only [apply_resolved hacyclic] at hagain
    rw [hagain]
    exact Term.equal_self_iff.mpr (not_hasNaN_apply hacyclic hfinal.bound ht)

/-- `p(X, _, Y)` and `p(f(Y), b, Z)` bind `X` and `Y` and are made alike. -/
theorem mgu_sound_alike :
    let x : Term := .compound "p" [.var "X", .var "_", .var "Y"]
    let y : Term := .compound "p" [.compound "f" [.var "Y"], .atom "b", .var "Z"]
    let s : Substitution := ⟨[("X", .compound "f" [.var "Z"]), ("Y", .var "Z")]⟩
    x.hasNaN = false ∧ y.hasNaN = false ∧ mgu x y = some s ∧ Alike (s.apply x) (s.apply y) := by
  intro x y s
  let first : Substitution := (∅ : Substitution).bind "X" (.compound "f" [.var "Y"])
  let final : Substitution := first.bind "Y" (.var "Z")
  have hfirst : (∅ : Substitution).step (.var "X") (.compound "f" [.var "Y"]) =
      .bind "X" (.compound "f" [.var "Y"]) := by
    have hlead : (∅ : Substitution).leadTo "X" ["Y"] = false := by simp [leadTo]; rfl
    show (if (∅ : Substitution).leadTo "X" ["Y"] then _ else _) = _
    rw [hlead]
    rfl
  have hsecond : first.step (.var "Y") (.var "Z") = .bind "Y" (.var "Z") := by
    have hlead : first.leadTo "Y" ["Z"] = false := by simp [leadTo]; rfl
    show (if first.leadTo "Y" ["Z"] then _ else _) = _
    rw [hlead]
    rfl
  have hrun : Run [(x, y)] ∅ final :=
    .replace rfl (.bind hfirst (.replace rfl (.bind hsecond (.done _))))
  have hz : final.apply (.var "Z") = .var "Z" := apply_var_free rfl
  have hy : final.apply (.var "Y") = .var "Z" := by
    rw [apply_var_bound (t := .var "Z") rfl, apply_var_free rfl]
  have hs : s = final.resolved := by
    show s = ⟨[("X", final.apply (.compound "f" [.var "Y"])), ("Y", final.apply (.var "Z"))]⟩
    rw [apply_compound, List.map_singleton, hy, hz]
  have hmgu : mgu x y = some s := mgu_eq_some_iff.mpr ⟨final, hrun, hs⟩
  exact ⟨rfl, rfl, hmgu, (mgu_sound rfl rfl hmgu).1⟩

end Clausal
