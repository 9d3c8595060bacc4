import Clausal.Substitution.Acyclic

/-
  Resolved substitutions — bindings that need not be followed

  When no variable is bound twice, a binding in the list is the one that is found
  for its variable. When in addition no variable reaches itself, bindings that
  are followed to their end leave free variables only, and the substitution of
  the terms found there is applied in one go.

  What is proved:
    1. `isCyclic_of_acyclic` — a ranked substitution passes the test for circles.
    2. `free_of_mem_apply` — a term with its bindings followed has free
       variables only.
    3. `apply_resolved` — following the bindings to their end beforehand makes
       no difference.
    4. `apply_apply_resolved` — after that nothing is left to follow.
-/

namespace Clausal.Substitution

/-! ## Bindings as a list -/

theorem mem_domain_of_mem {s : Substitution} {v : String} {t : Term} (h : (v, t) ∈ s.bindings) :
    v ∈ s.domain :=
  List.mem_map.mpr ⟨(v, t), h, rfl⟩

theorem get?_eq_none_iff {s : Substitution} {v : String} : s.get? v = none ↔ v ∉ s.domain := by
  rw [get?, List.lookup_eq_none_iff]
  constructor
  · intro h hv
    obtain ⟨b, hb, rfl⟩ := List.mem_map.mp hv
    have := h b hb
    simp at this
  · intro h b hb
    have hne : v ≠ b.1 := fun hv => h (hv ▸ mem_domain_of_mem hb)
    simpa using hne

/-- When no variable is bound twice, every binding is found. -/
theorem get?_eq_of_mem {s : Substitution} {v : String} {t : Term} (hs : s.domain.Nodup)
    (h : (v, t) ∈ s.bindings) : s.get? v = some t := by
  obtain ⟨bs⟩ := s
  show bs.lookup v = some t
  replace hs : (bs.map (·.1)).Nodup := hs
  replace h : (v, t) ∈ bs := h
  induction bs with
  | nil => cases h
  | cons b rest ih =>
    obtain ⟨w, u⟩ := b
    rw [List.map_cons, List.nodup_cons] at hs
    rcases List.mem_cons.mp h with hb | hb
    · obtain ⟨rfl, rfl⟩ := Prod.mk.inj hb
      exact List.lookup_cons_self
    · have hne : v ≠ w := by
        rintro rfl
        exact hs.1 (List.mem_map.mpr ⟨(v, t), hb, rfl⟩)
      rw [List.lookup_cons, beq_eq_false_iff_ne.mpr hne]
      exact ih hs.2 hb

theorem nodup_empty : (∅ : Substitution).domain.Nodup := List.nodup_nil

theorem nodup_bind {s : Substitution} {v : String} (t : Term) (hs : s.domain.Nodup)
    (hv : s.get? v = none) : (s.bind v t).domain.Nodup := by
  rw [domain, bind, List.map_append, List.nodup_append]
  refine ⟨hs, List.pairwise_singleton _ _, ?_⟩
  intro u hu w hw huw
  obtain rfl : w = v := List.mem_singleton.mp hw
  exact get?_eq_none_iff.mp hv (huw ▸ hu)

/-! ## The test for circles -/

theorem nodup_dependent {s : Substitution} (hs : s.domain.Nodup) : s.dependent.domain.Nodup :=
  hs.sublist (List.filter_sublist.map _)

theorem get?_of_dependent {s : Substitution} {v : String} {t : Term} (hs : s.domain.Nodup)
    (h : s.dependent.get? v = some t) : s.get? v = some t :=
  get?_eq_of_mem hs (List.mem_filter.mp (lookup_mem h)).1

/-- A ranked substitution all of whose terms mention bound variables is empty:
the binding of least rank would mention a variable of lower rank. -/
theorem eq_nil_of_dependent {rank : String → Nat} {s : Substitution} (hr : Ranked rank s)
    (hs : s.domain.Nodup) (h : ∀ b ∈ s.bindings, b.2.vars.any s.binds = true) :
    s.bindings = [] := by
  have hnone : ∀ n, ∀ b ∈ s.bindings, rank b.1 = n → False := by
    intro n
    induction n using Nat.strongRecOn with
    | ind n ih =>
      rintro ⟨v, t⟩ hb rfl
      obtain ⟨w, hw, hbinds⟩ := List.any_eq_true.mp (h (v, t) hb)
      obtain ⟨u, hu⟩ := Option.isSome_iff_exists.mp hbinds
      exact ih (rank w) (hr v t (get?_eq_of_mem hs hb) w hw) (w, u) (lookup_mem hu) rfl
  exact List.eq_nil_iff_forall_not_mem.mpr fun b hb => hnone (rank b.1) b hb rfl

theorem isCyclic_of_acyclic {s : Substitution} (hs : s.domain.Nodup) (h : s.Acyclic) :
    s.isCyclic = false := by
  obtain ⟨rank, hr⟩ := h
  rw [isCyclic]
  split
  · refine isCyclic_of_acyclic (nodup_dependent hs) ⟨rank, ?_⟩
    exact fun v t hv => hr v t (get?_of_dependent hs hv)
  · -- The test stops where setting bindings aside changes nothing any more.
    rename_i hsize
    have hall : ∀ b ∈ s.bindings, b.2.vars.any s.binds = true := by
      refine List.filter_eq_self.mp ?_
      refine List.filter_sublist.eq_of_length_le ?_
      exact Nat.le_of_not_lt hsize
    rw [isEmpty, eq_nil_of_dependent hr hs hall]
    rfl
termination_by s.size

/-! ## Bindings followed to their end -/

theorem apply_compound (s : Substitution) (f : String) (args : List Term) :
    s.apply (.compound f args) = .compound f (args.map s.apply) := by
  rw [apply]

/-- To prove a property of all terms, prove it of every free variable and of
every constant, of a bound variable from its term, and of a compound from its
arguments. -/
theorem Ranked.ind {rank : String → Nat} {s : Substitution} (hs : Ranked rank s)
    {P : Term → Prop} (atom : ∀ n, P (.atom n)) (integer : ∀ i, P (.integer i))
    (float : ∀ x, P (.float x)) (free : ∀ v, s.get? v = none → P (.var v))
    (bound : ∀ v t, s.get? v = some t → P t → P (.var v))
    (compound : ∀ f args, (∀ t ∈ args, P t) → P (.compound f args)) : ∀ t, P t := by
  have ofVars : ∀ t : Term, (∀ w ∈ t.vars, P (.var w)) → P t := by
    intro t
    induction t using Term.ind with
    | atom n => exact fun _ => atom n
    | var v => exact fun h => h v (by simp [Term.vars])
    | integer i => exact fun _ => integer i
    | float x => exact fun _ => float x
    | compound f args ih =>
      intro h
      refine compound f args fun t ht => ih t ht fun w hw => h w ?_
      rw [Term.vars, Term.varsAll_eq]
      exact List.mem_flatMap.mpr ⟨t, ht, hw⟩
  -- The term of a bound variable has variables of lower rank only.
  have ofRank : ∀ n v, rank v = n → P (.var v) := by
    intro n
    induction n using Nat.strongRecOn with
    | ind n ih =>
      rintro v rfl
      cases hv : s.get? v with
      | none => exact free v hv
      | some t => exact bound v t hv (ofVars t fun w hw => ih (rank w) (hs v t hv w hw) w rfl)
  exact fun t => ofVars t fun w _ => ofRank (rank w) w rfl

/-- A term with its bindings followed has free variables only. -/
theorem free_of_mem_apply {s : Substitution} (h : s.Acyclic) (t : Term) :
    ∀ v ∈ (s.apply t).vars, s.get? v = none := by
  obtain ⟨rank, hr⟩ := h
  induction t using hr.ind with
  | atom n => simp [apply, Term.vars]
  | integer i => simp [apply, Term.vars]
  | float x => simp [apply, Term.vars]
  | free v hv =>
    intro w hw
    rw [apply_var_free hv, Term.vars, List.mem_singleton] at hw
    rw [hw, hv]
  | bound v t hv ih => rwa [hr.apply_bound hv]
  | compound f args ih =>
    intro v hv
    rw [apply_compound, Term.vars, Term.varsAll_eq, List.mem_flatMap] at hv
    obtain ⟨u, hu, hv⟩ := hv
    obtain ⟨t, ht, rfl⟩ := List.mem_map.mp hu
    exact ih t ht v hv

/-- In a term of free variables there is nothing to follow. -/
theorem apply_of_free {s : Substitution} {t : Term} (h : ∀ v ∈ t.vars, s.get? v = none) :
    s.apply t = t := by
  induction t using Term.ind with
  | var v => exact apply_var_free (h v (by simp [Term.vars]))
  | compound f args ih =>
    rw [apply_compound]
    congr 1
    refine (List.map_congr_left fun t ht => ih t ht fun v hv => h v ?_).trans (List.map_id args)
    rw [Term.vars, Term.varsAll_eq]
    exact List.mem_flatMap.mpr ⟨t, ht, hv⟩
  | _ => simp [apply]

theorem mem_resolved {s : Substitution} {b : String × Term} (h : b ∈ s.resolved.bindings) :
    ∃ t, (b.1, t) ∈ s.bindings ∧ b.2 = s.apply t := by
  obtain ⟨⟨v, t⟩, hmem, rfl⟩ := List.mem_map.mp h
  exact ⟨t, hmem, rfl⟩

theorem get?_resolved (s : Substitution) (v : String) :
    s.resolved.get? v = (s.get? v).map s.apply := by
  have hmap : ∀ bs : List (String × Term),
      (bs.map fun b => (b.1, s.apply b.2)).lookup v = (bs.lookup v).map s.apply := by
    intro bs
    induction bs with
    | nil => rfl
    | cons b rest ih =>
      rw [List.map_cons, List.lookup_cons, List.lookup_cons, ih]
      split <;> rfl
  exact hmap s.bindings

/-- Following the bindings to their end beforehand makes no difference. -/
theorem apply_resolved {s : Substitution} (h : s.Acyclic) (t : Term) :
    s.resolved.apply t = s.apply t := by
  obtain ⟨rank, hr⟩ := h
  induction t using hr.ind with
  | atom n => simp [apply]
  | integer i => simp [apply]
  | float x => simp [apply]
  | free v hv =>
    have hv' : s.resolved.get? v = none := by rw [get?_resolved, hv]; rfl
    rw [apply_var_free hv, apply_var_free hv']
  | bound v t hv ih =>
    have hv' : s.resolved.get? v = some (s.apply t) := by rw [get?_resolved, hv]; rfl
    rw [hr.apply_bound hv, apply_var_bound hv']
    refine apply_of_free fun w hw => ?_
    have hfree : s.resolved.get? w = none := by
      rw [get?_resolved, free_of_mem_apply ⟨rank, hr⟩ t w hw]
      rfl
    rw [get?_erase, hfree, ite_self]
  | compound f args ih =>
    rw [apply_compound, apply_compound, List.map_congr_left ih]

/-- After that nothing is left to follow. -/
theorem apply_apply_resolved {s : Substitution} (h : s.Acyclic) (t : Term) :
    s.resolved.apply (s.resolved.apply t) = s.resolved.apply t := by
  refine apply_of_free fun v hv => ?_
  rw [apply_resolved h] at hv
  rw [get?_resolved, free_of_mem_apply h t v hv]
  rfl

end Clausal.Substitution
