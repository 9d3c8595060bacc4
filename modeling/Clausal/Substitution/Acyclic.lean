import Clausal.Substitution.Reach

/-
  Acyclic substitutions — no variable reaches itself through its bindings

  A substitution is acyclic when variables can be ranked so that every bound
  term mentions only variables of lower rank than its own. The test peels off
  the bindings that mention no bound variable, over and over; what is left in
  the end runs in circles.

  What is proved:
    1. `acyclic_of_isCyclic` — a substitution that passes the test has a
       ranking.
    2. `apply_erase` — setting aside a variable of higher rank than all those
       in a term changes nothing in following it.
    3. `mem_apply_iff` — following the bindings brings a free variable into a
       term exactly when one of the term's own variables reaches it.
    4. `Acyclic.bind` — binding a free variable to a term that does not lead
       back to it keeps a substitution acyclic.
-/

namespace Clausal.Substitution

/-- The bindings whose terms mention a bound variable. -/
def dependent (s : Substitution) : Substitution :=
  ⟨s.bindings.filter fun b => b.2.vars.any s.binds⟩

/-- Whether some variable reaches itself through the bindings. -/
def isCyclic (s : Substitution) : Bool :=
  if s.dependent.size < s.size then s.dependent.isCyclic else !s.isEmpty
termination_by s.size

/-- Every bound term mentions only variables of lower rank. -/
def Ranked (rank : String → Nat) (s : Substitution) : Prop :=
  ∀ v t, s.get? v = some t → ∀ w ∈ t.vars, rank w < rank v

/-- Some ranking orders the variables. -/
def Acyclic (s : Substitution) : Prop := ∃ rank, Ranked rank s

/-! ## The test -/

theorem lookup_filter_pos {p : String × Term → Bool} {v : String} {t : Term}
    {bs : List (String × Term)} (h : bs.lookup v = some t) (hp : p (v, t) = true) :
    (bs.filter p).lookup v = some t := by
  induction bs with
  | nil => simp at h
  | cons b rest ih =>
    obtain ⟨x, u⟩ := b
    by_cases hx : v = x
    · subst hx
      simp only [List.lookup_cons_self, Option.some.injEq] at h
      subst h
      simp [hp]
    · have hne : (v == x) = false := by simpa using hx
      simp only [List.lookup_cons, hne] at h
      by_cases hpb : p (x, u) = true
      · simp [hpb, List.lookup_cons, hne, ih h]
      · simp [hpb, ih h]

theorem binds_of_mem_vars {s : Substitution} {v w : String} {t : Term}
    (h : s.get? v = some t) (hw : w ∈ t.vars) (hb : s.binds w = true) :
    s.dependent.get? v = some t :=
  lookup_filter_pos h (List.any_eq_true.mpr ⟨w, hw, hb⟩)

theorem acyclic_of_dependent {s : Substitution} (h : s.dependent.Acyclic) : s.Acyclic := by
  obtain ⟨rank, hr⟩ := h
  refine ⟨fun w => if s.dependent.binds w then rank w + 2 else if s.binds w then 1 else 0, ?_⟩
  intro v t hv w hw
  have hbv : s.binds v = true := by simp [binds, hv]
  by_cases hbw : s.binds w = true
  · have hd := binds_of_mem_vars hv hw hbw
    have hdv : s.dependent.binds v = true := by simp [binds, hd]
    have := hr v t hd w hw
    simp only [hdv, hbw, if_true]
    split <;> omega
  · have hdw : s.dependent.binds w = false := by
      cases hg : s.dependent.get? w with
      | none => simp [binds, hg]
      | some u =>
        have hm := (List.mem_filter.mp (lookup_mem hg)).1
        have : s.binds w = true := by
          simp only [binds, get?, Option.isSome_iff_ne_none, ne_eq, List.lookup_eq_none_iff]
          intro hall
          have := hall _ hm
          simp at this
        exact absurd this hbw
    simp only [hdw, hbw, hbv, Bool.false_eq_true, if_false, if_true]
    split <;> omega

theorem acyclic_of_isCyclic {s : Substitution} (h : s.isCyclic = false) : s.Acyclic := by
  rw [isCyclic] at h
  split at h
  · exact acyclic_of_dependent (acyclic_of_isCyclic h)
  · refine ⟨fun _ => 0, fun v t hv => ?_⟩
    simp only [isEmpty, Bool.not_eq_false', List.isEmpty_iff] at h
    simp [get?, h] at hv
termination_by s.size

/-! ## Following bindings by their rank -/

theorem Ranked.erase {rank : String → Nat} {s : Substitution} (h : Ranked rank s) (v : String) :
    Ranked rank (s.erase v) := by
  intro w t hw
  rw [get?_erase] at hw
  split at hw
  · simp at hw
  · exact h w t hw

theorem apply_var_bound {s : Substitution} {v : String} {t : Term} (h : s.get? v = some t) :
    s.apply (.var v) = (s.erase v).apply t := by
  rw [apply]
  split <;> simp_all

theorem apply_var_free {s : Substitution} {v : String} (h : s.get? v = none) :
    s.apply (.var v) = .var v := by
  rw [apply]
  split <;> simp_all

theorem apply_erase {rank : String → Nat} {s : Substitution} {t : Term} {u : String}
    (hs : Ranked rank s) (ht : ∀ w ∈ t.vars, rank w < rank u) :
    (s.erase u).apply t = s.apply t := by
  fun_induction apply s t with
  | case1 s v bound hv ih =>
    have hlt := ht v (by simp [Term.vars])
    have hne : v ≠ u := fun h => by rw [h] at hlt; exact Nat.lt_irrefl _ hlt
    have hv' : (s.erase u).get? v = some bound := by rw [get?_erase, if_neg hne, hv]
    rw [apply_var_bound hv', erase_comm]
    exact ih (hs.erase v) fun w hw => Nat.lt_trans (hs v bound hv w hw) hlt
  | case2 s v hv =>
    refine apply_var_free ?_
    rw [get?_erase]
    split <;> simp [hv]
  | case3 s f args ih =>
    rw [apply]
    congr 1
    refine List.map_congr_left fun arg harg => ih arg harg hs fun w hw => ht w ?_
    simp only [Term.vars, Term.varsAll_eq, List.mem_flatMap]
    exact ⟨arg, harg, hw⟩
  | case4 s t hvar hcompound =>
    cases t with
    | var v => exact absurd rfl (hvar v)
    | compound f args => exact absurd rfl (hcompound f args)
    | atom n => rw [apply] <;> simp
    | integer i => rw [apply] <;> simp
    | float x => rw [apply] <;> simp

theorem Ranked.apply_bound {rank : String → Nat} {s : Substitution} {v : String} {t : Term}
    (hs : Ranked rank s) (h : s.get? v = some t) : s.apply (.var v) = s.apply t := by
  rw [apply_var_bound h]
  exact apply_erase hs (hs v t h)

/-- The variables of a term with its bindings followed come from its own
variables one by one. -/
theorem mem_vars_apply {s : Substitution} {t : Term} {v w : String}
    (hw : w ∈ t.vars) (hv : v ∈ (s.apply (.var w)).vars) :
    v ∈ (s.apply t).vars := by
  induction t using Term.ind with
  | atom n => simp [Term.vars] at hw
  | var x =>
    simp only [Term.vars, List.mem_singleton] at hw
    rwa [← hw]
  | integer i => simp [Term.vars] at hw
  | float x => simp [Term.vars] at hw
  | compound f args ih =>
    simp only [Term.vars, Term.varsAll_eq, List.mem_flatMap] at hw
    obtain ⟨arg, harg, hwa⟩ := hw
    rw [apply]
    simp only [Term.vars, Term.varsAll_eq, List.mem_flatMap, List.mem_map]
    exact ⟨s.apply arg, ⟨arg, harg, rfl⟩, ih arg harg hwa⟩

theorem mem_apply_of_reaches {rank : String → Nat} {s : Substitution} {u v : String}
    (hs : Ranked rank s) (hv : s.get? v = none) (h : Reaches s v u) :
    v ∈ (s.apply (.var u)).vars := by
  induction h with
  | here =>
    rw [apply_var_free hv]
    simp [Term.vars]
  | through hu hw _ ih =>
    rw [hs.apply_bound hu]
    exact mem_vars_apply hw ih

/-- A free variable occurs in a term with its bindings followed exactly when one
of the term's own variables reaches it. -/
theorem mem_apply_iff {rank : String → Nat} {s : Substitution} {v : String} {t : Term}
    (hs : Ranked rank s) (hv : s.get? v = none) :
    v ∈ (s.apply t).vars ↔ ∃ w ∈ t.vars, Reaches s v w :=
  ⟨reaches_of_mem_apply, fun ⟨_, hw, h⟩ => mem_vars_apply hw (mem_apply_of_reaches hs hv h)⟩

/-! ## A new binding -/

theorem exists_rank_bound (rank : String → Nat) (vs : List String) :
    ∃ top, ∀ w ∈ vs, rank w ≤ top := by
  induction vs with
  | nil => exact ⟨0, fun w hw => absurd hw List.not_mem_nil⟩
  | cons v vs ih =>
    obtain ⟨top, htop⟩ := ih
    refine ⟨rank v + top, ?_⟩
    intro w hw
    rcases List.mem_cons.mp hw with rfl | hw
    · omega
    · have := htop w hw
      omega

theorem Acyclic.bind {s : Substitution} {v : String} {t : Term} (h : s.Acyclic)
    (hv : s.get? v = none) (hfar : ∀ w ∈ t.vars, ¬ Reaches s v w) : (s.bind v t).Acyclic := by
  classical
  obtain ⟨rank, hr⟩ := h
  obtain ⟨top, htop⟩ := exists_rank_bound rank t.vars
  refine ⟨fun w => if Reaches s v w then rank w + (top + 1) else rank w, ?_⟩
  intro u b hu w hw
  rw [get?_bind hv] at hu
  split at hu
  · rename_i huv
    subst huv
    simp only [Option.some.injEq] at hu
    subst hu
    have hle := htop w hw
    simp only [hfar w hw, if_false, Reaches.here, if_true]
    omega
  · have hlt := hr u b hu w hw
    by_cases hreach : Reaches s v w
    · have hu' : Reaches s v u := .through hu hw hreach
      simp only [hreach, hu', if_true]
      omega
    · simp only [hreach, if_false]
      split <;> omega

theorem acyclic_empty : (∅ : Substitution).Acyclic :=
  ⟨fun _ => 0, fun v t h => by simp [EmptyCollection.emptyCollection, empty, get?] at h⟩

end Clausal.Substitution
