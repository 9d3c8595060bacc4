import Clausal.Proofs.Substitution.Walk

/-
  Mirrors — substitutions that differ in which variable stands for which

  When two free variables are made equal, either can be bound to the other. What
  comes of the one choice mirrors what comes of the other: the same variables walk
  to one end, and where they walk to a term that is no variable it is the same
  term. Only which of the variables with a common end is the end may differ.

  What is proved:
    1. `Mirrors.symm`, `Agree.walk_iff`, `Agree.term` — terms that stand for the same
       in mirroring substitutions are equal in the one when they are in the other.
    2. `Agree.reaches` — a free variable is led to by the same variables as the one
       it agrees with.
    3. `merges_bind` — a new binding makes two ends one and leaves the others.
    4. `Mirrors.merge` — making the same two ends one, either way round, keeps the
       mirror.
-/

namespace Clausal.Substitution

/-- The same variables walk to one end, and to the same term if it is no
variable. -/
structure Mirrors (s₁ s₂ : Substitution) : Prop where
  classes : ∀ t u, s₁.walk t = s₁.walk u ↔ s₂.walk t = s₂.walk u
  terms : ∀ t, (s₁.walk t).isVariable = false → s₂.walk t = s₁.walk t
  termsBack : ∀ t, (s₂.walk t).isVariable = false → s₁.walk t = s₂.walk t

/-- The first term in the first substitution stands for what the second one stands
for in the second. -/
def Agree (s₁ s₂ : Substitution) (a b : Term) : Prop :=
  ∃ u, s₁.walk a = s₁.walk u ∧ s₂.walk b = s₂.walk u

section

variable {s₁ s₂ : Substitution} {a a' b b' : Term}

theorem mirrors_self (s : Substitution) : Mirrors s s where
  classes _ _ := Iff.rfl
  terms _ _ := rfl
  termsBack _ _ := rfl

theorem Mirrors.symm (h : Mirrors s₁ s₂) : Mirrors s₂ s₁ where
  classes t u := (h.classes t u).symm
  terms := h.termsBack
  termsBack := h.terms

theorem agree_self (s₁ s₂ : Substitution) (t : Term) : Agree s₁ s₂ t t := ⟨t, rfl, rfl⟩

theorem Agree.symm (h : Agree s₁ s₂ a b) : Agree s₂ s₁ b a :=
  have ⟨u, ha, hb⟩ := h
  ⟨u, hb, ha⟩

theorem Agree.of_walk (h : Agree s₁ s₂ a b) (ha : s₁.walk a' = s₁.walk a) : Agree s₁ s₂ a' b :=
  have ⟨u, hu, hb⟩ := h
  ⟨u, ha.trans hu, hb⟩

/-! ## What terms that agree have in common -/

theorem Agree.walk_iff (hm : Mirrors s₁ s₂) (h : Agree s₁ s₂ a b) (h' : Agree s₁ s₂ a' b') :
    s₁.walk a = s₁.walk a' ↔ s₂.walk b = s₂.walk b' := by
  obtain ⟨u, ha, hb⟩ := h
  obtain ⟨u', ha', hb'⟩ := h'
  rw [ha, ha', hb, hb']
  exact hm.classes u u'

theorem Agree.term (hm : Mirrors s₁ s₂) (h : Agree s₁ s₂ a b)
    (ha : (s₁.walk a).isVariable = false) : s₂.walk b = s₁.walk a := by
  obtain ⟨u, hu, hb⟩ := h
  rw [hu] at ha ⊢
  rw [hb]
  exact hm.terms u ha

theorem Agree.isVariable (hm : Mirrors s₁ s₂) (h : Agree s₁ s₂ a b) :
    (s₂.walk b).isVariable = (s₁.walk a).isVariable := by
  cases ha : (s₁.walk a).isVariable with
  | false => rw [h.term hm ha, ha]
  | true =>
    cases hb : (s₂.walk b).isVariable with
    | true => rfl
    | false =>
      rw [h.symm.term hm.symm hb, hb] at ha
      cases ha

/-- The variables that lead to a free one lead to the free one it agrees with. -/
theorem Agree.reaches (hm : Mirrors s₁ s₂) (h₁ : s₁.Acyclic) (h₂ : s₂.Acyclic) {v w u : String}
    (hv : s₁.get? v = none) (h : Agree s₁ s₂ (.var v) (.var w)) (hreach : Reaches s₂ w u) :
    Reaches s₁ v u := by
  have hvars : ∀ {x y : String}, x ∈ (Term.var y).vars ↔ x = y := by simp [Term.vars]
  -- A variable leads where the variables at the end of its walk do.
  have hwalk : ∀ {x y : String}, y ∈ (s₁.walk (.var x)).vars → Reaches s₁ v y → Reaches s₁ v x := by
    intro x y hy hreach
    obtain ⟨z, hz, hreach⟩ := (leads_walk_iff h₁ hv).mp ⟨y, hy, hreach⟩
    rwa [hvars.mp hz] at hreach
  obtain ⟨rank, hr⟩ := id h₂
  induction hreach with
  | here =>
    have hend : s₁.walk (.var w) = .var v := by
      rw [← (Agree.walk_iff hm h (agree_self s₁ s₂ (.var w))).mpr rfl, walk_free hv]
    exact hwalk (by rw [hend]; exact hvars.mpr rfl) .here
  | @through u x t hu hx _ ih =>
    have hut : s₂.walk (.var u) = s₂.walk t := hr.walk_bound hu
    cases ht : t.isVariable with
    | false =>
      rw [walk_of_not_variable ht] at hut
      have hend : s₁.walk (.var u) = t := (hm.termsBack (.var u) (by rw [hut, ht])).trans hut
      exact hwalk (by rwa [hend]) ih
    | true =>
      obtain ⟨y, rfl⟩ := Term.isVariable_iff.mp ht
      obtain rfl := hvars.mp hx
      have hend : s₁.walk (.var u) = s₁.walk (.var x) := (hm.classes _ _).mpr hut
      obtain ⟨z, hz, hreach⟩ := (leads_walk_iff h₁ hv).mpr ⟨x, hvars.mpr rfl, ih⟩
      exact hwalk (by rwa [hend]) hreach

end

/-! ## Two ends made one -/

/-- Of two terms in the one substitution and two in the other, one agrees with one
and the other with the other. -/
def Paired (s₁ s₂ : Substitution) (e₁ e₂ : Term × Term) : Prop :=
  Agree s₁ s₂ e₁.1 e₂.1 ∧ Agree s₁ s₂ e₁.2 e₂.2 ∨ Agree s₁ s₂ e₁.1 e₂.2 ∧ Agree s₁ s₂ e₁.2 e₂.1

/-- Walks to the end of `a`, a variable, are prolonged to the end of `b`; other walks
end where they did. -/
structure Merges (s s' : Substitution) (a b : Term) : Prop where
  isVariable : (s.walk a).isVariable = true
  walk : ∀ u, s'.walk u = if s.walk u = s.walk a then s.walk b else s.walk u

section

variable {s s' s₁ s₂ s₁' s₂' : Substitution} {a b a₁ b₁ a₂ b₂ : Term}

theorem Paired.symm {e₁ e₂ : Term × Term} (h : Paired s₁ s₂ e₁ e₂) : Paired s₂ s₁ e₂ e₁ :=
  h.imp (fun h => ⟨h.1.symm, h.2.symm⟩) fun h => ⟨h.2.symm, h.1.symm⟩

theorem merges_bind {v : String} {t : Term} (hs : s.Acyclic) (hv : s.get? v = none)
    (hfar : ∀ w ∈ t.vars, ¬ Reaches s v w) (ht : s.walk t = t) :
    Merges s (s.bind v t) (.var v) t where
  isVariable := by rw [walk_free hv]; rfl
  walk u := by rw [walk_free hv, ht, walk_bind hs hv hfar ht]

theorem Merges.walk_eq (h : Merges s s' a b) {t u : Term} (htu : s.walk t = s.walk u) :
    s'.walk t = s'.walk u := by
  rw [h.walk, h.walk, htu]

/-- Two walks have one end afterwards if they had one before or ended at the two
ends that are made one. -/
theorem Merges.walk_iff (h : Merges s s' a b) (t u : Term) :
    s'.walk t = s'.walk u ↔ s.walk t = s.walk u ∨
      (s.walk t = s.walk a ∨ s.walk t = s.walk b) ∧ (s.walk u = s.walk a ∨ s.walk u = s.walk b) := by
  rw [h.walk, h.walk]
  split <;> split <;> grind

theorem Agree.merge (h₁ : Merges s₁ s₁' a₁ b₁) (h₂ : Merges s₂ s₂' a₂ b₂)
    (h : Agree s₁ s₂ a b) : Agree s₁' s₂' a b :=
  have ⟨u, ha, hb⟩ := h
  ⟨u, h₁.walk_eq ha, h₂.walk_eq hb⟩

theorem Paired.merge {e₁ e₂ : Term × Term} (h₁ : Merges s₁ s₁' a₁ b₁)
    (h₂ : Merges s₂ s₂' a₂ b₂) (h : Paired s₁ s₂ e₁ e₂) : Paired s₁' s₂' e₁ e₂ :=
  h.imp (fun h => ⟨h.1.merge h₁ h₂, h.2.merge h₁ h₂⟩) fun h => ⟨h.1.merge h₁ h₂, h.2.merge h₁ h₂⟩

/-- A walk that ends at one of the two ends in the one substitution does so in the
other. -/
theorem Paired.ends_iff (hm : Mirrors s₁ s₂) (h : Paired s₁ s₂ (a₁, b₁) (a₂, b₂)) (t : Term) :
    s₁.walk t = s₁.walk a₁ ∨ s₁.walk t = s₁.walk b₁ ↔
      s₂.walk t = s₂.walk a₂ ∨ s₂.walk t = s₂.walk b₂ := by
  have ht := agree_self s₁ s₂ t
  rcases h with ⟨ha, hb⟩ | ⟨ha, hb⟩
  · rw [ht.walk_iff hm ha, ht.walk_iff hm hb]
  · rw [ht.walk_iff hm ha, ht.walk_iff hm hb, or_comm]

theorem Mirrors.merge_terms (hm : Mirrors s₁ s₂) (h₁ : Merges s₁ s₁' a₁ b₁)
    (h₂ : Merges s₂ s₂' a₂ b₂) (hpair : Paired s₁ s₂ (a₁, b₁) (a₂, b₂)) (t : Term)
    (ht : (s₁'.walk t).isVariable = false) : s₂'.walk t = s₁'.walk t := by
  have hself := agree_self s₁ s₂ t
  rw [h₁.walk] at ht ⊢
  split at ht
  · rename_i hend
    rw [if_pos hend]
    rcases hpair with ⟨ha, hb⟩ | ⟨_, hb⟩
    · rw [h₂.walk, if_pos ((hself.walk_iff hm ha).mp hend)]
      exact hb.term hm ht
    · -- The end that `b₁` walks to is a variable in the other substitution.
      have := hb.isVariable hm
      rw [h₂.isVariable, ht] at this
      cases this
  · rename_i hend
    have hsame : s₂.walk t = s₁.walk t := hm.terms t ht
    rw [if_neg hend, h₂.walk, if_neg, hsame]
    intro hend₂
    have := h₂.isVariable
    rw [← hend₂, hsame, ht] at this
    cases this

/-- Making the same two ends one, either way round, keeps the mirror. -/
theorem Mirrors.merge (hm : Mirrors s₁ s₂) (h₁ : Merges s₁ s₁' a₁ b₁)
    (h₂ : Merges s₂ s₂' a₂ b₂) (hpair : Paired s₁ s₂ (a₁, b₁) (a₂, b₂)) :
    Mirrors s₁' s₂' where
  classes t u := by
    rw [h₁.walk_iff, h₂.walk_iff, hm.classes, hpair.ends_iff hm, hpair.ends_iff hm]
  terms := hm.merge_terms h₁ h₂ hpair
  termsBack := hm.symm.merge_terms h₂ h₁ hpair.symm

end

end Clausal.Substitution
