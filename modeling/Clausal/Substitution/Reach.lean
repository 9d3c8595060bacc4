import Clausal.Substitution.Basic

/-
  Reach — which variables the bindings of a variable lead to

  A variable reaches itself and, when it is bound, whatever the variables of its
  term reach. The search takes variables from a list; a bound one gives way to
  the variables of its term and its binding is set aside, so that no binding is
  followed twice, however often its variable occurs. The search ends at the
  first hit.

  What is proved:
    1. `leadTo_iff` — the search succeeds exactly when one of the variables it
       starts from reaches the one it looks for.
    2. `reaches_of_mem_apply` — following bindings brings a variable into a term
       only when one of the term's own variables reaches it.
-/

namespace Clausal.Substitution

/-- From the variable `u` bindings lead to the variable `v`. -/
inductive Reaches (s : Substitution) (v : String) : String → Prop where
  | here : Reaches s v v
  | through {u w : String} {t : Term} : s.get? u = some t → w ∈ t.vars → Reaches s v w →
    Reaches s v u

/-- Whether one of these variables reaches `v`. -/
def leadTo (s : Substitution) (v : String) (pending : List String) : Bool :=
  match pending with
  | [] => false
  | w :: rest =>
    if w = v then true
    else
      match _h : s.get? w with
      | some t => (s.erase w).leadTo v (t.vars ++ rest)
      | none => s.leadTo v rest
termination_by (s.bindings.length, pending.length)
decreasing_by
  · exact Prod.Lex.left _ _ (erase_length_lt _h)
  · exact Prod.Lex.right _ (by simp)

theorem Reaches.of_erase {s : Substitution} {v w u : String} (h : Reaches (s.erase u) v w) :
    Reaches s v w := by
  induction h with
  | here => exact .here
  | through hw hx _ ih =>
    rw [get?_erase] at hw
    split at hw
    · simp at hw
    · exact .through hw hx ih

/-- Without the binding of `u` a variable reaches as far, except through `u`,
and from there the variables of its term do. -/
theorem Reaches.erase {s : Substitution} {v w u : String} {t : Term} (hu : s.get? u = some t)
    (hne : u ≠ v) (h : Reaches s v w) :
    Reaches (s.erase u) v w ∨ ∃ x ∈ t.vars, Reaches (s.erase u) v x := by
  induction h with
  | here => exact Or.inl .here
  | @through w x b hw hx _ ih =>
    rcases ih with ih | ih
    · by_cases hwu : w = u
      · subst hwu
        rw [hu] at hw
        obtain rfl := Option.some.inj hw
        exact Or.inr ⟨x, hx, ih⟩
      · exact Or.inl (.through (by rw [get?_erase, if_neg hwu, hw]) hx ih)
    · exact Or.inr ih

theorem Reaches.eq_of_free {s : Substitution} {v w : String} (hw : s.get? w = none)
    (h : Reaches s v w) : w = v := by
  cases h with
  | here => rfl
  | through hb _ _ => simp [hw] at hb

theorem leadTo_iff {s : Substitution} {v : String} {pending : List String} :
    s.leadTo v pending = true ↔ ∃ w ∈ pending, Reaches s v w := by
  fun_induction leadTo s v pending with
  | case1 s => simp
  | case2 s rest => exact ⟨fun _ => ⟨v, List.mem_cons_self, .here⟩, fun _ => rfl⟩
  | case3 s w rest hne t ht ih =>
    rw [ih]
    constructor
    · rintro ⟨x, hx, hreach⟩
      rcases List.mem_append.mp hx with hx | hx
      · exact ⟨w, List.mem_cons_self, .through ht hx hreach.of_erase⟩
      · exact ⟨x, List.mem_cons_of_mem _ hx, hreach.of_erase⟩
    · rintro ⟨x, hx, hreach⟩
      rcases hreach.erase ht hne with hfar | ⟨y, hy, hfar⟩
      · rcases List.mem_cons.mp hx with rfl | hx
        · have := hfar.eq_of_free (by rw [get?_erase, if_pos rfl])
          exact absurd this hne
        · exact ⟨x, List.mem_append_right _ hx, hfar⟩
      · exact ⟨y, List.mem_append_left _ hy, hfar⟩
  | case4 s w rest hne hw ih =>
    rw [ih]
    constructor
    · rintro ⟨x, hx, hreach⟩
      exact ⟨x, List.mem_cons_of_mem _ hx, hreach⟩
    · rintro ⟨x, hx, hreach⟩
      rcases List.mem_cons.mp hx with rfl | hx
      · exact absurd (hreach.eq_of_free hw) hne
      · exact ⟨x, hx, hreach⟩

theorem reaches_of_mem_apply {s : Substitution} {v : String} {t : Term}
    (h : v ∈ (s.apply t).vars) : ∃ w ∈ t.vars, Reaches s v w := by
  fun_induction apply s t with
  | case1 s u bound hu ih =>
    obtain ⟨w, hw, hreach⟩ := ih h
    exact ⟨u, by simp [Term.vars], .through hu hw hreach.of_erase⟩
  | case2 s u hu =>
    simp only [Term.vars, List.mem_singleton] at h
    subst h
    exact ⟨v, by simp [Term.vars], .here⟩
  | case3 s f args ih =>
    simp only [Term.vars, Term.varsAll_eq, List.mem_flatMap, List.mem_map] at h
    obtain ⟨_, ⟨arg, harg, rfl⟩, hv⟩ := h
    obtain ⟨w, hw, hreach⟩ := ih arg harg hv
    refine ⟨w, ?_, hreach⟩
    simp only [Term.vars, Term.varsAll_eq, List.mem_flatMap]
    exact ⟨arg, harg, hw⟩
  | case4 s t hvar hcompound => exact ⟨v, h, .here⟩

end Clausal.Substitution
