import Clausal.Unification.Measure

/-
  Unification — making terms equal by binding variables

  Equations are taken one after another from a list. Each is met by the
  bindings so far, gives way to equations between smaller terms, binds a
  variable, or cannot be met. A variable is never bound to a term that leads
  back to it. The anonymous variable equals anything and is never bound.

  What is proved:
    1. `step_replace_weight` and `step_bind` — each step makes the equations
       lighter or binds a variable that was free, so that unification ends.
    2. `step_bind_acyclic` — no step closes a circle of bindings.
-/

namespace Clausal

/-- Two terms to be made equal. -/
abbrev Equation := Term × Term

namespace Substitution

/-- What becomes of an equation. -/
inductive Step where
  | fail
  | replace (equations : List Equation)
  | bind (v : String) (t : Term)
  deriving DecidableEq

/-- The term that a variable stands for, when it is bound. -/
def boundTerm? (s : Substitution) : Term → Option Term
  | .var v => s.get? v
  | _ => none

/-- Makes the variable `v` equal to a term: a bound one gives way to what it is
bound to, a free one is bound unless the term leads back to it. -/
def stepVar (s : Substitution) (v : String) (t : Term) : Step :=
  if v == Term.anonymousName || t.isAnonymous then .replace []
  else
    match s.get? v, s.boundTerm? t with
    | some bound, _ => .replace [(bound, t)]
    | none, some bound => .replace [(.var v, bound)]
    | none, none => if s.leadTo v t.vars then .fail else .bind v t

/-- What becomes of the equation of two terms. -/
def step (s : Substitution) (x y : Term) : Step :=
  if x == y then .replace []
  else
    match x, y with
    | .var v, t => s.stepVar v t
    | t, .var v => s.stepVar v t
    | .compound f xs, .compound g ys =>
      if f = g ∧ xs.length = ys.length then .replace (xs.zip ys) else .fail
    | _, _ => .fail

/-! ## What a step may do -/

/-- The weight of both sides of all equations. -/
def weightAll (s : Substitution) (equations : List Equation) : Nat :=
  total (equations.map fun (x, y) => s.weight x + s.weight y)

/-- The variables of both sides of all equations. -/
def variablesOf (equations : List Equation) : List String :=
  equations.flatMap fun (x, y) => x.vars ++ y.vars

theorem weightAll_append (s : Substitution) (a b : List Equation) :
    s.weightAll (a ++ b) = s.weightAll a + s.weightAll b := by
  simp [weightAll]

theorem weightAll_zip_le (s : Substitution) (xs ys : List Term) :
    s.weightAll (xs.zip ys) ≤ total (xs.map s.weight) + total (ys.map s.weight) := by
  induction xs generalizing ys with
  | nil => simp [weightAll]
  | cons x xs ih =>
    cases ys with
    | nil => simp [weightAll]
    | cons y ys =>
      have := ih ys
      simp only [weightAll, List.zip_cons_cons, List.map_cons, total_cons] at this ⊢
      omega

theorem boundTerm?_eq_some {s : Substitution} {t b : Term} (h : s.boundTerm? t = some b) :
    ∃ u, t = .var u ∧ s.get? u = some b := by
  cases t with
  | var u => exact ⟨u, rfl, h⟩
  | _ => simp [boundTerm?] at h

theorem stepVar_replace_weight {s : Substitution} {v : String} {t : Term} {more : List Equation}
    (hs : s.Acyclic) (h : s.stepVar v t = .replace more) :
    s.weightAll more < s.weight (.var v) + s.weight t := by
  obtain ⟨rank, hr⟩ := hs
  have hpos := weight_pos s (.var v)
  unfold stepVar at h
  split at h
  · obtain rfl := Step.replace.inj h
    simp only [weightAll, List.map_nil, total_nil]
    omega
  · split at h
    · rename_i bound hv
      obtain rfl := Step.replace.inj h
      have := hr.weight_bound hv
      simp only [weightAll, List.map_cons, List.map_nil, total_cons, total_nil]
      omega
    · rename_i bound hv ht
      obtain rfl := Step.replace.inj h
      obtain ⟨u, rfl, hu⟩ := boundTerm?_eq_some ht
      have := hr.weight_bound hu
      simp only [weightAll, List.map_cons, List.map_nil, total_cons, total_nil]
      omega
    · split at h <;> simp at h

theorem step_replace_weight {s : Substitution} {x y : Term} {more : List Equation}
    (hs : s.Acyclic) (h : s.step x y = .replace more) :
    s.weightAll more < s.weight x + s.weight y := by
  unfold step at h
  split at h
  · obtain rfl := Step.replace.inj h
    have := weight_pos s x
    simp only [weightAll, List.map_nil, total_nil]
    omega
  · split at h
    · exact stepVar_replace_weight hs h
    · have := stepVar_replace_weight hs h
      omega
    · split at h
      · obtain rfl := Step.replace.inj h
        rename_i xs _ ys _ _
        have := weightAll_zip_le s xs ys
        simp only [weight_compound]
        omega
      · simp at h
    · simp at h

theorem stepVar_replace_variables {s : Substitution} {v w : String} {t : Term}
    {more : List Equation} (h : s.stepVar v t = .replace more) (hw : w ∈ variablesOf more) :
    w = v ∨ w ∈ t.vars ∨ ∃ u b, s.get? u = some b ∧ w ∈ b.vars := by
  unfold stepVar at h
  split at h
  · obtain rfl := Step.replace.inj h
    simp [variablesOf] at hw
  · split at h
    · rename_i bound hv
      obtain rfl := Step.replace.inj h
      simp only [variablesOf, List.flatMap_cons, List.flatMap_nil, List.append_nil,
        List.mem_append] at hw
      rcases hw with hw | hw
      · exact Or.inr (Or.inr ⟨v, bound, hv, hw⟩)
      · exact Or.inr (Or.inl hw)
    · rename_i bound hv ht
      obtain rfl := Step.replace.inj h
      simp only [variablesOf, List.flatMap_cons, List.flatMap_nil, List.append_nil,
        List.mem_append, Term.vars, List.mem_singleton] at hw
      rcases hw with hw | hw
      · exact Or.inl hw
      · obtain ⟨u, rfl, hu⟩ := boundTerm?_eq_some ht
        exact Or.inr (Or.inr ⟨u, bound, hu, hw⟩)
    · split at h <;> simp at h

theorem step_replace_variables {s : Substitution} {x y : Term} {w : String}
    {more : List Equation} (h : s.step x y = .replace more) (hw : w ∈ variablesOf more) :
    w ∈ x.vars ∨ w ∈ y.vars ∨ ∃ u b, s.get? u = some b ∧ w ∈ b.vars := by
  unfold step at h
  split at h
  · obtain rfl := Step.replace.inj h
    simp [variablesOf] at hw
  · split at h
    · rcases stepVar_replace_variables h hw with rfl | hw | hw
      · exact Or.inl (by simp [Term.vars])
      · exact Or.inr (Or.inl hw)
      · exact Or.inr (Or.inr hw)
    · rcases stepVar_replace_variables h hw with rfl | hw | hw
      · exact Or.inr (Or.inl (by simp [Term.vars]))
      · exact Or.inl hw
      · exact Or.inr (Or.inr hw)
    · split at h
      · obtain rfl := Step.replace.inj h
        simp only [variablesOf, List.mem_flatMap, List.mem_append] at hw
        obtain ⟨⟨a, b⟩, hab, hw⟩ := hw
        simp only [Term.vars, Term.varsAll_eq, List.mem_flatMap]
        rcases hw with hw | hw
        · exact Or.inl ⟨a, (List.of_mem_zip hab).1, hw⟩
        · exact Or.inr (Or.inl ⟨b, (List.of_mem_zip hab).2, hw⟩)
      · simp at h
    · simp at h

/-- A binding is made only of a free variable on one side to the term on the
other, which does not lead back to it. -/
theorem step_bind {s : Substitution} {x y t : Term} {v : String} (h : s.step x y = .bind v t) :
    s.get? v = none ∧ (∀ w ∈ t.vars, ¬ s.Reaches v w) ∧
      ((x = .var v ∧ y = t) ∨ (y = .var v ∧ x = t)) := by
  have key : ∀ {w : String} {u : Term}, s.stepVar w u = .bind v t →
      s.get? v = none ∧ (∀ w ∈ t.vars, ¬ s.Reaches v w) ∧ w = v ∧ u = t := by
    intro w u hstep
    unfold stepVar at hstep
    split at hstep
    · simp at hstep
    · split at hstep
      · simp at hstep
      · simp at hstep
      · rename_i hw _
        split at hstep
        · simp at hstep
        · rename_i hlead
          obtain ⟨rfl, rfl⟩ := Step.bind.inj hstep
          exact ⟨hw, fun x hx hreach => hlead (leadTo_iff.mpr ⟨x, hx, hreach⟩), rfl, rfl⟩
  unfold step at h
  split at h
  · simp at h
  · split at h
    · obtain ⟨h₁, h₂, rfl, rfl⟩ := key h
      exact ⟨h₁, h₂, Or.inl ⟨rfl, rfl⟩⟩
    · obtain ⟨h₁, h₂, rfl, rfl⟩ := key h
      exact ⟨h₁, h₂, Or.inr ⟨rfl, rfl⟩⟩
    · split at h <;> simp at h
    · simp at h

theorem step_bind_acyclic {s : Substitution} {x y t : Term} {v : String} (hs : s.Acyclic)
    (h : s.step x y = .bind v t) : (s.bind v t).Acyclic :=
  have ⟨hv, hfar, _⟩ := step_bind h
  hs.bind hv hfar

/-! ## All equations -/

/-- Bindings without a circle, and a list that holds every variable of the
equations and of the bound terms. -/
structure Fits (scope : List String) (equations : List Equation) (s : Substitution) : Prop where
  acyclic : s.Acyclic
  equations : ∀ w ∈ variablesOf equations, w ∈ scope
  bindings : ∀ v t, s.get? v = some t → ∀ w ∈ t.vars, w ∈ scope

theorem mem_variablesOf_cons {x y : Term} {rest : List Equation} {w : String} :
    w ∈ variablesOf ((x, y) :: rest) ↔
      w ∈ x.vars ∨ w ∈ y.vars ∨ w ∈ variablesOf rest := by
  simp [variablesOf]

theorem Fits.replace {scope : List String} {x y : Term} {rest more : List Equation}
    {s : Substitution} (h : Fits scope ((x, y) :: rest) s) (hm : s.step x y = .replace more) :
    Fits scope (more ++ rest) s where
  acyclic := h.acyclic
  equations w hw := by
    simp only [variablesOf, List.flatMap_append, List.mem_append] at hw
    have hin := fun hw => h.equations w (mem_variablesOf_cons.mpr hw)
    rcases hw with hw | hw
    · rcases step_replace_variables hm hw with hx | hy | ⟨u, b, hu, hb⟩
      · exact hin (Or.inl hx)
      · exact hin (Or.inr (Or.inl hy))
      · exact h.bindings u b hu w hb
    · exact hin (Or.inr (Or.inr hw))
  bindings := h.bindings

theorem Fits.bind {scope : List String} {x y t : Term} {rest : List Equation} {v : String}
    {s : Substitution} (h : Fits scope ((x, y) :: rest) s) (hb : s.step x y = .bind v t) :
    v ∈ scope ∧ Fits scope rest (s.bind v t) := by
  have ⟨hv, _, hsides⟩ := step_bind hb
  have hin := fun w hw => h.equations w (mem_variablesOf_cons.mpr hw)
  have hboth : v ∈ scope ∧ ∀ w ∈ t.vars, w ∈ scope := by
    rcases hsides with ⟨rfl, rfl⟩ | ⟨rfl, rfl⟩
    · exact ⟨hin v (Or.inl (by simp [Term.vars])), fun w hw => hin w (Or.inr (Or.inl hw))⟩
    · exact ⟨hin v (Or.inr (Or.inl (by simp [Term.vars]))), fun w hw => hin w (Or.inl hw)⟩
  refine ⟨hboth.1, step_bind_acyclic h.acyclic hb, fun w hw => hin w (Or.inr (Or.inr hw)), ?_⟩
  intro u b hu w hw
  rw [get?_bind hv] at hu
  split at hu
  · obtain rfl := Option.some.inj hu
    exact hboth.2 w hw
  · exact h.bindings u b hu w hw

/-- Meets the equations one after another, in depth before breadth, adding
bindings at the end. -/
def solve (scope : List String) (equations : List Equation) (s : Substitution)
    (h : Fits scope equations s) : Option Substitution :=
  match equations with
  | [] => some s
  | (x, y) :: rest =>
    match hstep : s.step x y with
    | .fail => none
    | .replace more => solve scope (more ++ rest) s (h.replace hstep)
    | .bind v t => solve scope rest (s.bind v t) (h.bind hstep).2
termination_by (s.free scope, s.weightAll equations)
decreasing_by
  · have := step_replace_weight h.acyclic hstep
    refine Prod.Lex.right _ ?_
    rw [weightAll_append]
    simp only [weightAll, List.map_cons, total_cons] at this ⊢
    omega
  · have ⟨hv, _, _⟩ := step_bind hstep
    exact Prod.Lex.left _ _ (free_bind_lt hv (h.bind hstep).1)

/-- The variables of some equations and of the terms bound in a substitution. -/
def scopeOf (equations : List Equation) (s : Substitution) : List String :=
  variablesOf equations ++ s.bindings.flatMap fun (_, t) => t.vars

theorem fits_of_acyclic (equations : List Equation) {s : Substitution} (h : s.Acyclic) :
    Fits (scopeOf equations s) equations s where
  acyclic := h
  equations _ hw := List.mem_append_left _ hw
  bindings v t hv _ hw :=
    List.mem_append_right _ (List.mem_flatMap.mpr ⟨(v, t), lookup_mem hv, hw⟩)

theorem fits_scopeOf {equations : List Equation} {s : Substitution} (h : s.isCyclic = false) :
    Fits (scopeOf equations s) equations s :=
  fits_of_acyclic equations (acyclic_of_isCyclic h)

/-- Adds the bindings that meet all the equations; there are none for a
substitution that runs in a circle. -/
def extend (s : Substitution) (equations : List Equation) : Option Substitution :=
  if h : s.isCyclic = false then solve (scopeOf equations s) equations s (fits_scopeOf h)
  else none

/-- Adds the bindings that make two terms equal. -/
def unify (s : Substitution) (x y : Term) : Option Substitution := s.extend [(x, y)]

/-- The bindings as equations. -/
def equations (s : Substitution) : List Equation := s.bindings.map fun (v, t) => (.var v, t)

/-- The bindings that meet those of both substitutions, followed to their end. -/
def combine (s t : Substitution) : Option Substitution := (s.extend t.equations).map resolved

end Substitution

/-- The most general bindings that make two terms equal, followed to their
end. -/
def mgu (x y : Term) : Option Substitution := ((∅ : Substitution).unify x y).map (·.resolved)

end Clausal
