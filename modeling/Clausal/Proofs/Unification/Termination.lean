import Clausal.Proofs.Unification.Calls

/-
  Termination of unification — no call leads to an endless chain of calls

  A call is measured by the free variables its bindings leave and, as long as no
  binding is made, by the weight of its terms with all bindings followed. Following
  a binding takes one off the weight, and so does going to the arguments of a
  compound; a binding may raise weights, but leaves one variable fewer free. Where
  a call hands on its terms as they are, it hands them to a function further down.
  The bindings have to be acyclic, or the weight would not count every binding that
  is followed.

  What is proved:
    1. `Run.fits` — a run keeps to the variables it began with, and makes a binding
       or changes nothing.
    2. `Calls.fits` and `Calls.below` — a call keeps to the variables of the call
       that makes it, and is measured below it.
    3. `acc_of_acyclic` — from a call with acyclic bindings no endless chain of
       calls leads.
    4. `unify_terminates` — unification is the recursion, and the recursion comes
       back with one result.
    5. `not_acc_of_circle` (anti-vacuity) — variables bound in a circle do lead to
       an endless chain of calls.
-/

namespace Clausal

open Term (anonymousName)

namespace Substitution

variable {s final : Substitution} {scope : List String}

/-! ## The measure -/

theorem weightAll_nil (s : Substitution) : s.weightAll [] = 0 := rfl

theorem weightAll_cons (s : Substitution) (x y : Term) (rest : List Equation) :
    s.weightAll ((x, y) :: rest) = s.weight x + s.weight y + s.weightAll rest := rfl

theorem variablesOf_singleton (x y : Term) : variablesOf [(x, y)] = x.vars ++ y.vars := by
  simp [variablesOf]

namespace Call

/-- The bindings a call is given. -/
def store : Call → Substitution
  | .extend s _ _ | .extendAll s _ | .extendVar s _ _ | .occurs s _ _ => s

/-- The terms a call is given, as equations. -/
def equations : Call → List Equation
  | .extend _ x y => [(x, y)]
  | .extendAll _ equations => equations
  | .extendVar _ v t | .occurs _ v t => [(.var v, t)]

/-- Which functions a call may hand its terms to as they are: those further
down. -/
def height : Call → Nat
  | .extendAll _ _ => 3
  | .extend _ _ _ => 2
  | .extendVar _ _ _ => 1
  | .occurs _ _ _ => 0

/-- The weight of the terms, then the height of the function. -/
def size (call : Call) : Nat := 4 * call.store.weightAll call.equations + call.height

theorem size_extend (s : Substitution) (x y : Term) :
    (Call.extend s x y).size = 4 * (s.weight x + s.weight y) + 2 := rfl

theorem size_extendAll (s : Substitution) (equations : List Equation) :
    (Call.extendAll s equations).size = 4 * s.weightAll equations + 3 := rfl

theorem size_extendVar (s : Substitution) (v : String) (t : Term) :
    (Call.extendVar s v t).size = 4 * (s.weight (.var v) + s.weight t) + 1 := rfl

theorem size_occurs (s : Substitution) (v : String) (t : Term) :
    (Call.occurs s v t).size = 4 * (s.weight (.var v) + s.weight t) := rfl

/-- Acyclic bindings, and a list that holds every variable of the call. -/
def Fits (scope : List String) (call : Call) : Prop :=
  Substitution.Fits scope call.equations call.store

/-- Fewer free variables, or the same bindings and a smaller size. -/
def Below (scope : List String) (callee caller : Call) : Prop :=
  callee.store.free scope < caller.store.free scope ∨
    callee.store = caller.store ∧ callee.size < caller.size

end Call

theorem Fits.of_variables {equations others : List Equation} (h : Fits scope equations s)
    (hothers : ∀ w ∈ variablesOf others,
      w ∈ variablesOf equations ∨ ∃ u b, s.get? u = some b ∧ w ∈ b.vars) :
    Fits scope others s where
  acyclic := h.acyclic
  equations w hw := by
    rcases hothers w hw with hw | ⟨u, b, hu, hb⟩
    · exact h.equations w hw
    · exact h.bindings u b hu w hb
  bindings := h.bindings

/-- A run keeps to the variables it began with. It makes a binding or changes
nothing. -/
theorem Run.fits {equations rest : List Equation} (h : Run equations s final)
    (hfits : Fits scope (equations ++ rest) s) :
    Fits scope rest final ∧ (final.free scope < s.free scope ∨ final = s) := by
  induction h with
  | done s => exact ⟨hfits, Or.inr rfl⟩
  | replace hstep _ ih =>
    refine ih ?_
    rw [List.append_assoc]
    exact hfits.replace hstep
  | @bind x y t v _ s _ hstep _ ih =>
    have ⟨hv, _, _⟩ := step_bind hstep
    have ⟨hscope, hfits⟩ := hfits.bind hstep
    have hfree : (s.bind v t).free scope < s.free scope := free_bind_lt hv hscope
    obtain ⟨hrest, hlt | rfl⟩ := ih hfits
    · exact ⟨hrest, Or.inl (Nat.lt_trans hlt hfree)⟩
    · exact ⟨hrest, Or.inl hfree⟩

theorem Returns.run {x y : Term} (hfits : Fits scope [(x, y)] s)
    (h : Returns (.extend s x y) (some final)) : Run [(x, y)] s final :=
  run_of_solve (h.singleton.eq_solve hfits).symm

theorem Fits.first {x y : Term} {rest : List Equation} (h : Fits scope ((x, y) :: rest) s) :
    Fits scope [(x, y)] s :=
  h.of_variables fun w hw => Or.inl (mem_variablesOf_cons.mpr (by
    rw [variablesOf_singleton, List.mem_append] at hw
    exact hw.imp_right Or.inl))

theorem Fits.stepVar {v : String} {t : Term} {more : List Equation}
    (h : Fits scope [(.var v, t)] s) (hstep : s.stepVar v t = .replace more) :
    Fits scope more s :=
  h.of_variables fun w hw => by
    rw [variablesOf_singleton, List.mem_append, Term.vars, List.mem_singleton]
    exact or_assoc.mpr (stepVar_replace_variables hstep hw)

/-- A call keeps to the variables of the call that makes it. -/
theorem Calls.fits {callee caller : Call} (h : Calls callee caller) (hfits : caller.Fits scope) :
    callee.Fits scope := by
  cases h with
  | left _ => exact hfits
  | right _ _ =>
    refine Fits.of_variables hfits fun w hw => Or.inl ?_
    simp only [Call.equations, variablesOf_singleton, List.mem_append] at hw ⊢
    exact hw.symm
  | parts hne hlength =>
    have := Fits.replace hfits (step_of_parts hne hlength)
    rwa [List.append_nil] at this
  | first => exact Fits.first hfits
  | next hfirst => exact ((hfirst.run (Fits.first hfits)).fits hfits).1
  | followed hany hv => exact Fits.stepVar hfits (stepVar_of_bound hany hv)
  | followedRight hany hv hu => exact Fits.stepVar hfits (stepVar_of_boundTerm hany hv hu)
  | search _ _ _ => exact hfits
  | @through _ v u t _ hu =>
    refine Fits.of_variables hfits fun w hw => ?_
    simp only [Call.equations, variablesOf_singleton, List.mem_append] at hw ⊢
    rcases hw with hw | hw
    · exact Or.inl (Or.inl hw)
    · exact Or.inr ⟨u, t, hu, hw⟩
  | @argument _ v f before behind arg _ =>
    refine Fits.of_variables hfits fun w hw => Or.inl ?_
    simp only [Call.equations, variablesOf_singleton, List.mem_append] at hw ⊢
    refine hw.imp_right fun hw => ?_
    rw [Term.vars, Term.varsAll_eq, List.mem_flatMap]
    exact ⟨arg, by simp, hw⟩

/-- A call is below the call that makes it. -/
theorem Calls.below {callee caller : Call} (h : Calls callee caller) (hfits : caller.Fits scope) :
    callee.Below scope caller := by
  cases h with
  | left _ => exact Or.inr ⟨rfl, by rw [Call.size_extendVar, Call.size_extend]; omega⟩
  | right _ _ => exact Or.inr ⟨rfl, by rw [Call.size_extendVar, Call.size_extend]; omega⟩
  | @parts s f xs ys hne hlength =>
    have hs : s.Acyclic := hfits.acyclic
    have := step_replace_weight hs (step_of_parts hne hlength)
    exact Or.inr ⟨rfl, by rw [Call.size_extendAll, Call.size_extend]; omega⟩
  | first =>
    exact Or.inr ⟨rfl, by rw [Call.size_extendAll, Call.size_extend, weightAll_cons]; omega⟩
  | @next s next x y rest hfirst =>
    rcases ((hfirst.run (Fits.first hfits)).fits hfits).2 with hlt | rfl
    · exact Or.inl hlt
    · have := weight_pos next x
      exact Or.inr ⟨rfl, by rw [Call.size_extendAll, Call.size_extendAll, weightAll_cons]; omega⟩
  | @followed s v t bound hany hv =>
    have hs : s.Acyclic := hfits.acyclic
    have := stepVar_replace_weight hs (stepVar_of_bound hany hv)
    rw [weightAll_cons, weightAll_nil] at this
    exact Or.inr ⟨rfl, by rw [Call.size_extend, Call.size_extendVar]; omega⟩
  | @followedRight s v u bound hany hv hu =>
    have hs : s.Acyclic := hfits.acyclic
    have := stepVar_replace_weight hs (stepVar_of_boundTerm hany hv hu)
    rw [weightAll_cons, weightAll_nil] at this
    exact Or.inr ⟨rfl, by rw [Call.size_extend, Call.size_extendVar]; omega⟩
  | search _ _ _ => exact Or.inr ⟨rfl, by rw [Call.size_occurs, Call.size_extendVar]; omega⟩
  | @through s v u t _ hu =>
    obtain ⟨rank, hr⟩ : s.Acyclic := hfits.acyclic
    have := hr.weight_bound hu
    exact Or.inr ⟨rfl, by rw [Call.size_occurs, Call.size_occurs]; omega⟩
  | @argument s v f before behind arg _ =>
    have hle : s.weight arg < s.weight (.compound f (before ++ arg :: behind)) := by
      rw [weight_compound, List.map_append, total_append, List.map_cons, total_cons]
      omega
    exact Or.inr ⟨rfl, by rw [Call.size_occurs, Call.size_occurs]; omega⟩

/-! ## Every chain of calls ends -/

theorem acc_of_fits (call : Call) (h : call.Fits scope) : Acc Calls call :=
  .intro call fun callee hcall => acc_of_fits callee (hcall.fits h)
termination_by (call.store.free scope, call.size)
decreasing_by
  rcases hcall.below h with hlt | ⟨heq, hlt⟩
  · exact Prod.Lex.left _ _ hlt
  · rw [heq]
    exact Prod.Lex.right _ hlt

/-- From a call with acyclic bindings no endless chain of calls leads. -/
theorem acc_of_acyclic {call : Call} (h : call.store.Acyclic) : Acc Calls call :=
  acc_of_fits call (fits_of_acyclic call.equations h)

/-- Where variables are bound in a circle, a call can lead to an endless chain of
calls. -/
theorem not_acc_of_circle (circle : List String) {v : String} {t : Term}
    (hcircle : ∀ v ∈ circle, v ≠ anonymousName ∧ ∃ w ∈ circle, s.get? v = some (.var w))
    (hv : v ∈ circle) (ht : t.isVariable = false) : ¬ Acc Calls (.extend s (.var v) t) := by
  -- The chain goes to and fro between the two functions, one variable further each time.
  have hendless : ∀ call, Acc Calls call →
      ¬ ∃ v ∈ circle, call = .extend s (.var v) t ∨ call = .extendVar s v t := by
    intro call hacc
    induction hacc with
    | intro call _ ih =>
      rintro ⟨v, hv, rfl | rfl⟩
      · have hne : (Term.var v == t) = false := by
          cases t with
          | var u => cases ht
          | _ => rfl
        exact ih _ (.left hne) ⟨v, hv, Or.inr rfl⟩
      · obtain ⟨hname, w, hw, hbound⟩ := hcircle v hv
        have hany : anyway v t = false := by
          cases t with
          | var u => cases ht
          | _ => simp [anyway, Term.isAnonymous, hname]
        exact ih _ (.followed hany hbound) ⟨w, hw, Or.inl rfl⟩
  exact fun hacc => hendless _ hacc ⟨v, hv, Or.inl rfl⟩

example : ¬ Acc Calls (.extend ⟨[("X", .var "Y"), ("Y", .var "X")]⟩ (.var "X") (.atom "a")) :=
  not_acc_of_circle ["X", "Y"] (by decide) (by decide) rfl

/-! ## Unification is the recursion -/

/-- With acyclic bindings a call comes back with what unification of the terms as
an equation comes to, and with nothing else. -/
theorem returns_iff_solve (hs : s.Acyclic) (x y : Term) (r : Option Substitution) :
    Returns (.extend s x y) r ↔
      r = solve (scopeOf [(x, y)] s) [(x, y)] s (fits_of_acyclic [(x, y)] hs) := by
  refine ⟨fun hr => hr.singleton.eq_solve _, ?_⟩
  rintro rfl
  have hacc : Acc Calls (.extend s x y) := acc_of_acyclic hs
  obtain ⟨r, hr⟩ := answered_of_acc hacc
  rwa [hr.singleton.eq_solve (fits_of_acyclic [(x, y)] hs)] at hr

theorem unify_eq_solve (hs : s.Acyclic) (x y : Term) :
    s.unify x y = if s.isCyclic then none
      else solve (scopeOf [(x, y)] s) [(x, y)] s (fits_of_acyclic [(x, y)] hs) := by
  unfold unify extend
  by_cases hcyclic : s.isCyclic = false
  · rw [dif_pos hcyclic, if_neg (Bool.eq_false_iff.mp hcyclic)]
  · rw [dif_neg hcyclic, if_pos ((Bool.not_eq_false _).mp hcyclic)]

end Substitution

open Substitution

/-- Unification ends. With acyclic bindings every call of the recursion, from
whichever function on, leads to no endless chain of calls and comes back; the call
that unification starts with comes back with one result, and that is the result
of unification, of `mgu` with no bindings to begin with. -/
theorem unify_terminates {s : Substitution} (hs : s.Acyclic) (x y : Term) :
    (∀ call : Call, call.store = s → Acc Calls call ∧ call.Answered) ∧
    (∃ r, (∀ r', Returns (.extend s x y) r' ↔ r' = r) ∧
      s.unify x y = if s.isCyclic then none else r) ∧
    ∃ r, (∀ r', Returns (.extend ∅ x y) r' ↔ r' = r) ∧ mgu x y = r.map (·.resolved) := by
  refine ⟨?_, ?_, ?_⟩
  · rintro call rfl
    have hacc := acc_of_acyclic hs
    exact ⟨hacc, answered_of_acc hacc⟩
  · exact ⟨_, returns_iff_solve hs x y, unify_eq_solve hs x y⟩
  · refine ⟨_, returns_iff_solve acyclic_empty x y, ?_⟩
    rw [mgu, unify_eq_solve acyclic_empty, isCyclic_of_acyclic nodup_empty acyclic_empty]
    rfl

/-- With `X` bound to `f(Y)`, the terms `p(X, Z, _)` and `p(f(Z), Y, nan)` bind
`Y` to `Z`, which makes the second arguments equal; the third are anyway. -/
theorem unify_terminates_shared :
    let s : Substitution := ⟨[("X", .compound "f" [.var "Y"])]⟩
    let x : Term := .compound "p" [.var "X", .var "Z", .var "_"]
    let y : Term := .compound "p" [.compound "f" [.var "Z"], .var "Y", .float ⟨0x7FF8000000000000⟩]
    s.Acyclic ∧ Acc Calls (.extend s x y) ∧ Returns (.extend s x y) (some (s.bind "Y" (.var "Z"))) ∧
      s.unify x y = some (s.bind "Y" (.var "Z")) := by
  intro s x y
  let final : Substitution := s.bind "Y" (.var "Z")
  have hs : s.Acyclic := acyclic_of_isCyclic (by decide +kernel)
  have hfirst : Returns (.extend s (.var "X") (.compound "f" [.var "Z"])) (some final) :=
    .left rfl (.followed rfl rfl (.parts rfl rfl (.next
      (.left rfl (.bound rfl rfl rfl (.free (by decide) rfl))) (.nil final))))
  have hsecond : Returns (.extend final (.var "Z") (.var "Y")) (some final) :=
    .left rfl (.followedRight rfl rfl rfl (.same rfl))
  have hthird : Returns (.extend final (.var "_") (.float ⟨0x7FF8000000000000⟩)) (some final) :=
    .left rfl (.anonymous rfl)
  have hreturns : Returns (.extend s x y) (some final) :=
    .parts rfl rfl (.next hfirst (.next hsecond (.next hthird (.nil final))))
  obtain ⟨hcalls, ⟨r, honly, hunify⟩, _⟩ := unify_terminates hs x y
  have hcyclic : s.isCyclic = false := by decide +kernel
  rw [hcyclic, ← (honly _).mp hreturns] at hunify
  exact ⟨hs, (hcalls _ rfl).1, hreturns, hunify⟩

end Clausal
