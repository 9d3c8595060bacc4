import Clausal.Proofs.Unification.Step

/-
  Unification as a recursion — the calls and what comes back from them

  Unification can be told as four functions that call each other: one makes two
  terms equal, one makes pairs equal from left to right, one makes a variable
  equal to a term, and one searches a term for a variable. A bound variable gives
  way to its term wherever it is met, no binding is ever set aside, and the
  bindings made for one pair are passed on to the next. Nothing here presumes
  that the recursion ends.

  What is proved:
    1. `answered_of_acc` — a call from which no endless chain of calls leads comes
       back with a result.
    2. `Finds.eq_leadTo` — the search that comes back has found whether the
       variables of the term lead to the one it looks for.
    3. `Returns.eq_solve` — pairs that come back as equal have the bindings that
       unification of the pairs as a list of equations makes.
-/

namespace Clausal.Substitution

open Term (anonymousName)

/-- A call of one of the four functions. -/
inductive Call where
  /-- Makes two terms equal. -/
  | extend (s : Substitution) (x y : Term)
  /-- Makes the terms of each pair equal, from left to right. -/
  | extendAll (s : Substitution) (equations : List Equation)
  /-- Makes a variable equal to a term. -/
  | extendVar (s : Substitution) (v : String) (t : Term)
  /-- Searches a term for a variable, following bindings. -/
  | occurs (s : Substitution) (v : String) (t : Term)

/-- One of a variable and a term is the anonymous variable, which equals
anything. -/
def anyway (v : String) (t : Term) : Bool := v == anonymousName || t.isAnonymous

/-- What the search for a variable in a term comes back with. It goes through
arguments from left to right and ends at the first hit. -/
inductive Finds (s : Substitution) (v : String) : Term → Bool → Prop where
  | here : Finds s v (.var v) true
  | through {u : String} {t : Term} {found : Bool} : u ≠ v → s.get? u = some t →
    Finds s v t found → Finds s v (.var u) found
  | free {u : String} : u ≠ v → s.get? u = none → Finds s v (.var u) false
  | hit {f : String} {before behind : List Term} {arg : Term} :
    (∀ t ∈ before, Finds s v t false) → Finds s v arg true →
    Finds s v (.compound f (before ++ arg :: behind)) true
  | miss {f : String} {args : List Term} : (∀ t ∈ args, Finds s v t false) →
    Finds s v (.compound f args) false
  | constant {t : Term} : t.isVariable = false → t.isCompound = false → Finds s v t false

/-- What a call other than a search comes back with: bindings with those added
that were called for, or none. -/
inductive Returns : Call → Option Substitution → Prop where
  | same {s : Substitution} {x y : Term} : (x == y) = true → Returns (.extend s x y) (some s)
  | left {s : Substitution} {v : String} {y : Term} {r : Option Substitution} :
    (Term.var v == y) = false → Returns (.extendVar s v y) r → Returns (.extend s (.var v) y) r
  | right {s : Substitution} {v : String} {x : Term} {r : Option Substitution} :
    (x == .var v) = false → x.isVariable = false → Returns (.extendVar s v x) r →
    Returns (.extend s x (.var v)) r
  | parts {s : Substitution} {f : String} {xs ys : List Term} {r : Option Substitution} :
    (Term.compound f xs == .compound f ys) = false → xs.length = ys.length →
    Returns (.extendAll s (xs.zip ys)) r → Returns (.extend s (.compound f xs) (.compound f ys)) r
  | clash {s : Substitution} {x y : Term} :
    (x == y) = false → x.isVariable = false → y.isVariable = false →
    (∀ f xs ys, x = .compound f xs → y = .compound f ys → xs.length ≠ ys.length) →
    Returns (.extend s x y) none
  | nil (s : Substitution) : Returns (.extendAll s []) (some s)
  | next {s next : Substitution} {x y : Term} {rest : List Equation} {r : Option Substitution} :
    Returns (.extend s x y) (some next) → Returns (.extendAll next rest) r →
    Returns (.extendAll s ((x, y) :: rest)) r
  | stop {s : Substitution} {x y : Term} {rest : List Equation} :
    Returns (.extend s x y) none → Returns (.extendAll s ((x, y) :: rest)) none
  | anonymous {s : Substitution} {v : String} {t : Term} : anyway v t = true →
    Returns (.extendVar s v t) (some s)
  | followed {s : Substitution} {v : String} {t bound : Term} {r : Option Substitution} :
    anyway v t = false → s.get? v = some bound → Returns (.extend s bound t) r →
    Returns (.extendVar s v t) r
  | followedRight {s : Substitution} {v u : String} {bound : Term} {r : Option Substitution} :
    anyway v (.var u) = false → s.get? v = none → s.get? u = some bound →
    Returns (.extend s (.var v) bound) r → Returns (.extendVar s v (.var u)) r
  | circle {s : Substitution} {v : String} {t : Term} : anyway v t = false → s.get? v = none →
    s.boundTerm? t = none → Finds s v t true → Returns (.extendVar s v t) none
  | bound {s : Substitution} {v : String} {t : Term} : anyway v t = false → s.get? v = none →
    s.boundTerm? t = none → Finds s v t false → Returns (.extendVar s v t) (some (s.bind v t))

/-- The calls that a call makes, the call that is made first. A call whose
arguments come back from an earlier one is made when that one comes back. -/
inductive Calls : Call → Call → Prop where
  | left {s : Substitution} {v : String} {y : Term} : (Term.var v == y) = false →
    Calls (.extendVar s v y) (.extend s (.var v) y)
  | right {s : Substitution} {v : String} {x : Term} : (x == .var v) = false →
    x.isVariable = false → Calls (.extendVar s v x) (.extend s x (.var v))
  | parts {s : Substitution} {f : String} {xs ys : List Term} :
    (Term.compound f xs == .compound f ys) = false → xs.length = ys.length →
    Calls (.extendAll s (xs.zip ys)) (.extend s (.compound f xs) (.compound f ys))
  | first {s : Substitution} {x y : Term} {rest : List Equation} :
    Calls (.extend s x y) (.extendAll s ((x, y) :: rest))
  | next {s next : Substitution} {x y : Term} {rest : List Equation} :
    Returns (.extend s x y) (some next) →
    Calls (.extendAll next rest) (.extendAll s ((x, y) :: rest))
  | followed {s : Substitution} {v : String} {t bound : Term} : anyway v t = false →
    s.get? v = some bound → Calls (.extend s bound t) (.extendVar s v t)
  | followedRight {s : Substitution} {v u : String} {bound : Term} :
    anyway v (.var u) = false → s.get? v = none → s.get? u = some bound →
    Calls (.extend s (.var v) bound) (.extendVar s v (.var u))
  | search {s : Substitution} {v : String} {t : Term} : anyway v t = false → s.get? v = none →
    s.boundTerm? t = none → Calls (.occurs s v t) (.extendVar s v t)
  | through {s : Substitution} {v u : String} {t : Term} : u ≠ v → s.get? u = some t →
    Calls (.occurs s v t) (.occurs s v (.var u))
  | argument {s : Substitution} {v f : String} {before behind : List Term} {arg : Term} :
    (∀ t ∈ before, Finds s v t false) →
    Calls (.occurs s v arg) (.occurs s v (.compound f (before ++ arg :: behind)))

variable {s : Substitution} {v : String} {x y t : Term} {r : Option Substitution}

/-! ## What the search finds -/

/-- A search that comes back has found whether a variable of the term leads to
the one it looks for. -/
theorem Finds.iff_reaches {found : Bool} (h : Finds s v t found) :
    found = true ↔ ∃ w ∈ t.vars, Reaches s v w := by
  induction h with
  | here => exact ⟨fun _ => ⟨v, by simp [Term.vars], .here⟩, fun _ => rfl⟩
  | @through u t found hne hu _ ih =>
    rw [ih]
    constructor
    · rintro ⟨w, hw, hreach⟩
      exact ⟨u, by simp [Term.vars], .through hu hw hreach⟩
    · rintro ⟨w, hw, hreach⟩
      obtain rfl : w = u := by simpa [Term.vars] using hw
      cases hreach with
      | here => exact absurd rfl hne
      | @through _ w b hb hw hreach =>
        rw [hu] at hb
        obtain rfl := Option.some.inj hb
        exact ⟨w, hw, hreach⟩
  | @free u hne hu =>
    refine ⟨fun h => absurd h Bool.false_ne_true, ?_⟩
    rintro ⟨w, hw, hreach⟩
    obtain rfl : w = u := by simpa [Term.vars] using hw
    exact absurd (hreach.eq_of_free hu) hne
  | @hit f before behind arg _ _ _ ih =>
    obtain ⟨w, hw, hreach⟩ := ih.mp rfl
    refine ⟨fun _ => ⟨w, ?_, hreach⟩, fun _ => rfl⟩
    rw [Term.vars, Term.varsAll_eq, List.mem_flatMap]
    exact ⟨arg, by simp, hw⟩
  | @miss f args _ ih =>
    refine ⟨fun h => absurd h Bool.false_ne_true, ?_⟩
    rintro ⟨w, hw, hreach⟩
    rw [Term.vars, Term.varsAll_eq, List.mem_flatMap] at hw
    obtain ⟨arg, harg, hw⟩ := hw
    exact (ih arg harg).mpr ⟨w, hw, hreach⟩
  | @constant t hvar hcompound =>
    refine ⟨fun h => absurd h Bool.false_ne_true, ?_⟩
    rintro ⟨w, hw, _⟩
    cases t with
    | var u => cases hvar
    | compound f args => cases hcompound
    | _ => cases hw

theorem Finds.eq_leadTo {found : Bool} (h : Finds s v t found) : found = s.leadTo v t.vars := by
  rw [Bool.eq_iff_iff, h.iff_reaches, leadTo_iff]

/-! ## A call without an endless chain of calls comes back -/

/-- The call comes back with a result. -/
def Call.Answered : Call → Prop
  | .occurs s v t => ∃ found, Finds s v t found
  | .extend s x y => ∃ r, Returns (.extend s x y) r
  | .extendAll s equations => ∃ r, Returns (.extendAll s equations) r
  | .extendVar s v t => ∃ r, Returns (.extendVar s v t) r

theorem occurs_answered (h : ∀ callee, Calls callee (.occurs s v t) → callee.Answered) :
    ∃ found, Finds s v t found := by
  cases t with
  | var u =>
    by_cases hne : u = v
    · subst hne
      exact ⟨true, .here⟩
    · cases hu : s.get? u with
      | none => exact ⟨false, .free hne hu⟩
      | some t =>
        obtain ⟨found, hfound⟩ := h _ (.through hne hu)
        exact ⟨found, .through hne hu hfound⟩
  | compound f args =>
    -- The induction is on the arguments left to search; those before are misses.
    have hleft : ∀ behind before, args = before ++ behind → (∀ t ∈ before, Finds s v t false) →
        ∃ found, Finds s v (.compound f args) found := by
      intro behind
      induction behind with
      | nil =>
        rintro before rfl hbefore
        rw [List.append_nil]
        exact ⟨false, .miss hbefore⟩
      | cons arg behind ih =>
        rintro before rfl hbefore
        obtain ⟨found, harg⟩ := h _ (.argument hbefore)
        cases found with
        | true => exact ⟨true, .hit hbefore harg⟩
        | false =>
          refine ih (before ++ [arg]) (by simp) fun t ht => ?_
          rcases List.mem_append.mp ht with ht | ht
          · exact hbefore t ht
          · rwa [List.mem_singleton.mp ht]
    exact hleft args [] rfl fun t ht => absurd ht List.not_mem_nil
  | _ => exact ⟨false, .constant rfl rfl⟩

theorem extendVar_answered (h : ∀ callee, Calls callee (.extendVar s v t) → callee.Answered) :
    ∃ r, Returns (.extendVar s v t) r := by
  cases hany : anyway v t with
  | true => exact ⟨_, .anonymous hany⟩
  | false =>
    cases hv : s.get? v with
    | some bound =>
      obtain ⟨r, hr⟩ := h _ (.followed hany hv)
      exact ⟨r, .followed hany hv hr⟩
    | none =>
      cases ht : s.boundTerm? t with
      | some bound =>
        obtain ⟨u, rfl, hu⟩ := boundTerm?_eq_some ht
        obtain ⟨r, hr⟩ := h _ (.followedRight hany hv hu)
        exact ⟨r, .followedRight hany hv hu hr⟩
      | none =>
        obtain ⟨found, hfound⟩ := h _ (.search hany hv ht)
        cases found with
        | true => exact ⟨none, .circle hany hv ht hfound⟩
        | false => exact ⟨_, .bound hany hv ht hfound⟩

theorem extend_answered (h : ∀ callee, Calls callee (.extend s x y) → callee.Answered) :
    ∃ r, Returns (.extend s x y) r := by
  cases hsame : x == y with
  | true => exact ⟨_, .same hsame⟩
  | false =>
    cases hx : x.isVariable with
    | true =>
      obtain ⟨v, rfl⟩ := Term.isVariable_iff.mp hx
      obtain ⟨r, hr⟩ := h _ (.left hsame)
      exact ⟨r, .left hsame hr⟩
    | false =>
      cases hy : y.isVariable with
      | true =>
        obtain ⟨v, rfl⟩ := Term.isVariable_iff.mp hy
        obtain ⟨r, hr⟩ := h _ (.right hsame hx)
        exact ⟨r, .right hsame hx hr⟩
      | false =>
        by_cases hparts : ∃ f xs ys, x = .compound f xs ∧ y = .compound f ys ∧ xs.length = ys.length
        · obtain ⟨f, xs, ys, rfl, rfl, hlength⟩ := hparts
          obtain ⟨r, hr⟩ := h _ (.parts hsame hlength)
          exact ⟨r, .parts hsame hlength hr⟩
        · refine ⟨none, .clash hsame hx hy fun f xs ys hxs hys hlength => ?_⟩
          exact hparts ⟨f, xs, ys, hxs, hys, hlength⟩

theorem extendAll_answered {equations : List Equation}
    (h : ∀ callee, Calls callee (.extendAll s equations) → callee.Answered) :
    ∃ r, Returns (.extendAll s equations) r := by
  cases equations with
  | nil => exact ⟨_, .nil s⟩
  | cons e rest =>
    obtain ⟨x, y⟩ := e
    obtain ⟨first, hfirst⟩ := h _ .first
    cases first with
    | none => exact ⟨none, .stop hfirst⟩
    | some next =>
      obtain ⟨r, hr⟩ := h _ (.next hfirst)
      exact ⟨r, .next hfirst hr⟩

/-- A call from which no endless chain of calls leads comes back. -/
theorem answered_of_acc {call : Call} (h : Acc Calls call) : call.Answered := by
  induction h with
  | intro call _ ih =>
    cases call with
    | extend s x y => exact extend_answered ih
    | extendAll s equations => exact extendAll_answered ih
    | extendVar s v t => exact extendVar_answered ih
    | occurs s v t => exact occurs_answered ih

/-! ## Calls and steps -/

/-- What comes back after a step, when the equations it leaves are met by
calls. -/
def Step.Yields (s : Substitution) : Step → Option Substitution → Prop
  | .fail, r => r = none
  | .replace more, r => Returns (.extendAll s more) r
  | .bind v t, r => r = some (s.bind v t)

theorem Returns.singleton (h : Returns (.extend s x y) r) : Returns (.extendAll s [(x, y)]) r := by
  cases r with
  | none => exact .stop h
  | some next => exact .next h (.nil next)

theorem Returns.append {more rest : List Equation} {next : Substitution}
    (h : Returns (.extendAll s more) (some next)) (hrest : Returns (.extendAll next rest) r) :
    Returns (.extendAll s (more ++ rest)) r := by
  induction more generalizing s with
  | nil =>
    cases h
    exact hrest
  | cons e more ih =>
    cases h with
    | next hfirst hmore => exact .next hfirst (ih hmore)

theorem Returns.append_none {more : List Equation} (rest : List Equation)
    (h : Returns (.extendAll s more) none) : Returns (.extendAll s (more ++ rest)) none := by
  induction more generalizing s with
  | nil => cases h
  | cons e more ih =>
    cases h with
    | next hfirst hmore => exact .next hfirst (ih hmore)
    | stop hfirst => exact .stop hfirst

theorem stepVar_of_anyway (h : anyway v t = true) : s.stepVar v t = .replace [] := if_pos h

theorem stepVar_of_bound {bound : Term} (h : anyway v t = false) (hv : s.get? v = some bound) :
    s.stepVar v t = .replace [(bound, t)] := by
  rw [anyway] at h
  simp only [stepVar, h, hv, Bool.false_eq_true, if_false]

theorem stepVar_of_boundTerm {bound : Term} (h : anyway v t = false) (hv : s.get? v = none)
    (ht : s.boundTerm? t = some bound) : s.stepVar v t = .replace [(.var v, bound)] := by
  rw [anyway] at h
  simp only [stepVar, h, hv, ht, Bool.false_eq_true, if_false]

theorem stepVar_of_free (h : anyway v t = false) (hv : s.get? v = none)
    (ht : s.boundTerm? t = none) :
    s.stepVar v t = if s.leadTo v t.vars then .fail else .bind v t := by
  rw [anyway] at h
  simp only [stepVar, h, hv, ht, Bool.false_eq_true, if_false]

/-- A free variable is bound to a term with free variables only, itself not among
them. -/
theorem stepVar_of_allFree (h : anyway v t = false) (hv : s.get? v = none)
    (ht : s.boundTerm? t = none) (hfree : ∀ w ∈ t.vars, w ≠ v ∧ s.get? w = none) :
    s.stepVar v t = .bind v t := by
  rw [stepVar_of_free h hv ht, if_neg]
  rw [leadTo_iff]
  rintro ⟨w, hw, hreach⟩
  exact (hfree w hw).1 (hreach.eq_of_free (hfree w hw).2)

theorem step_of_same (h : (x == y) = true) : s.step x y = .replace [] := if_pos h

theorem step_of_left (h : (Term.var v == y) = false) : s.step (.var v) y = s.stepVar v y :=
  if_neg (Bool.eq_false_iff.mp h)

theorem step_of_right (h : (x == .var v) = false) (hx : x.isVariable = false) :
    s.step x (.var v) = s.stepVar v x := by
  unfold step
  rw [if_neg (Bool.eq_false_iff.mp h)]
  cases x with
  | var u => cases hx
  | _ => rfl

theorem step_of_clash (h : (x == y) = false) (hx : x.isVariable = false)
    (hy : y.isVariable = false)
    (hlength : ∀ f xs ys, x = .compound f xs → y = .compound f ys → xs.length ≠ ys.length) :
    s.step x y = .fail := by
  unfold step
  rw [if_neg (Bool.eq_false_iff.mp h)]
  split
  · cases hx
  · cases hy
  · rename_i f xs g ys
    refine if_neg ?_
    rintro ⟨rfl, hsame⟩
    exact hlength f xs ys rfl rfl hsame
  · rfl

theorem step_of_parts {f : String} {xs ys : List Term}
    (h : (Term.compound f xs == .compound f ys) = false) (hlength : xs.length = ys.length) :
    s.step (.compound f xs) (.compound f ys) = .replace (xs.zip ys) := by
  simp only [step, h, hlength, Bool.false_eq_true, if_false, and_self, if_true]

theorem Returns.stepVar (h : Returns (.extendVar s v t) r) : (s.stepVar v t).Yields s r := by
  cases h with
  | anonymous hany =>
    rw [stepVar_of_anyway hany]
    exact .nil s
  | followed hany hv hbound =>
    rw [stepVar_of_bound hany hv]
    exact hbound.singleton
  | followedRight hany hv hu hbound =>
    rw [stepVar_of_boundTerm hany hv hu]
    exact hbound.singleton
  | circle hany hv ht hfound =>
    rw [stepVar_of_free hany hv ht, ← hfound.eq_leadTo]
    rfl
  | bound hany hv ht hfound =>
    rw [stepVar_of_free hany hv ht, ← hfound.eq_leadTo]
    rfl

theorem Returns.step (h : Returns (.extend s x y) r) : (s.step x y).Yields s r := by
  cases h with
  | same hsame =>
    rw [step_of_same hsame]
    exact .nil s
  | left hne hr =>
    rw [step_of_left hne]
    exact hr.stepVar
  | right hne hx hr =>
    rw [step_of_right hne hx]
    exact hr.stepVar
  | parts hne hlength hr =>
    rw [step_of_parts hne hlength]
    exact hr
  | clash hne hx hy hlength =>
    rw [step_of_clash hne hx hy hlength]
    rfl

/-- Pairs that come back as equal have the bindings that meet them as
equations. -/
theorem Returns.eq_solve {scope : List String} {equations : List Equation}
    (h : Fits scope equations s) (hr : Returns (.extendAll s equations) r) :
    r = solve scope equations s h := by
  fun_induction solve scope equations s h with
  | case1 s h _ =>
    cases hr
    rfl
  | case2 s x y rest h hstep _ =>
    cases hr with
    | next hfirst _ =>
      have := hfirst.step
      rw [hstep] at this
      cases this
    | stop _ => rfl
  | case3 s x y rest h more hstep _ ih =>
    cases hr with
    | next hfirst hrest =>
      have := hfirst.step
      rw [hstep] at this
      exact ih (Returns.append this hrest)
    | stop hfirst =>
      have := hfirst.step
      rw [hstep] at this
      exact ih (Returns.append_none rest this)
  | case4 s x y rest h v t hstep _ ih =>
    cases hr with
    | next hfirst hrest =>
      have := hfirst.step
      rw [hstep] at this
      obtain rfl := Option.some.inj this
      exact ih hrest
    | stop hfirst =>
      have := hfirst.step
      rw [hstep] at this
      cases this

end Clausal.Substitution
