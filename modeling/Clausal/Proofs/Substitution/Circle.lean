import Clausal.Proofs.Substitution.Resolved
import Mathlib.Data.Finset.Card
import Mathlib.Logic.Relation

/-
  Circles — variables that lead back to themselves

  A bound variable mentions the variables of its term. Where a chain of mentions
  comes back to the variable it began with, the bindings run in a circle. A search
  in depth finds out: it keeps the path of variables it came along and the
  variables it is done with, looks at no variable twice, and ends as soon as it
  meets a variable of the path. The variables it is done with are handed on from
  one start to the next.

  What is proved:
    1. `acyclic_iff` — the variables can be ranked exactly when none of them is on
       a circle.
    2. `circular_of_circleFrom` — a search that ends early has met a circle.
    3. `ends_of_circleFrom` — one that does not has left no endless chain behind,
       neither from its start nor from a variable it is done with.
    4. `isCyclic_exact` — the test for circles, the search, and the existence of a
       circle come to the same.
-/

namespace Clausal.Substitution

open Relation (TransGen)

/-- The term that `v` is bound to mentions `w`. -/
def Mentions (s : Substitution) (v w : String) : Prop := ∃ t, s.get? v = some t ∧ w ∈ t.vars

/-- A chain of mentions leads from the variable back to itself. -/
def Circular (s : Substitution) (v : String) : Prop := TransGen s.Mentions v v

variable {s : Substitution} {v w : String}

theorem Circular.binds (h : s.Circular v) : s.binds v = true := by
  obtain ⟨w, ⟨t, ht, _⟩, _⟩ := TransGen.head'_iff.mp h
  rw [Substitution.binds, ht]
  rfl

/-! ## Circles and ranks -/

theorem Ranked.lt_of_leads {rank : String → Nat} (hr : Ranked rank s)
    (h : TransGen s.Mentions v w) : rank w < rank v := by
  induction h with
  | single h =>
    obtain ⟨t, ht, hw⟩ := h
    exact hr v t ht _ hw
  | tail _ h ih =>
    obtain ⟨t, ht, hw⟩ := h
    exact Nat.lt_trans (hr _ t ht _ hw) ih

/-- Without a circle the variables are ranked by how many they lead to. -/
theorem acyclic_of_not_circular (h : ∀ v, ¬ s.Circular v) : s.Acyclic := by
  classical
  let mentioned := (s.bindings.flatMap fun b => b.2.vars).toFinset
  refine ⟨fun v => (mentioned.filter fun w => TransGen s.Mentions v w).card, ?_⟩
  intro v t hv w hw
  have hvw : s.Mentions v w := ⟨t, hv, hw⟩
  have hmem : w ∈ mentioned :=
    List.mem_toFinset.mpr (List.mem_flatMap.mpr ⟨(v, t), lookup_mem hv, hw⟩)
  -- Whatever `w` leads to, `v` leads to as well; `w` itself is one more.
  refine Finset.card_lt_card (Finset.ssubset_iff_of_subset ?_ |>.mpr ⟨w, ?_, ?_⟩)
  · exact Finset.monotone_filter_right _ fun u _ hu => TransGen.head hvw hu
  · exact Finset.mem_filter.mpr ⟨hmem, .single hvw⟩
  · exact fun hwithin => h w (Finset.mem_filter.mp hwithin).2

/-- The variables can be ranked exactly when none of them is on a circle. -/
theorem acyclic_iff : s.Acyclic ↔ ∀ v, ¬ s.Circular v :=
  ⟨fun ⟨_, hr⟩ _ hv => Nat.lt_irrefl _ (hr.lt_of_leads hv), acyclic_of_not_circular⟩

/-! ## The search for a circle -/

/-- How many bound variables are not on the path. -/
def outside (s : Substitution) (path : List String) : Nat :=
  (s.domain.filter fun v => !path.contains v).length

theorem outside_cons_lt {path : List String} {t : Term} (hv : v ∉ path)
    (hbound : s.get? v = some t) : s.outside (v :: path) < s.outside path := by
  have hcons : s.domain.filter (fun w => !(v :: path).contains w) =
      (s.domain.filter fun w => !path.contains w).filter fun w => w != v := by
    rw [List.filter_filter]
    refine List.filter_congr fun w _ => ?_
    rw [List.contains_cons, Bool.not_or]
    rfl
  rw [outside, hcons]
  refine List.length_filter_lt_length_iff_exists.mpr ⟨v, List.mem_filter.mpr ⟨?_, ?_⟩, by simp⟩
  · exact mem_domain_of_mem (lookup_mem hbound)
  · simpa using hv

mutual
/-- Searches from a variable on, which was come to along the path. Says whether a
variable of the path was met, and which variables are done with. -/
def circleFrom (s : Substitution) (path done : List String) (v : String) : Bool × List String :=
  if _hpath : v ∈ path then (true, done)
  else if v ∈ done then (false, done)
  else
    match _hbound : s.get? v with
    | none => (false, done)
    | some t =>
      let found := s.circleFromAny (v :: path) done t.vars
      (found.1, v :: found.2)
termination_by (s.outside path, 0)
decreasing_by exact Prod.Lex.left _ _ (outside_cons_lt _hpath _hbound)
/-- Searches from one variable after another, up to the first that ends early. -/
def circleFromAny (s : Substitution) (path done : List String) :
    List String → Bool × List String
  | [] => (false, done)
  | v :: rest =>
    match s.circleFrom path done v with
    | (true, done) => (true, done)
    | (false, done) => s.circleFromAny path done rest
termination_by vs => (s.outside path, vs.length + 1)
end

/-- A chain of mentions leads from every variable of the path to this one. -/
def Along (s : Substitution) (path : List String) (v : String) : Prop :=
  ∀ u ∈ path, TransGen s.Mentions u v

theorem Along.cons {path : List String} {t : Term} (h : s.Along path v) (hv : s.get? v = some t)
    (hw : w ∈ t.vars) : s.Along (v :: path) w := by
  have hvw : s.Mentions v w := ⟨t, hv, hw⟩
  intro u hu
  rcases List.mem_cons.mp hu with rfl | hu
  · exact .single hvw
  · exact .tail (h u hu) hvw

mutual
/-- A search that ends early has met a circle. -/
theorem circular_of_circleFrom {path done : List String} {v : String} (halong : s.Along path v)
    (h : (s.circleFrom path done v).1 = true) : ∃ u, s.Circular u := by
  rw [circleFrom] at h
  split at h
  · rename_i hmet
    exact ⟨v, halong v hmet⟩
  · split at h
    · cases h
    · split at h
      · cases h
      · rename_i hpath _ t ht
        exact circular_of_circleFromAny (fun w hw => halong.cons ht hw) h
termination_by (s.outside path, 0)
decreasing_by exact Prod.Lex.left _ _ (outside_cons_lt ‹_› ‹_›)
theorem circular_of_circleFromAny {path done vs : List String} (halong : ∀ v ∈ vs, s.Along path v)
    (h : (s.circleFromAny path done vs).1 = true) : ∃ u, s.Circular u := by
  cases vs with
  | nil =>
    rw [circleFromAny] at h
    cases h
  | cons v rest =>
    rw [circleFromAny] at h
    split at h
    · rename_i hfound
      exact circular_of_circleFrom (halong v List.mem_cons_self) (congrArg Prod.fst hfound)
    · exact circular_of_circleFromAny (fun w hw => halong w (List.mem_cons_of_mem v hw)) h
termination_by (s.outside path, vs.length + 1)
end

/-- No endless chain of mentions begins with the variable. -/
def Ends (s : Substitution) : String → Prop := Acc fun w v => s.Mentions v w

theorem Ends.not_circular (h : s.Ends v) : ¬ s.Circular v := by
  induction h with
  | intro v _ ih =>
    intro hv
    obtain ⟨w, hvw, hwv⟩ := TransGen.head'_iff.mp hv
    exact ih w hvw (TransGen.tail' hwv hvw)

mutual
/-- A search that does not end early leaves only variables behind from which no
endless chain begins, if there were none but such before. -/
theorem ends_of_circleFrom {path done after : List String} {v : String}
    (hdone : ∀ u ∈ done, s.Ends u) (h : s.circleFrom path done v = (false, after)) :
    s.Ends v ∧ ∀ u ∈ after, s.Ends u := by
  rw [circleFrom] at h
  split at h
  · cases h
  · split at h
    · rename_i hv
      cases h
      exact ⟨hdone v hv, hdone⟩
    · split at h
      · rename_i hfree
        cases h
        refine ⟨.intro v fun w hvw => ?_, hdone⟩
        obtain ⟨t, ht, _⟩ := hvw
        rw [hfree] at ht
        cases ht
      · rename_i hpath _ t ht
        obtain ⟨hfound, rfl⟩ := Prod.mk.inj h
        obtain ⟨hvars, hafter⟩ := ends_of_circleFromAny hdone (Prod.ext hfound rfl)
        have hv : s.Ends v := by
          refine .intro v fun w hvw => ?_
          obtain ⟨u, hu, hw⟩ := hvw
          rw [ht] at hu
          cases hu
          exact hvars w hw
        exact ⟨hv, List.forall_mem_cons.mpr ⟨hv, hafter⟩⟩
termination_by (s.outside path, 0)
decreasing_by exact Prod.Lex.left _ _ (outside_cons_lt ‹_› ‹_›)
theorem ends_of_circleFromAny {path done after vs : List String} (hdone : ∀ u ∈ done, s.Ends u)
    (h : s.circleFromAny path done vs = (false, after)) :
    (∀ v ∈ vs, s.Ends v) ∧ ∀ u ∈ after, s.Ends u := by
  cases vs with
  | nil =>
    rw [circleFromAny] at h
    cases h
    exact ⟨fun v hv => absurd hv List.not_mem_nil, hdone⟩
  | cons v rest =>
    rw [circleFromAny] at h
    split at h
    · cases h
    · rename_i hfound
      obtain ⟨hv, hnext⟩ := ends_of_circleFrom hdone hfound
      obtain ⟨hrest, hafter⟩ := ends_of_circleFromAny hnext h
      exact ⟨List.forall_mem_cons.mpr ⟨hv, hrest⟩, hafter⟩
termination_by (s.outside path, vs.length + 1)
end

/-- The search from all bound variables ends early exactly when one of them is on
a circle. -/
theorem circleFromAny_domain_iff :
    (s.circleFromAny [] [] s.domain).1 = true ↔ ∃ v, s.binds v = true ∧ s.Circular v := by
  constructor
  · intro h
    obtain ⟨v, hv⟩ := circular_of_circleFromAny (fun v _ u hu => absurd hu List.not_mem_nil) h
    exact ⟨v, hv.binds, hv⟩
  · rintro ⟨v, hbinds, hv⟩
    by_contra hfound
    rw [Bool.not_eq_true] at hfound
    obtain ⟨hends, _⟩ := ends_of_circleFromAny (s := s) (fun u hu => absurd hu List.not_mem_nil)
      (Prod.ext hfound rfl)
    obtain ⟨t, ht⟩ := Option.isSome_iff_exists.mp hbinds
    exact (hends v (mem_domain_of_mem (lookup_mem ht))).not_circular hv

/-! ## The test for circles -/

theorem isCyclic_iff (hs : s.domain.Nodup) : s.isCyclic = true ↔ ∃ v, s.Circular v := by
  constructor
  · intro h
    by_contra hnone
    rw [isCyclic_of_acyclic hs (acyclic_iff.mpr fun v hv => hnone ⟨v, hv⟩)] at h
    cases h
  · rintro ⟨v, hv⟩
    by_contra h
    rw [Bool.not_eq_true] at h
    exact acyclic_iff.mp (acyclic_of_isCyclic h) v hv

/-- When no variable is bound twice, the test for circles answers with yes exactly
when a chain of mentions leads from some bound variable back to it, and so does
the search from all bound variables, one after another. -/
theorem isCyclic_exact (hs : s.domain.Nodup) :
    (s.isCyclic = true ↔ ∃ v, s.binds v = true ∧ s.Circular v) ∧
      (s.circleFromAny [] [] s.domain).1 = s.isCyclic := by
  have htest : s.isCyclic = true ↔ ∃ v, s.binds v = true ∧ s.Circular v :=
    (isCyclic_iff hs).trans (exists_congr fun _ => ⟨fun h => ⟨h.binds, h⟩, fun h => h.2⟩)
  exact ⟨htest, Bool.eq_iff_iff.mpr (circleFromAny_domain_iff.trans htest.symm)⟩

/-- `X` leads to `Z` and back. In the other substitution `X` is met three times
over and leads nowhere. -/
theorem isCyclic_exact_shared :
    let circle : Substitution :=
      ⟨[("X", .compound "f" [.var "Z"]), ("Z", .compound "g" [.var "Y", .var "X"])]⟩
    let shared : Substitution :=
      ⟨[("W", .compound "f" [.var "X", .var "X"]), ("X", .var "Y"), ("Z", .var "X")]⟩
    circle.domain.Nodup ∧ (∃ v, circle.binds v = true ∧ circle.Circular v) ∧
      (circle.circleFromAny [] [] circle.domain).1 = true ∧
      shared.domain.Nodup ∧ (¬ ∃ v, shared.binds v = true ∧ shared.Circular v) ∧
      (shared.circleFromAny [] [] shared.domain).1 = false := by
  intro circle shared
  have hcircle : circle.isCyclic = true := by decide +kernel
  have hshared : shared.isCyclic = false := by decide +kernel
  obtain ⟨hiff, hsearch⟩ := isCyclic_exact (s := circle) (by decide)
  obtain ⟨hiff', hsearch'⟩ := isCyclic_exact (s := shared) (by decide)
  refine ⟨by decide, hiff.mp hcircle, hsearch.trans hcircle, by decide, ?_, hsearch'.trans hshared⟩
  exact fun h => absurd (hiff'.mpr h) (by rw [hshared]; decide)

end Clausal.Substitution
