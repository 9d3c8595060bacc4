import Clausal.Proofs.Unification.Calls
import Clausal.Proofs.Unification.Combine
import Mathlib.Data.List.Induction
import Mathlib.Data.List.Perm.Subperm

/-
  Finite maps — what a list of bindings stands for

  A substitution is a list that nothing keeps from naming a variable twice; unification
  even appends to it without looking. It is edited in six ways: variables are bound and
  freed, bindings are kept or dropped, followed to their end, combined with others and
  extended by unification. Beside every run of edits goes a finite map with its keys in
  the order they came, whose type admits no key twice, and the two show the same.

  What is proved:
    1. `Shows.bind`, `Shows.erase`, `Shows.restrict`, `Shows.resolved` — what an edit
       does to the bindings it does to the map.
    2. `Run.grows` — unification inserts keys that were not there, one by one.
    3. `edit_step`, `edits_run` — every edit is a step of the map with the same answer,
       and so are edits one after the other.
    4. `beq_iff_sameBindings` — the comparison, which looks from one side only, says
       whether both bind the same variables to equal terms.
    5. `edits_refine` — all of these for every run of edits.
-/

namespace Clausal

/-- A finite map from variables to terms, with its keys in the order they came. -/
structure OrderedMap where
  keys : List String
  value : String → Option Term
  nodup : keys.Nodup
  isSome_iff : ∀ v, (value v).isSome = true ↔ v ∈ keys

namespace OrderedMap

/-- No keys. -/
def empty : OrderedMap := ⟨[], fun _ => none, List.nodup_nil, by simp⟩

/-- With a key more, behind the others. -/
def insert (m : OrderedMap) (v : String) (t : Term) (h : v ∉ m.keys) : OrderedMap where
  keys := m.keys ++ [v]
  value w := if w = v then some t else m.value w
  nodup := List.nodup_append.mpr ⟨m.nodup, List.pairwise_singleton _ _, fun u hu w hw huw =>
    h (List.mem_singleton.mp hw ▸ huw ▸ hu)⟩
  isSome_iff w := by
    by_cases hw : w = v <;> simp [hw, m.isSome_iff]

/-- Without a key, if it is there. -/
def delete (m : OrderedMap) (v : String) : OrderedMap where
  keys := m.keys.erase v
  value w := if w = v then none else m.value w
  nodup := m.nodup.erase v
  isSome_iff w := by
    by_cases hw : w = v
    · simp [hw, m.nodup.mem_erase_iff]
    · simp [hw, m.isSome_iff, List.mem_erase_of_ne hw]

/-- Without the keys that are not among those to keep. -/
def restrict (m : OrderedMap) (keep : List String) : OrderedMap where
  keys := m.keys.filter keep.contains
  value w := if keep.contains w then m.value w else none
  nodup := m.nodup.filter _
  isSome_iff w := by
    by_cases hw : w ∈ keep <;> simp [hw, m.isSome_iff]

/-- With other terms for the same keys. -/
def mapValues (m : OrderedMap) (f : Term → Term) : OrderedMap where
  keys := m.keys
  value w := (m.value w).map f
  nodup := m.nodup
  isSome_iff w := by simp [m.isSome_iff]

/-- The substitution that lists the map in its order. -/
def listed (m : OrderedMap) : Substitution :=
  ⟨m.keys.filterMap fun v => (m.value v).map fun t => (v, t)⟩

/-- Some keys that were not there have been inserted, one behind the other. -/
inductive Grows (m : OrderedMap) : OrderedMap → Prop where
  | refl : Grows m m
  | insert {m' : OrderedMap} {v : String} {t : Term} (h : v ∉ m'.keys) :
    Grows m m' → Grows m (m'.insert v t h)

end OrderedMap

/-- A way of changing a substitution. -/
inductive Edit where
  | add (v : String) (t : Term)
  | remove (v : String)
  | retain (keep : List String)
  | resolve
  | combine (other : Substitution)
  | unify (x y : Term)

/-- What an edit has to say. -/
inductive Edit.Answer where
  | done
  | refused (error : SubstitutionError)
  | removed (term : Option Term)
  | retained (dropped : Bool)
  | failed
  deriving DecidableEq

/-- What an edit says and leaves. One that is refused or fails leaves everything as it
was. -/
def Substitution.edit (s : Substitution) : Edit → Edit.Answer × Substitution
  | .add v t =>
    match s.add v t with
    | .ok next => (.done, next)
    | .error e => (.refused e, s)
  | .remove v => (.removed (s.remove v).1, (s.remove v).2)
  | .retain keep => (.retained (s.retain keep).1, (s.retain keep).2)
  | .resolve => (.done, s.resolved)
  | .combine other =>
    match s.combine other with
    | some next => (.done, next)
    | none => (.failed, s)
  | .unify x y =>
    match s.unify x y with
    | some next => (.done, next)
    | none => (.failed, s)

/-- What edits say and leave, beginning with no bindings. -/
def Substitution.edits (es : List Edit) : List Edit.Answer × Substitution :=
  es.foldl (fun p e => (p.1 ++ [(p.2.edit e).1], (p.2.edit e).2)) ([], ∅)

namespace OrderedMap

/-- What an edit may say and leave of a map. -/
inductive Step (m : OrderedMap) : Edit → Edit.Answer → OrderedMap → Prop where
  | added {v : String} {t : Term} (h : v ∉ m.keys) : Step m (.add v t) .done (m.insert v t h)
  | refused {v : String} {t : Term} : v ∈ m.keys →
    Step m (.add v t) (.refused (.alreadyBound v)) m
  | removed {v : String} : Step m (.remove v) (.removed (m.value v)) (m.delete v)
  | retained {keep : List String} {dropped : Bool} :
    (dropped = true ↔ ∃ v ∈ m.keys, v ∉ keep) →
    Step m (.retain keep) (.retained dropped) (m.restrict keep)
  | resolved : Step m .resolve .done (m.mapValues m.listed.apply)
  | combined {other : Substitution} {m' : OrderedMap} : Grows m m' →
    Step m (.combine other) .done (m'.mapValues m'.listed.apply)
  | uncombined {other : Substitution} : Step m (.combine other) .failed m
  | unified {x y : Term} {m' : OrderedMap} : Grows m m' → Step m (.unify x y) .done m'
  | clashed {x y : Term} : Step m (.unify x y) .failed m

/-- What edits may say and leave, beginning with no keys. -/
inductive Run : List Edit → List Edit.Answer → OrderedMap → Prop where
  | start : Run [] [] empty
  | step {es : List Edit} {answers : List Edit.Answer} {m m' : OrderedMap} {e : Edit}
    {answer : Edit.Answer} : Run es answers m → Step m e answer m' →
    Run (es ++ [e]) (answers ++ [answer]) m'

end OrderedMap

namespace Substitution

/-- The substitution shows what the map shows. -/
structure Shows (s : Substitution) (m : OrderedMap) : Prop where
  vars : s.domain = m.keys
  get : ∀ v, s.get? v = m.value v

variable {s t : Substitution} {m : OrderedMap}

namespace Shows

theorem nodup (h : s.Shows m) : s.domain.Nodup := h.vars ▸ m.nodup

theorem contains (h : s.Shows m) (v : String) : s.binds v = true ↔ v ∈ m.keys := by
  rw [binds, h.get, m.isSome_iff]

theorem len (h : s.Shows m) : s.size = m.keys.length := by
  rw [← h.vars, domain, List.length_map]
  rfl

/-- The map in its order is the substitution itself. -/
theorem listed_eq (h : s.Shows m) : m.listed = s := by
  obtain ⟨bs⟩ := s
  have hget : ∀ v t, (v, t) ∈ bs → m.value v = some t := fun v t hmem =>
    (h.get v).symm.trans (get?_eq_of_mem h.nodup hmem)
  rw [OrderedMap.listed, ← h.vars]
  congr 1
  show (bs.map (·.1)).filterMap (fun v => (m.value v).map fun t => (v, t)) = bs
  rw [List.filterMap_map]
  clear h
  induction bs with
  | nil => rfl
  | cons b bs ih =>
    rw [List.filterMap_cons, Function.comp_apply, hget b.1 b.2 List.mem_cons_self]
    exact congrArg (b :: ·) (ih fun v t hmem => hget v t (List.mem_cons_of_mem _ hmem))

/-! ## Edits of the bindings and of the map -/

theorem empty : (∅ : Substitution).Shows .empty := ⟨rfl, fun _ => rfl⟩

theorem bind (h : s.Shows m) {v : String} (t : Term) (hv : v ∉ m.keys) :
    (s.bind v t).Shows (m.insert v t hv) where
  vars := by
    rw [domain, Substitution.bind, List.map_append]
    exact congrArg (· ++ [v]) h.vars
  get w := by
    rw [get?_bind (get?_eq_none_iff.mpr (h.vars ▸ hv)), h.get]
    rfl

theorem erase (h : s.Shows m) (v : String) : (s.erase v).Shows (m.delete v) where
  vars := by
    have hfilter : (s.erase v).domain = s.domain.filter (· != v) := by
      rw [domain, domain, Substitution.erase, List.filter_map]
      rfl
    rw [hfilter, ← h.nodup.erase_eq_filter, h.vars]
    rfl
  get w := by
    rw [get?_erase, h.get]
    rfl

theorem get?_restrict (s : Substitution) (keep : List String) (w : String) :
    (s.restrict keep).get? w = if keep.contains w then s.get? w else none := by
  obtain ⟨bs⟩ := s
  show (bs.filter fun b => keep.contains b.1).lookup w = if keep.contains w then bs.lookup w else none
  induction bs with
  | nil => simp
  | cons b bs ih =>
    obtain ⟨x, t⟩ := b
    by_cases hx : w = x
    · subst hx
      rw [List.filter_cons, List.lookup_cons_self]
      split
      · exact List.lookup_cons_self
      · rename_i hkeep
        rw [ih, if_neg hkeep]
    · have hne : (w == x) = false := beq_eq_false_iff_ne.mpr hx
      rw [List.lookup_cons, hne, List.filter_cons]
      split
      · rw [List.lookup_cons, hne, ih]
      · exact ih

theorem restrict (h : s.Shows m) (keep : List String) :
    (s.restrict keep).Shows (m.restrict keep) where
  vars := by
    have hfilter : (s.restrict keep).domain = s.domain.filter keep.contains := by
      rw [domain, domain, Substitution.restrict, List.filter_map]
      rfl
    rw [hfilter, h.vars]
    rfl
  get w := by
    rw [get?_restrict, h.get]
    rfl

theorem resolved (h : s.Shows m) : s.resolved.Shows (m.mapValues m.listed.apply) where
  vars := by
    rw [domain, Substitution.resolved, List.map_map]
    exact h.vars
  get w := by
    rw [get?_resolved, h.get, h.listed_eq]
    rfl

end Shows

/-- Unification inserts keys that were not there. -/
theorem Run.grows {equations : List Equation} {final : Substitution} (h : Run equations s final)
    (hs : s.Shows m) : ∃ m', m.Grows m' ∧ final.Shows m' := by
  refine h.invariant (P := fun later => ∃ m', m.Grows m' ∧ later.Shows m') ?_ ⟨m, .refl, hs⟩
  rintro later v t _ hfree _ ⟨m', hgrows, hshows⟩
  have hv : v ∉ m'.keys := hshows.vars ▸ get?_eq_none_iff.mp hfree
  exact ⟨m'.insert v t hv, hgrows.insert hv, hshows.bind t hv⟩

/-! ## Runs of edits -/

/-- Every edit is a step of the map with the same answer. -/
theorem edit_step (h : s.Shows m) (e : Edit) :
    ∃ m', m.Step e (s.edit e).1 m' ∧ (s.edit e).2.Shows m' := by
  cases e with
  | add v t =>
    by_cases hv : s.binds v = true
    · simp only [edit, add, if_pos hv]
      exact ⟨m, .refused ((h.contains v).mp hv), h⟩
    · simp only [edit, add, if_neg hv]
      have hv : v ∉ m.keys := fun hmem => hv ((h.contains v).mpr hmem)
      exact ⟨m.insert v t hv, .added hv, h.bind t hv⟩
  | remove v =>
    refine ⟨m.delete v, ?_, h.erase v⟩
    simp only [edit, remove, h.get]
    exact .removed
  | retain keep =>
    refine ⟨m.restrict keep, .retained ?_, h.restrict keep⟩
    simp [Substitution.retain, h.vars]
  | resolve => exact ⟨_, .resolved, h.resolved⟩
  | combine other =>
    simp only [edit]
    cases hcombine : s.combine other with
    | none => exact ⟨m, .uncombined, h⟩
    | some r =>
      obtain ⟨_, final, hrun, rfl⟩ := combine_eq_some_iff.mp hcombine
      obtain ⟨m', hgrows, hshows⟩ := hrun.grows h
      exact ⟨_, .combined hgrows, hshows.resolved⟩
  | unify x y =>
    simp only [edit]
    cases hunify : s.unify x y with
    | none => exact ⟨m, .clashed, h⟩
    | some final =>
      obtain ⟨m', hgrows, hshows⟩ := (unify_eq_some_iff.mp hunify).2.grows h
      exact ⟨m', .unified hgrows, hshows⟩

theorem edits_append (es : List Edit) (e : Edit) :
    edits (es ++ [e]) = ((edits es).1 ++ [((edits es).2.edit e).1], ((edits es).2.edit e).2) := by
  rw [edits, List.foldl_append]
  rfl

/-- Edits one after the other are a run of the map with the same answers. -/
theorem edits_run (es : List Edit) : ∃ m, OrderedMap.Run es (edits es).1 m ∧ (edits es).2.Shows m := by
  induction es using List.reverseRecOn with
  | nil => exact ⟨.empty, .start, .empty⟩
  | append_singleton es e ih =>
    obtain ⟨m, hrun, hshows⟩ := ih
    obtain ⟨m', hstep, hshows'⟩ := edit_step hshows e
    rw [edits_append]
    exact ⟨m', hrun.step hstep, hshows'⟩

/-! ## Comparison -/

/-- The same variables are bound, and to equal terms. -/
def SameBindings (s t : Substitution) : Prop :=
  ∀ v, (s.get? v = none ∧ t.get? v = none) ∨
    ∃ a b, s.get? v = some a ∧ t.get? v = some b ∧ (a == b) = true

theorem SameBindings.symm (h : s.SameBindings t) : t.SameBindings s := by
  intro v
  rcases h v with ⟨hs, ht⟩ | ⟨a, b, hs, ht, hab⟩
  · exact Or.inl ⟨ht, hs⟩
  · exact Or.inr ⟨b, a, ht, hs, Term.equal_symm hab⟩

theorem beq_iff : (s == t) = true ↔ s.size = t.size ∧
    ∀ b ∈ s.bindings, ∃ u, t.get? b.1 = some u ∧ (u == b.2) = true := by
  show (s.size == t.size && s.bindings.all fun b => t.get? b.1 == some b.2) = true ↔ _
  rw [Bool.and_eq_true, beq_iff_eq, List.all_eq_true]
  refine and_congr_right fun _ => forall₂_congr fun b _ => ?_
  cases t.get? b.1 <;> simp

theorem SameBindings.domain_subset (h : s.SameBindings t) : s.domain ⊆ t.domain := by
  intro v hv
  rcases h v with ⟨hs, _⟩ | ⟨a, b, _, ht, _⟩
  · exact absurd hv (get?_eq_none_iff.mp hs)
  · exact mem_domain_of_mem (lookup_mem ht)

/-- Where no variable is bound twice, as many variables on both sides of which those of
the first are bound in the second are the same ones. -/
theorem domain_subset_of_size (hs : s.domain.Nodup) (hsize : s.size = t.size)
    (hsub : s.domain ⊆ t.domain) : t.domain ⊆ s.domain := by
  have hlength : t.domain.length ≤ s.domain.length := by
    rw [domain, domain, List.length_map, List.length_map]
    exact Nat.le_of_eq hsize.symm
  exact ((List.subperm_of_subset hs hsub).perm_of_length_le hlength).symm.subset

/-- The comparison says whether both bind the same variables to equal terms. -/
theorem beq_iff_sameBindings (hs : s.domain.Nodup) (ht : t.domain.Nodup) :
    (s == t) = true ↔ s.SameBindings t := by
  rw [beq_iff]
  constructor
  · rintro ⟨hsize, hall⟩ v
    -- Only the bindings of `s` are looked up; as both are of one size, `t` has no others.
    have hsub : s.domain ⊆ t.domain := by
      intro w hw
      obtain ⟨b, hb, rfl⟩ := List.mem_map.mp hw
      obtain ⟨u, hu, _⟩ := hall b hb
      exact mem_domain_of_mem (lookup_mem hu)
    cases hv : s.get? v with
    | none =>
      have hfree := fun hmem => get?_eq_none_iff.mp hv (domain_subset_of_size hs hsize hsub hmem)
      exact Or.inl ⟨rfl, get?_eq_none_iff.mpr hfree⟩
    | some a =>
      obtain ⟨u, hu, heq⟩ := hall (v, a) (lookup_mem hv)
      exact Or.inr ⟨a, u, rfl, hu, Term.equal_symm heq⟩
  · intro h
    refine ⟨?_, fun b hb => ?_⟩
    · have hperm := (List.perm_ext_iff_of_nodup hs ht).mpr fun v =>
        ⟨fun hv => h.domain_subset hv, fun hv => h.symm.domain_subset hv⟩
      simpa [domain, size] using hperm.length_eq
    · rcases h b.1 with ⟨hnone, _⟩ | ⟨a, u, ha, hu, heq⟩
      · rw [get?_eq_of_mem hs hb] at hnone
        cases hnone
      · rw [get?_eq_of_mem hs hb] at ha
        obtain rfl := Option.some.inj ha
        exact ⟨u, hu, Term.equal_symm heq⟩

theorem beq_comm_of_nodup (hs : s.domain.Nodup) (ht : t.domain.Nodup) : (s == t) = (t == s) := by
  rw [Bool.eq_iff_iff, beq_iff_sameBindings hs ht, beq_iff_sameBindings ht hs]
  exact ⟨SameBindings.symm, SameBindings.symm⟩

/-- In which order the bindings stand makes no difference. -/
theorem beq_of_perm {r : Substitution} (hs : s.domain.Nodup) (ht : t.domain.Nodup)
    (h : s.bindings.Perm r.bindings) : (r == t) = (s == t) := by
  have hr : r.domain.Nodup := (h.map Prod.fst).nodup_iff.mp hs
  have hget : ∀ v, r.get? v = s.get? v := by
    intro v
    cases hv : s.get? v with
    | some u => exact get?_eq_of_mem hr (h.mem_iff.mp (lookup_mem hv))
    | none =>
      refine get?_eq_none_iff.mpr fun hmem => get?_eq_none_iff.mp hv ?_
      exact (h.map Prod.fst).mem_iff.mpr hmem
  rw [Bool.eq_iff_iff, beq_iff_sameBindings hr ht, beq_iff_sameBindings hs ht, SameBindings,
    SameBindings]
  simp only [hget]

end Substitution

open Substitution

/-- Whatever edits make a substitution, no variable is bound twice in it, and it shows a
finite map with its keys in the order they came, which went through the same edits and gave
the same answers. Two substitutions made so are equal exactly when they bind the same
variables to equal terms, from either side and in whatever order the bindings stand. -/
theorem edits_refine (es : List Edit) :
    let s := (edits es).2
    s.domain.Nodup ∧
    (∃ m, OrderedMap.Run es (edits es).1 m ∧ s.domain = m.keys ∧ s.size = m.keys.length ∧
      ∀ v, s.get? v = m.value v ∧ (s.binds v = true ↔ v ∈ m.keys)) ∧
    ∀ es', let t := (edits es').2
      ((s == t) = true ↔ s.SameBindings t) ∧ (s == t) = (t == s) ∧
        ∀ r : Substitution, s.bindings.Perm r.bindings → (r == t) = (s == t) := by
  intro s
  obtain ⟨m, hrun, hshows⟩ := edits_run es
  refine ⟨hshows.nodup, ⟨m, hrun, hshows.vars, hshows.len, fun v => ⟨hshows.get v,
    hshows.contains v⟩⟩, fun es' => ?_⟩
  obtain ⟨_, _, hshows'⟩ := edits_run es'
  exact ⟨beq_iff_sameBindings hshows.nodup hshows'.nodup,
    beq_comm_of_nodup hshows.nodup hshows'.nodup,
    fun r hperm => beq_of_perm hshows.nodup hshows'.nodup hperm⟩

/-- `X` is bound to `f(Y)`, refused another term, and `Y` bound by unification; `Z` is bound and
freed again, and what is left is followed to its end. Bound directly in the other order, the
same terms make an equal substitution. -/
theorem edits_refine_unified :
    let es : List Edit := [.add "X" (.compound "f" [.var "Y"]), .add "X" (.atom "b"),
      .add "Z" (.atom "c"), .unify (.var "Y") (.atom "a"), .remove "Z", .resolve]
    let s : Substitution := ⟨[("X", .compound "f" [.atom "a"]), ("Y", .atom "a")]⟩
    let r : Substitution := ⟨[("Y", .atom "a"), ("X", .compound "f" [.atom "a"])]⟩
    (edits es).2 = s ∧ s.bindings.Perm r.bindings ∧
      (∃ m, OrderedMap.Run es [.done, .refused (.alreadyBound "X"), .done, .done,
        .removed (some (.atom "c")), .done] m ∧ m.keys = ["X", "Y"]) ∧
      (r == s) = true := by
  intro es s r
  let before : Substitution := ⟨[("X", .compound "f" [.var "Y"]), ("Z", .atom "c")]⟩
  let after : Substitution := ⟨[("X", .compound "f" [.var "Y"]), ("Y", .atom "a")]⟩
  have hbind : before.step (.var "Y") (.atom "a") = .bind "Y" (.atom "a") := by
    rw [step_of_left rfl, stepVar_of_allFree rfl rfl rfl (by decide)]
  have hunify : before.edit (.unify (.var "Y") (.atom "a")) =
      (.done, before.bind "Y" (.atom "a")) := by
    simp only [edit, unify_eq_some_iff.mpr ⟨by decide +kernel, .bind hbind (.done _)⟩]
  have hconstant : ∀ s : Substitution, s.apply (.atom "a") = .atom "a" :=
    fun s => by simp [apply]
  have hresolve : after.edit .resolve = (.done, s) := by
    simp only [edit, resolved, after, s, List.map_cons, List.map_nil, apply_compound,
      apply_var_bound (show after.get? "Y" = some (.atom "a") from rfl), hconstant]
  have hbefore : edits (es.take 3) = ([.done, .refused (.alreadyBound "X"), .done], before) := by
    decide +kernel
  have hremove : (before.bind "Y" (.atom "a")).edit (.remove "Z") =
      (.removed (some (.atom "c")), after) := by
    decide +kernel
  have hmade : edits es = ([.done, .refused (.alreadyBound "X"), .done, .done,
      .removed (some (.atom "c")), .done], s) := by
    have hdrop : es.drop 3 = [.unify (.var "Y") (.atom "a"), .remove "Z", .resolve] := rfl
    rw [edits] at hbefore ⊢
    rw [← List.take_append_drop 3 es, List.foldl_append, hbefore, hdrop]
    simp only [List.foldl_cons, List.foldl_nil, hunify, hremove, hresolve, List.cons_append,
      List.nil_append]
  have hperm : s.bindings.Perm r.bindings := List.Perm.swap _ _ []
  have hrefine := edits_refine es
  rw [hmade] at hrefine
  obtain ⟨-, ⟨m, hrun, hvars, -, -⟩, hcompare⟩ := hrefine
  have hsame := hcompare es
  rw [hmade] at hsame
  exact ⟨congrArg Prod.snd hmade, hperm, ⟨m, hrun, hvars.symm⟩,
    (hsame.2.2 r hperm).trans (by decide +kernel)⟩

end Clausal
