import Clausal.Proofs.Clause.Instance

/-
  Updates — how a conjunction comes apart into additions and deletions

  An update is read off the list of its conjuncts, however they are nested. Every
  conjunct asks by itself for one change or is refused by itself: `true` for
  nothing, `not(Fact)` for a deletion, any other term for the addition of itself.
  What is added or deleted passes the check for heads, and that check refuses
  everything built in, so it refuses what the other checks refuse: negations, rules
  and conjunctions.

  What is proved:
    1. `change_ok_iff` — the conjuncts that are accepted, and what each asks for.
    2. `update_eq` — an update is made of what its conjuncts ask for;
       `mapM_eq_error_iff` — of several refusals the leftmost counts.
    3. `checkClause_of_checkHead` — a fact that an update lists is a clause.
    4. `adds_eq`, `deletes_eq` — additions and deletions are the conjuncts of
       their kind in the written order; `count_kinds` — there is no other kind.
    5. `update_restated` — the lists make an update with the same lists.
    6. `updates_split` — all of these for every term.
-/

namespace Clausal

variable {t : Term}

/-! ## What the check for heads refuses -/

theorem indicator_of_isNamed {name : String} {arity : Nat} (h : t.isNamed name arity = true) :
    t.indicator = ⟨name, arity⟩ := by
  cases t with
  | atom n =>
    simp only [Term.isNamed, Bool.and_eq_true, beq_iff_eq] at h
    rw [Term.indicator, h.1, h.2]
  | compound f args =>
    simp only [Term.isNamed, Bool.and_eq_true, beq_iff_eq] at h
    rw [Term.indicator, h.1, h.2]
  | _ => cases h

/-- What passes as a head has no name that is built in. -/
theorem isNamed_of_checkHead {name : String} {arity : Nat} (h : checkHead t = .ok ())
    (hbuiltin : (Indicator.mk name arity).isBuiltin = true) : t.isNamed name arity = false := by
  cases hnamed : t.isNamed name arity with
  | false => rfl
  | true =>
    have hfree := (checkHead_ok_iff.mp h).2.2
    rw [indicator_of_isNamed hnamed, hbuiltin] at hfree
    cases hfree

theorem not_true_of_checkHead (h : checkHead t = .ok ()) : t.isNamed "true" 0 = false :=
  isNamed_of_checkHead h (by decide)

theorem not_negated_of_checkHead (h : checkHead t = .ok ()) : t.isNamed "not" 1 = false :=
  isNamed_of_checkHead h (by decide)

/-- Nothing is `true` and negated. -/
theorem not_negated_of_true (h : t.isNamed "true" 0 = true) : t.isNamed "not" 1 = false := by
  cases hnot : t.isNamed "not" 1 with
  | false => rfl
  | true =>
    have := (indicator_of_isNamed h).symm.trans (indicator_of_isNamed hnot)
    exact absurd this (by decide)

/-- A compound of two arguments with a built-in name is no head. -/
theorem pair?_of_checkHead {name : String} (h : checkHead t = .ok ())
    (hbuiltin : (Indicator.mk name 2).isBuiltin = true) : Substitution.pair? name t = none := by
  have hnamed := isNamed_of_checkHead h hbuiltin
  unfold Substitution.pair?
  split
  · rename_i f left right
    split
    · rename_i hf
      simp [Term.isNamed, hf] at hnamed
    · rfl
  · rfl

theorem unconj?_of_checkHead (h : checkHead t = .ok ()) : t.unconj? = none :=
  pair?_of_checkHead h (by decide)

/-- A fact that passes as a head is a clause. -/
theorem checkClause_of_checkHead (h : checkHead t = .ok ()) :
    t.unrule? = none ∧ checkClause t = .ok () := by
  have hrule : t.unrule? = none := pair?_of_checkHead h (by decide)
  refine ⟨hrule, ?_⟩
  rw [checkClause, hrule]
  simp only [isNamed_of_checkHead h (show (Indicator.mk ":-" 1).isBuiltin = true by decide),
    isNamed_of_checkHead h (show (Indicator.mk "?-" 1).isBuiltin = true by decide)]
  exact h

/-- The check for literals refuses no more than the check for heads, it only says
something else. -/
theorem checkLiteral_ok_iff : checkLiteral t = .ok () ↔ checkHead t = .ok () := by
  unfold checkLiteral
  split
  · rename_i hbuiltin
    have := (Bool.and_eq_true_iff.mp hbuiltin).2
    rw [checkHead_ok_iff]
    simp [this]
  · rfl

/-! ## What a conjunct asks for -/

/-- The changes that a conjunct may ask for. -/
inductive Change.AskedBy : Term → Change → Prop where
  | nothing {t : Term} : t.isNamed "true" 0 = true → AskedBy t .nothing
  | add {t : Term} : checkHead t = .ok () → AskedBy t (.add t)
  | delete {t : Term} : checkHead t = .ok () → AskedBy (.compound "not" [t]) (.delete t)

theorem change_ok_iff {c : Change} : Change.ofTerm t = .ok c ↔ Change.AskedBy t c := by
  constructor
  · intro h
    by_cases hnot : t.isNamed "not" 1 = true
    · obtain ⟨literal, rfl⟩ := eq_of_isNamed_one hnot
      rw [change_not] at h
      split at h
      · cases h
      · obtain ⟨hcheck, rfl⟩ := map_eq_ok_iff.mp h
        exact .delete (checkLiteral_ok_iff.mp hcheck)
    · rw [change_of_not_isNamed (Bool.not_eq_true _ ▸ hnot)] at h
      split at h
      · rename_i htrue
        obtain rfl := Except.ok.inj h
        exact .nothing htrue
      · obtain ⟨hcheck, rfl⟩ := map_eq_ok_iff.mp h
        exact .add (checkLiteral_ok_iff.mp hcheck)
  · intro h
    cases h with
    | nothing htrue =>
      rw [change_of_not_isNamed (not_negated_of_true htrue), if_pos htrue]
    | add hcheck =>
      rw [change_of_not_isNamed (not_negated_of_checkHead hcheck), not_true_of_checkHead hcheck,
        checkLiteral_ok_iff.mpr hcheck]
      rfl
    | @delete literal hcheck =>
      have hplain : literal.isNamed "\\+" 1 = false := isNamed_of_checkHead hcheck (by decide)
      rw [change_not, checkLiteral_ok_iff.mpr hcheck, not_negated_of_checkHead hcheck, hplain]
      rfl

namespace Change

/-- The conjunct that asks for a change. -/
def conjunct : Change → Term
  | .nothing => .atom "true"
  | .add t => t
  | .delete t => .compound "not" [t]

theorem AskedBy.conjunct {c : Change} (h : AskedBy t c) : AskedBy c.conjunct c := by
  cases h with
  | nothing _ => exact .nothing rfl
  | add hcheck => exact .add hcheck
  | delete hcheck => exact .delete hcheck

theorem AskedBy.unconj? {c : Change} (h : AskedBy t c) : c.conjunct.unconj? = none := by
  cases h with
  | nothing _ => rfl
  | add hcheck => exact unconj?_of_checkHead hcheck
  | delete _ => rfl

end Change

/-- The conjunct that asks for the deletion of a fact. -/
def Term.negation (fact : Term) : Term := .compound "not" [fact]

/-- Whether a conjunct asks for the addition of itself. -/
def Term.isAddition (t : Term) : Bool := !t.isNamed "true" 0 && !t.isNamed "not" 1

namespace Change

theorem AskedBy.added {c : Change} (h : AskedBy t c) :
    c.added? = Option.guard Term.isAddition t := by
  cases h with
  | nothing htrue => simp [Option.guard, Term.isAddition, htrue, added?]
  | add hcheck =>
    simp [Option.guard, Term.isAddition, not_true_of_checkHead hcheck,
      not_negated_of_checkHead hcheck, added?]
  | delete _ => rfl

theorem AskedBy.deleted {c : Change} (h : AskedBy t c) :
    c.deleted?.map Term.negation = Option.guard (Term.isNamed "not" 1) t := by
  cases h with
  | nothing htrue => simp [Option.guard, not_negated_of_true htrue, deleted?]
  | add hcheck => simp [Option.guard, not_negated_of_checkHead hcheck, deleted?]
  | delete _ => rfl

end Change

/-! ## Checks of every member of a list -/

section

variable {α β γ ε : Type} {f : α → Except ε β} {a : α} {as : List α}

theorem mapM_cons_of_ok {b : β} (h : f a = .ok b) :
    (a :: as).mapM f = (as.mapM f).map (b :: ·) := by
  rw [List.mapM_cons, h]
  show (as.mapM f >>= fun bs => pure (b :: bs)) = _
  cases as.mapM f <;> rfl

theorem mapM_cons_of_error {e : ε} (h : f a = .error e) : (a :: as).mapM f = .error e := by
  rw [List.mapM_cons, h]
  rfl

theorem map_eq_error_iff {check : Except ε β} {g : β → γ} {e : ε} :
    check.map g = .error e ↔ check = .error e := by
  cases check <;> simp [Except.map]

/-- A check of every member fails as it does at the leftmost member that it refuses. -/
theorem mapM_eq_error_iff {e : ε} :
    as.mapM f = .error e ↔
      ∃ before a behind, as = before ++ a :: behind ∧ (∀ b ∈ before, ∃ v, f b = .ok v) ∧
        f a = .error e := by
  constructor
  · intro h
    induction as with
    | nil => cases h
    | cons a as ih =>
      cases hf : f a with
      | error e' =>
        rw [mapM_cons_of_error hf] at h
        obtain rfl := Except.error.inj h
        exact ⟨[], a, as, rfl, fun b hb => absurd hb List.not_mem_nil, hf⟩
      | ok v =>
        rw [mapM_cons_of_ok hf, map_eq_error_iff] at h
        obtain ⟨before, b, behind, rfl, hbefore, hb⟩ := ih h
        exact ⟨a :: before, b, behind, rfl, List.forall_mem_cons.mpr ⟨⟨v, hf⟩, hbefore⟩, hb⟩
  · rintro ⟨before, b, behind, rfl, hbefore, hb⟩
    induction before with
    | nil => exact mapM_cons_of_error hb
    | cons first before ih =>
      obtain ⟨⟨v, hv⟩, hbefore⟩ := List.forall_mem_cons.mp hbefore
      rw [List.cons_append, mapM_cons_of_ok hv, map_eq_error_iff]
      exact ih hbefore

/-- Two lists related member by member are picked from alike when their members are. -/
theorem filterMap_eq_of_forall₂ {R : α → β → Prop} {f : α → Option γ} {g : β → Option γ}
    {as : List α} {bs : List β} (h : List.Forall₂ R as bs) (hpick : ∀ a b, R a b → g b = f a) :
    bs.filterMap g = as.filterMap f := by
  induction h with
  | nil => rfl
  | cons hhead _ ih => rw [List.filterMap_cons, List.filterMap_cons, hpick _ _ hhead, ih]

end

/-! ## The changes of an update -/

/-- The update that lists some changes. -/
def Update.ofChanges (t : Term) (place : Place) (changes : List Change) : Update :=
  ⟨t, place, (changes.filterMap Change.added?).map (⟨·, place⟩),
    (changes.filterMap Change.deleted?).map (⟨·, place⟩)⟩

section

variable {place : Place} {changes : List Change}

theorem update_eq (t : Term) (place : Place) :
    Update.ofTerm t place = (t.conjuncts.mapM Change.ofTerm).map (Update.ofChanges t place) := by
  unfold Update.ofTerm
  cases t.conjuncts.mapM Change.ofTerm <;> rfl

theorem changes_ok_iff {cs : List Term} :
    cs.mapM Change.ofTerm = .ok changes ↔ List.Forall₂ Change.AskedBy cs changes := by
  simp only [mapM_eq_ok_iff, change_ok_iff]

theorem update_ok_iff {u : Update} :
    Update.ofTerm t place = .ok u ↔
      ∃ changes, List.Forall₂ Change.AskedBy t.conjuncts changes ∧
        Update.ofChanges t place changes = u := by
  simp only [← changes_ok_iff]
  rw [update_eq]
  cases t.conjuncts.mapM Change.ofTerm <;> simp [Except.map]

/-- A conjunct by itself is accepted or refused as it is in its place. -/
theorem update_conjunct {c : Term} (h : c ∈ t.conjuncts) :
    Update.ofTerm c place = (Change.ofTerm c).map fun change => .ofChanges c place [change] := by
  rw [update_eq, Term.conjuncts_of_mem h]
  cases hc : Change.ofTerm c with
  | error e => rw [mapM_cons_of_error hc]; rfl
  | ok change => rw [mapM_cons_of_ok hc]; rfl

theorem adds_eq (h : List.Forall₂ Change.AskedBy t.conjuncts changes) :
    changes.filterMap Change.added? = t.conjuncts.filter Term.isAddition := by
  rw [← List.filterMap_eq_filter]
  exact filterMap_eq_of_forall₂ h fun _ _ => Change.AskedBy.added

theorem deletes_eq (h : List.Forall₂ Change.AskedBy t.conjuncts changes) :
    (changes.filterMap Change.deleted?).map Term.negation =
      t.conjuncts.filter (Term.isNamed "not" 1) := by
  rw [← List.filterMap_eq_filter, List.map_filterMap]
  exact filterMap_eq_of_forall₂ h fun _ _ => Change.AskedBy.deleted

/-- A conjunct is of exactly one of three kinds. -/
theorem count_kinds (cs : List Term) :
    cs.countP (Term.isNamed "true" 0) + cs.countP Term.isAddition +
      cs.countP (Term.isNamed "not" 1) = cs.length := by
  induction cs with
  | nil => rfl
  | cons c cs ih =>
    have hkind : c.isAddition = (!c.isNamed "true" 0 && !c.isNamed "not" 1) := rfl
    rw [List.countP_cons, List.countP_cons, List.countP_cons, List.length_cons, hkind]
    cases htrue : c.isNamed "true" 0 with
    | true =>
      simp only [not_negated_of_true htrue, Bool.not_true, Bool.false_and, Bool.false_eq_true,
        if_true, if_false]
      omega
    | false =>
      cases c.isNamed "not" 1 <;>
        simp only [Bool.not_true, Bool.not_false, Bool.and_true, Bool.and_false,
          Bool.false_eq_true, if_true, if_false] <;>
        omega

theorem count_changes (h : List.Forall₂ Change.AskedBy t.conjuncts changes) :
    t.conjuncts.countP (Term.isNamed "true" 0) + (changes.filterMap Change.added?).length +
      (changes.filterMap Change.deleted?).length = t.conjuncts.length := by
  have hdeletes := congrArg List.length (deletes_eq h)
  rw [List.length_map, ← List.countP_eq_length_filter] at hdeletes
  rw [adds_eq h, hdeletes, ← List.countP_eq_length_filter]
  exact count_kinds t.conjuncts

/-! ## The update restated -/

/-- The additions of an update and then its deletions as a conjunction. -/
def Update.restated (u : Update) : Term :=
  .conjunction (u.adds.map Clause.term ++ u.deletes.map fun c => .negation c.term)

/-- The changes that are made: the additions, then the deletions. -/
def Change.made (changes : List Change) : List Change :=
  (changes.filterMap Change.added?).map .add ++ (changes.filterMap Change.deleted?).map .delete

theorem restated_ofChanges :
    (Update.ofChanges t place changes).restated =
      .conjunction ((Change.made changes).map Change.conjunct) := by
  simp only [Update.restated, Update.ofChanges, Change.made, List.map_append, List.map_map]
  rfl

theorem askedBy_of_made {cs : List Term} (h : List.Forall₂ Change.AskedBy cs changes) :
    ∀ c ∈ Change.made changes, Change.AskedBy c.conjunct c := by
  intro c hc
  have hmem : c ∈ changes := by
    rcases List.mem_append.mp hc with hc | hc
    · obtain ⟨fact, hfact, rfl⟩ := List.mem_map.mp hc
      obtain ⟨c, hc, hadded⟩ := List.mem_filterMap.mp hfact
      cases c with
      | add u => rwa [← Option.some.inj hadded]
      | _ => cases hadded
    · obtain ⟨fact, hfact, rfl⟩ := List.mem_map.mp hc
      obtain ⟨c, hc, hdeleted⟩ := List.mem_filterMap.mp hfact
      cases c with
      | delete u => rwa [← Option.some.inj hdeleted]
      | _ => cases hdeleted
  obtain ⟨t, _, ht⟩ := exists_partner h.flip hmem
  exact ht.conjunct

/-- The conjuncts of some changes ask for these changes again. -/
theorem forall₂_conjuncts (h : ∀ c ∈ changes, Change.AskedBy c.conjunct c) (hne : changes ≠ []) :
    List.Forall₂ Change.AskedBy (Term.conjunction (changes.map Change.conjunct)).conjuncts
      changes := by
  have hsingle : (changes.map Change.conjunct).flatMap Term.conjuncts =
      changes.map Change.conjunct := by
    rw [List.flatMap_map, List.map_eq_flatMap]
    exact List.flatMap_congr fun c hc => Term.conjuncts_of_unconj? (h c hc).unconj?
  rw [Term.conjuncts_conjunction (by simpa using hne), hsingle, List.forall₂_map_left_iff]
  exact List.forall₂_same.mpr h

theorem added_made (changes : List Change) :
    (Change.made changes).filterMap Change.added? = changes.filterMap Change.added? := by
  simp [Change.made, List.filterMap_map, Function.comp_def, Change.added?]

theorem deleted_made (changes : List Change) :
    (Change.made changes).filterMap Change.deleted? = changes.filterMap Change.deleted? := by
  simp [Change.made, List.filterMap_map, Function.comp_def, Change.deleted?]

/-- The lists make an update with the same lists. -/
theorem update_restated {u : Update} (h : Update.ofTerm t place = .ok u) :
    Update.ofTerm u.restated place = .ok { u with term := u.restated } := by
  obtain ⟨changes, hchanges, rfl⟩ := update_ok_iff.mp h
  have hadded := added_made changes
  have hdeleted := deleted_made changes
  rw [restated_ofChanges, update_ok_iff]
  by_cases hmade : Change.made changes = []
  · -- Without a change the conjunction is `true`.
    rw [hmade] at hadded hdeleted ⊢
    refine ⟨[.nothing], ?_, ?_⟩
    · rw [show (Term.conjunction ([].map Change.conjunct)).conjuncts = [.atom "true"] from
        Term.conjuncts_of_unconj? rfl]
      exact .cons (.nothing rfl) .nil
    · simp only [Update.ofChanges, ← hadded, ← hdeleted]
      rfl
  · refine ⟨Change.made changes, forall₂_conjuncts (askedBy_of_made hchanges) hmade, ?_⟩
    simp only [Update.ofChanges, hadded, hdeleted]

/-- What an update lists has passed the check for heads. -/
theorem checkHead_of_made (h : List.Forall₂ Change.AskedBy t.conjuncts changes) :
    ∀ fact ∈ changes.filterMap Change.added? ++ changes.filterMap Change.deleted?,
      checkHead fact = .ok () := by
  intro fact hfact
  rcases List.mem_append.mp hfact with hfact | hfact
  · have hmade := List.mem_append_left ((changes.filterMap Change.deleted?).map Change.delete)
      (List.mem_map_of_mem (f := Change.add) hfact)
    cases askedBy_of_made h _ hmade with
    | add hcheck => exact hcheck
  · have hmade := List.mem_append_right ((changes.filterMap Change.added?).map Change.add)
      (List.mem_map_of_mem (f := Change.delete) hfact)
    cases askedBy_of_made h _ hmade with
    | delete hcheck => exact hcheck

theorem clause_of_checkHead (h : checkHead t = .ok ()) (place : Place) :
    Clause.ofTerm t place = .ok ⟨t, place⟩ ∧ (Clause.mk t place).isFact = true := by
  obtain ⟨hrule, hcheck⟩ := checkClause_of_checkHead h
  refine ⟨?_, ?_⟩
  · rw [Clause.ofTerm, hcheck]
    rfl
  · rw [Clause.isFact, Clause.body?, hrule]
    rfl

/-- What an update lists are facts, and each of them is accepted as it is. -/
theorem facts_of_update {u : Update} (h : Update.ofTerm t place = .ok u) :
    ∀ c ∈ u.adds ++ u.deletes, Clause.ofTerm c.term place = .ok c ∧ c.isFact = true := by
  obtain ⟨changes, hchanges, rfl⟩ := update_ok_iff.mp h
  have hmap : (Update.ofChanges t place changes).adds ++ (Update.ofChanges t place changes).deletes =
      (changes.filterMap Change.added? ++ changes.filterMap Change.deleted?).map (⟨·, place⟩) := by
    rw [List.map_append]
    rfl
  rw [hmap]
  refine List.forall_mem_map.mpr fun fact hfact => ?_
  exact clause_of_checkHead (checkHead_of_made hchanges fact hfact) place

end

/-- An update depends on the conjuncts of its term alone, however they are nested, but for
the term that it keeps. Every conjunct is `true`, is listed as an addition, or is listed
as what a deletion negates, and both lists have the written order. What is listed are
facts that are clauses as they are, and the additions followed by the negated deletions
make an update with the same lists. A term that is refused is refused as the leftmost
conjunct is that is refused by itself. -/
theorem updates_split (t : Term) (place : Place) :
    (∀ t' : Term, t'.conjuncts = t.conjuncts →
      Update.ofTerm t' place = (Update.ofTerm t place).map fun u => { u with term := t' }) ∧
    (∀ u, Update.ofTerm t place = .ok u →
      u.term = t ∧ u.place = place ∧
      t.conjuncts.countP (Term.isNamed "true" 0) + u.adds.length + u.deletes.length =
        t.conjuncts.length ∧
      u.adds.map Clause.term = t.conjuncts.filter Term.isAddition ∧
      (u.deletes.map fun c => c.term.negation) = t.conjuncts.filter (Term.isNamed "not" 1) ∧
      (∀ c ∈ u.adds ++ u.deletes, Clause.ofTerm c.term place = .ok c ∧ c.isFact = true) ∧
      Update.ofTerm u.restated place = .ok { u with term := u.restated }) ∧
    (∀ e, Update.ofTerm t place = .error e ↔
      ∃ before c behind, t.conjuncts = before ++ c :: behind ∧
        (∀ b ∈ before, ∃ u, Update.ofTerm b place = .ok u) ∧
        Update.ofTerm c place = .error e) := by
  refine ⟨?_, ?_, ?_⟩
  · intro t' hconjuncts
    rw [update_eq, update_eq, hconjuncts]
    cases t.conjuncts.mapM Change.ofTerm <;> rfl
  · intro u hu
    obtain ⟨changes, hchanges, rfl⟩ := update_ok_iff.mp hu
    refine ⟨rfl, rfl, ?_, ?_, ?_, facts_of_update hu, update_restated hu⟩
    · simpa only [Update.ofChanges, List.length_map] using count_changes hchanges
    · rw [← adds_eq hchanges, Update.ofChanges, List.map_map]
      exact List.map_id _
    · rw [← deletes_eq hchanges, Update.ofChanges, List.map_map]
      rfl
  · intro e
    rw [update_eq, map_eq_error_iff, mapM_eq_error_iff]
    -- A conjunct is accepted or refused by itself as it is in its place.
    refine exists_congr fun before => exists_congr fun c => exists_congr fun behind =>
      and_congr_right fun hsplit => ?_
    have hmem : ∀ b ∈ before ++ [c], b ∈ t.conjuncts := by
      intro b hb
      rw [hsplit, List.append_cons]
      exact List.mem_append_left _ hb
    refine and_congr (forall₂_congr fun b hb => ?_) ?_
    · rw [update_conjunct (hmem b (List.mem_append_left _ hb))]
      cases Change.ofTerm b <;> simp [Except.map]
    · rw [update_conjunct (hmem c (List.mem_append_right _ (List.mem_singleton_self c))),
        map_eq_error_iff]

/-- `(p(X), true), not(q)` and `p(X), (true, not(q))` are the same update but for their terms,
and it is restated as `p(X), not(q)`; `p(X), (V, not(not(q)))` is refused on account of `V`. -/
theorem updates_split_nested :
    let p : Term := .compound "p" [.var "X"]
    let q : Term := .atom "q"
    let t : Term := .conj (.conj p (.atom "true")) q.negation
    let t' : Term := .conj p (.conj (.atom "true") q.negation)
    let u : Update := ⟨t, .origin, [⟨p, .origin⟩], [⟨q, .origin⟩]⟩
    let refused : Term := .conj p (.conj (.var "V") q.negation.negation)
    t'.conjuncts = t.conjuncts ∧ Update.ofTerm t .origin = .ok u ∧
      Update.ofTerm t' .origin = .ok { u with term := t' } ∧
      Update.ofTerm (.conj p q.negation) .origin = .ok { u with term := .conj p q.negation } ∧
      Update.ofTerm refused .origin = .error (.variableHead "V") := by
  intro p q t t' u refused
  have hconjuncts : t'.conjuncts = t.conjuncts := by decide +kernel
  have hu : Update.ofTerm t .origin = .ok u := by decide +kernel
  have ht' := (updates_split t .origin).1 t' hconjuncts
  rw [hu] at ht'
  have hrestated := ((updates_split t .origin).2.1 u hu).2.2.2.2.2.2
  have hrefused : Update.ofTerm refused .origin = .error (.variableHead "V") := by
    refine ((updates_split refused .origin).2.2 _).mpr
      ⟨[p], .var "V", [q.negation.negation], by decide +kernel, ?_, by decide +kernel⟩
    exact List.forall_mem_singleton.mpr ⟨⟨p, .origin, [⟨p, .origin⟩], []⟩, by decide +kernel⟩
  exact ⟨hconjuncts, hu, ht', hrestated, hrefused⟩

end Clausal
