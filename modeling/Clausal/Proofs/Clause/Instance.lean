import Clausal.Clause.Instance
import Clausal.Proofs.Substitution.Resolved
import Clausal.Proofs.Term.Equality

/-
  Instances stay legal — binding variables never turns a legal term into an
  illegal one

  The checks of clauses, goals and updates look at names, at numbers of
  arguments and at the branches of control constructs, and they let no variable
  stand where they look. Following bindings changes a term at its variables
  only, so an instance shows the checks what the term showed them. It makes no
  difference whether the bindings run in a circle.

  What is proved:
    1. `apply_isNamed`, `apply_indicator`, `apply_unrule?`, `apply_unconj?` — an
       instance of a term that is no variable looks the same from the top.
    2. `checkHead_apply`, `checkGoal_apply`, `checkClause_apply`,
       `checkLiteral_apply` — what passes a check passes it as an instance.
    3. `conjuncts_apply`, `change_apply` — an instance of an update has the
       instances of its conjuncts, and each asks for the instance of its change.
    4. `instances_legal` — the clause, query or update of an instance is the
       instance of the clause, query or update.
-/

namespace Clausal

variable {t : Term} (s : Substitution)

/-! ## An instance seen from the top -/

namespace Substitution

theorem apply_isNamed (h : t.isVariable = false) (name : String) (arity : Nat) :
    (s.apply t).isNamed name arity = t.isNamed name arity := by
  cases t with
  | var v => cases h
  | compound f args => simp only [apply, Term.isNamed, List.length_map]
  | _ => simp only [apply]

theorem apply_indicator (h : t.isVariable = false) : (s.apply t).indicator = t.indicator := by
  cases t with
  | var v => cases h
  | compound f args => simp only [apply, Term.indicator, List.length_map]
  | _ => simp only [apply]

theorem apply_isCallable (h : t.isVariable = false) : (s.apply t).isCallable = t.isCallable := by
  cases t with
  | var v => cases h
  | _ => simp only [apply, Term.isCallable]

/-- Both arguments of a compound with a name. -/
def pair? (name : String) : Term → Option (Term × Term)
  | .compound f [left, right] => if f = name then some (left, right) else none
  | _ => none

theorem apply_pair? (h : t.isVariable = false) (name : String) :
    pair? name (s.apply t) = (pair? name t).map (Prod.map s.apply s.apply) := by
  match t with
  | .var v => cases h
  | .atom _ | .integer _ | .float _ => simp only [apply]; rfl
  | .compound f [left, right] =>
    rw [apply_compound]
    show (if f = name then some (s.apply left, s.apply right) else none) = _
    simp only [pair?]
    split <;> rfl
  | .compound f [] | .compound f [_] | .compound f (_ :: _ :: _ :: _) =>
    rw [apply_compound]
    rfl

theorem apply_unrule? (h : t.isVariable = false) :
    (s.apply t).unrule? = t.unrule?.map (Prod.map s.apply s.apply) :=
  apply_pair? s h ":-"

theorem apply_unconj? (h : t.isVariable = false) :
    (s.apply t).unconj? = t.unconj?.map (Prod.map s.apply s.apply) :=
  apply_pair? s h ","

end Substitution

open Substitution

/-! ## Checks -/

/-- Checks made one after the other pass when both pass. -/
theorem andThen_eq_ok_iff {ε α : Type} {first : Except ε Unit} {second : Except ε α} {a : α} :
    (do first; second) = .ok a ↔ first = .ok () ∧ second = .ok a := by
  cases first with
  | ok u => exact ⟨fun h => ⟨rfl, h⟩, And.right⟩
  | error e =>
    constructor
    · intro h
      cases h
    · rintro ⟨h, _⟩
      cases h

/-- What comes of a check that passes. -/
theorem map_eq_ok_iff {ε α : Type} {check : Except ε Unit} {f : Unit → α} {a : α} :
    check.map f = .ok a ↔ check = .ok () ∧ f () = a := by
  cases check with
  | ok u => exact ⟨fun h => ⟨rfl, Except.ok.inj h⟩, fun h => congrArg Except.ok h.2⟩
  | error e =>
    constructor
    · intro h
      cases h
    · rintro ⟨h, _⟩
      cases h

/-- A check of every member passes with the results member by member. -/
theorem mapM_eq_ok_iff {ε α β : Type} {f : α → Except ε β} {as : List α} {bs : List β} :
    as.mapM f = .ok bs ↔ List.Forall₂ (fun a b => f a = .ok b) as bs := by
  induction as generalizing bs with
  | nil =>
    rw [List.mapM_nil, List.forall₂_nil_left_iff]
    exact ⟨fun h => (Except.ok.inj h).symm, fun h => h ▸ rfl⟩
  | cons a as ih =>
    rw [List.mapM_cons, List.forall₂_cons_left_iff]
    cases hf : f a with
    | error e =>
      constructor
      · intro h
        cases h
      · rintro ⟨_, _, h, _⟩
        cases h
    | ok b =>
      show (as.mapM f >>= fun bs => pure (b :: bs)) = .ok bs ↔ _
      simp only [← ih]
      cases as.mapM f with
      | error e =>
        constructor
        · intro h
          cases h
        · rintro ⟨_, _, _, h, _⟩
          cases h
      | ok bs' =>
        constructor
        · intro h
          exact ⟨b, bs', rfl, rfl, (Except.ok.inj h).symm⟩
        · rintro ⟨_, _, hb, hbs, rfl⟩
          obtain rfl := Except.ok.inj hb
          obtain rfl := Except.ok.inj hbs
          rfl

/-- What a check accepts is no variable when the check refuses all variables. -/
theorem isVariable_of_ok {α : Type} {check : Term → Except ClauseError α} {a : α}
    (hvariables : ∀ v, ∃ e, check (.var v) = .error e) (h : check t = .ok a) :
    t.isVariable = false := by
  cases t with
  | var v =>
    obtain ⟨e, he⟩ := hvariables v
    rw [he] at h
    cases h
  | _ => rfl

theorem checkHead_apply (h : checkHead t = .ok ()) : checkHead (s.apply t) = .ok () := by
  have hvar := isVariable_of_ok (fun _ => ⟨_, rfl⟩) h
  rw [checkHead_ok_iff] at h ⊢
  rwa [apply_isCallable s hvar, apply_indicator s hvar]

/-- The branches of a control construct are goals, and nothing else of a goal is
looked at but its name and the number of its arguments. -/
theorem checkGoal_apply (h : checkGoal t = .ok ()) : checkGoal (s.apply t) = .ok () := by
  fun_induction checkGoal t with
  | case1 v => cases h
  | case2 i => cases h
  | case3 x => cases h
  | case4 left right => cases h
  | case5 f left right hf hbranch ihl ihr =>
    obtain ⟨hleft, hright⟩ := andThen_eq_ok_iff.mp h
    rw [apply_compound, List.map_cons, List.map_singleton, checkGoal, if_neg hf, if_pos hbranch]
    exact andThen_eq_ok_iff.mpr ⟨ihl hleft, ihr hright⟩
  | case6 f left right hf hbranch =>
    rw [apply_compound, List.map_cons, List.map_singleton, checkGoal, if_neg hf, if_neg hbranch]
  | case7 t hvar hinteger hfloat hpair =>
    match t with
    | .var v => exact absurd rfl (hvar v)
    | .integer i => exact absurd rfl (hinteger i)
    | .float x => exact absurd rfl (hfloat x)
    | .atom name => simp only [apply]; rfl
    | .compound f [left, right] => exact absurd rfl (hpair f left right)
    | .compound f [] | .compound f [_] | .compound f (_ :: _ :: _ :: _) =>
      rw [apply_compound]
      rfl

theorem checkClause_apply (h : checkClause t = .ok ()) : checkClause (s.apply t) = .ok () := by
  have hvar := isVariable_of_ok (fun _ => ⟨_, rfl⟩) h
  unfold checkClause at h ⊢
  rw [apply_unrule? s hvar, apply_isNamed s hvar, apply_isNamed s hvar]
  cases hrule : t.unrule? with
  | some rule =>
    rw [hrule] at h
    obtain ⟨hhead, hbody⟩ := andThen_eq_ok_iff.mp h
    exact andThen_eq_ok_iff.mpr ⟨checkHead_apply s hhead, checkGoal_apply s hbody⟩
  | none =>
    rw [hrule] at h
    simp only [Option.map_none] at h ⊢
    split at h
    · cases h
    · rename_i hdirective
      rw [if_neg hdirective]
      exact checkHead_apply s h

theorem checkLiteral_apply (h : checkLiteral t = .ok ()) : checkLiteral (s.apply t) = .ok () := by
  have hvar := isVariable_of_ok (fun _ => ⟨_, rfl⟩) h
  unfold checkLiteral at h ⊢
  rw [apply_isCallable s hvar, apply_indicator s hvar]
  split at h
  · cases h
  · rename_i hbuiltin
    rw [if_neg hbuiltin]
    exact checkHead_apply s h

/-! ## Updates -/

/-- The instance of a change. -/
def Change.instantiate (c : Change) : Change :=
  match c with
  | .nothing => .nothing
  | .add fact => .add (s.apply fact)
  | .delete fact => .delete (s.apply fact)

theorem change_not (literal : Term) :
    Change.ofTerm (.compound "not" [literal]) =
      if literal.isNamed "not" 1 || literal.isNamed "\\+" 1 then .error (.nestedNegation literal)
      else (checkLiteral literal).map fun _ => .delete literal := rfl

theorem change_of_not_isNamed (h : t.isNamed "not" 1 = false) :
    Change.ofTerm t = if t.isNamed "true" 0 then .ok .nothing
      else (checkLiteral t).map fun _ => .add t := by
  unfold Change.ofTerm
  split
  · cases h
  · rfl

theorem eq_of_isNamed_one {name : String} (h : t.isNamed name 1 = true) :
    ∃ arg, t = .compound name [arg] := by
  match t with
  | .compound f [arg] =>
    obtain rfl : f = name := by simpa [Term.isNamed] using h
    exact ⟨arg, rfl⟩
  | .atom _ | .var _ | .integer _ | .float _ => cases h
  | .compound f [] | .compound f (_ :: _ :: _) => simp [Term.isNamed] at h

theorem change_apply {c : Change} (h : Change.ofTerm t = .ok c) :
    Change.ofTerm (s.apply t) = .ok (c.instantiate s) := by
  have hvar := isVariable_of_ok (fun _ => ⟨_, rfl⟩) h
  by_cases hnot : t.isNamed "not" 1 = true
  · obtain ⟨literal, rfl⟩ := eq_of_isNamed_one hnot
    rw [apply_compound, List.map_singleton]
    rw [change_not] at h ⊢
    split at h
    · cases h
    · rename_i hnested
      obtain ⟨hcheck, rfl⟩ := map_eq_ok_iff.mp h
      have hliteral := isVariable_of_ok (fun _ => ⟨_, rfl⟩) hcheck
      rw [apply_isNamed s hliteral, apply_isNamed s hliteral, if_neg hnested,
        checkLiteral_apply s hcheck]
      rfl
  · rw [Bool.not_eq_true] at hnot
    rw [change_of_not_isNamed hnot] at h
    rw [change_of_not_isNamed (by rw [apply_isNamed s hvar, hnot]), apply_isNamed s hvar]
    split at h
    · rename_i htrue
      obtain rfl := Except.ok.inj h
      rw [if_pos htrue]
      rfl
    · rename_i htrue
      rw [if_neg htrue]
      obtain ⟨hcheck, rfl⟩ := map_eq_ok_iff.mp h
      rw [checkLiteral_apply s hcheck]
      rfl

theorem conjuncts_apply (h : ∀ u ∈ t.conjuncts, u.isVariable = false) :
    (s.apply t).conjuncts = t.conjuncts.map s.apply := by
  fun_induction Term.conjuncts t with
  | case1 t left right hconj ihl ihr =>
    obtain rfl := Term.unconj_eq hconj
    rw [List.forall_mem_append] at h
    show (s.apply (.compound "," [left, right])).conjuncts = _
    rw [apply_compound, List.map_append, ← ihl h.1, ← ihr h.2]
    exact Term.conjuncts_conj _ _
  | case2 t hconj =>
    have hvar := h t (List.mem_singleton.mpr rfl)
    rw [Term.conjuncts_of_unconj? (by rw [apply_unconj? s hvar, hconj]; rfl), List.map_singleton]

/-- The changes that the instance of an update asks for. -/
theorem changes_apply {changes : List Change} (h : t.conjuncts.mapM Change.ofTerm = .ok changes) :
    (s.apply t).conjuncts.mapM Change.ofTerm = .ok (changes.map (·.instantiate s)) := by
  rw [mapM_eq_ok_iff] at h
  have hvar : ∀ u ∈ t.conjuncts, u.isVariable = false := by
    intro u hu
    obtain ⟨c, _, hc⟩ := exists_partner h hu
    exact isVariable_of_ok (fun _ => ⟨_, rfl⟩) hc
  rw [conjuncts_apply s hvar, mapM_eq_ok_iff, List.forall₂_map_left_iff, List.forall₂_map_right_iff]
  exact h.imp fun _ _ hc => change_apply s hc

theorem added?_instantiate (c : Change) : (c.instantiate s).added? = c.added?.map s.apply := by
  cases c <;> rfl

theorem deleted?_instantiate (c : Change) :
    (c.instantiate s).deleted? = c.deleted?.map s.apply := by
  cases c <;> rfl

/-- The facts that the instances of some changes list are the instances of the
facts that the changes list. -/
theorem facts_instantiate {fact? : Change → Option Term} (place : Place) (changes : List Change)
    (h : ∀ c, fact? (c.instantiate s) = (fact? c).map s.apply) :
    ((changes.map (·.instantiate s)).filterMap fact?).map (fun fact => Clause.mk fact place) =
      ((changes.filterMap fact?).map (fun fact => Clause.mk fact place)).map
        (·.instantiate s) := by
  rw [List.filterMap_map, List.map_map]
  simp only [Function.comp_def, h, Clause.instantiate]
  rw [← List.map_filterMap, List.map_map]
  rfl

/-! ## The instance of a clause, a query or an update -/

/-- A clause that passes the check has a head that does. -/
theorem checkHead_head {c : Clause} (h : checkClause c.term = .ok ()) :
    checkHead c.head = .ok () := by
  unfold checkClause at h
  unfold Clause.head
  cases hrule : c.term.unrule? with
  | some rule =>
    rw [hrule] at h
    exact (andThen_eq_ok_iff.mp h).1
  | none =>
    rw [hrule] at h
    simp only at h
    split at h
    · cases h
    · exact h

theorem head_instantiate {c : Clause} (h : c.term.isVariable = false) :
    (c.instantiate s).head = s.apply c.head := by
  unfold Clause.head Clause.instantiate
  rw [apply_unrule? s h]
  cases c.term.unrule? <;> rfl

/-- A clause, a query or an update, once accepted, is accepted under every
substitution, also where bindings run in a circle. What is accepted then is its
instance: a clause of the same predicate, and for an update the instances of
the same additions and deletions in the same order. -/
theorem instances_legal (t : Term) (place : Place) (s : Substitution) :
    (∀ c, Clause.ofTerm t place = .ok c →
      Clause.ofTerm (s.apply t) place = .ok (c.instantiate s) ∧
        (c.instantiate s).indicator = c.indicator) ∧
    (∀ q, Query.ofTerm t place = .ok q →
      Query.ofTerm (s.apply t) place = .ok (q.instantiate s)) ∧
    (∀ u, Update.ofTerm t place = .ok u →
      Update.ofTerm (s.apply t) place = .ok (u.instantiate s)) := by
  refine ⟨?_, ?_, ?_⟩
  · intro c hc
    obtain ⟨hcheck, hvalue⟩ := andThen_eq_ok_iff.mp hc
    obtain rfl := Except.ok.inj hvalue
    refine ⟨andThen_eq_ok_iff.mpr ⟨checkClause_apply s hcheck, rfl⟩, ?_⟩
    have hhead := isVariable_of_ok (fun _ => ⟨_, rfl⟩) (checkHead_head (c := ⟨t, place⟩) hcheck)
    rw [Clause.indicator, head_instantiate s (isVariable_of_ok (fun _ => ⟨_, rfl⟩) hcheck),
      apply_indicator s hhead]
    rfl
  · intro q hq
    obtain ⟨hcheck, hvalue⟩ := andThen_eq_ok_iff.mp hq
    obtain rfl := Except.ok.inj hvalue
    exact andThen_eq_ok_iff.mpr ⟨checkGoal_apply s hcheck, rfl⟩
  · intro u hu
    unfold Update.ofTerm at hu ⊢
    cases hchanges : t.conjuncts.mapM Change.ofTerm with
    | error e =>
      rw [hchanges] at hu
      cases hu
    | ok changes =>
      rw [hchanges] at hu
      obtain rfl := Except.ok.inj hu
      rw [changes_apply s hchanges, Update.instantiate,
        ← facts_instantiate s place changes (added?_instantiate s),
        ← facts_instantiate s place changes (deleted?_instantiate s)]
      rfl

/-- Where `X` and `Y` lead to each other: a rule whose body branches, a query, and
an update with an addition and a deletion. -/
theorem instances_legal_circle :
    let s : Substitution := ⟨[("X", .compound "f" [.var "Y"]), ("Y", .compound "g" [.var "X"])]⟩
    let p : Term := .compound "p" [.var "X"]
    let q : Term := .compound "q" [.var "Y", .var "Z"]
    let rule : Term := .compound ":-" [p, .compound ";" [q, .compound "," [p, .atom "!"]]]
    let goal : Term := .compound "->" [q, .compound "call" [.var "X"]]
    let update : Term := .compound "," [.compound "," [p, .atom "true"], .compound "not" [q]]
    Clause.ofTerm rule .origin = .ok ⟨rule, .origin⟩ ∧
      Query.ofTerm goal .origin = .ok ⟨goal, .origin⟩ ∧
      Update.ofTerm update .origin = .ok ⟨update, .origin, [⟨p, .origin⟩], [⟨q, .origin⟩]⟩ ∧
      Clause.ofTerm (s.apply rule) .origin = .ok ⟨s.apply rule, .origin⟩ ∧
      Query.ofTerm (s.apply goal) .origin = .ok ⟨s.apply goal, .origin⟩ ∧
      Update.ofTerm (s.apply update) .origin =
        .ok ⟨s.apply update, .origin, [⟨s.apply p, .origin⟩], [⟨s.apply q, .origin⟩]⟩ := by
  intro s p q rule goal update
  have hrule : Clause.ofTerm rule .origin = .ok ⟨rule, .origin⟩ := by decide +kernel
  have hgoal : Query.ofTerm goal .origin = .ok ⟨goal, .origin⟩ := by decide +kernel
  have hupdate : Update.ofTerm update .origin =
      .ok ⟨update, .origin, [⟨p, .origin⟩], [⟨q, .origin⟩]⟩ := by decide +kernel
  exact ⟨hrule, hgoal, hupdate, ((instances_legal rule .origin s).1 _ hrule).1,
    (instances_legal goal .origin s).2.1 _ hgoal, (instances_legal update .origin s).2.2 _ hupdate⟩

end Clausal
