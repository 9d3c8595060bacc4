import Clausal.Proofs.Term.Equality

/-
  Matching — terms as patterns under an assignment of terms to variables

  An assignment gives every variable a term. Under it a term matches another one
  when it comes out equal to it, except that the anonymous variable matches
  anything, each time it occurs. For a term without that variable this says no
  more than that its instance is equal.

  What is proved:
    1. `matches_of_assign` and `assign_of_matches` — without the anonymous
       variable matching is equality of the instance.
    2. `matches_freshen` — a term matches every instance of it in which the
       occurrences of the anonymous variable have names of their own.
    3. `Matches.nodes_le` and `nodes_lt_of_matches` — what a variable of a term
       stands for is no larger than what the term matches, and smaller when the
       term is a compound.
-/

namespace Clausal

open Term (anonymousName)

namespace Term

mutual
/-- The instance of a term under an assignment of terms to all variables. -/
def assign (θ : String → Term) : Term → Term
  | .var v => θ v
  | .compound f args => .compound f (assignAll θ args)
  | t => t
/-- The instances of some terms. -/
def assignAll (θ : String → Term) : List Term → List Term
  | [] => []
  | t :: ts => assign θ t :: assignAll θ ts
end

mutual
/-- The term with the occurrences of the anonymous variable renamed one by one,
beginning with the name number `n`, and the number after the last one used. -/
def freshen (names : Nat → String) (n : Nat) : Term → Term × Nat
  | .var v => if v = anonymousName then (.var (names n), n + 1) else (.var v, n)
  | .compound f args =>
    let (args, last) := freshenAll names n args
    (.compound f args, last)
  | t => (t, n)
/-- The same for some terms, one after another. -/
def freshenAll (names : Nat → String) (n : Nat) : List Term → List Term × Nat
  | [] => ([], n)
  | t :: ts =>
    let (t, next) := freshen names n t
    let (ts, last) := freshenAll names next ts
    (t :: ts, last)
end

theorem assignAll_eq (θ : String → Term) (ts : List Term) : assignAll θ ts = ts.map (assign θ) := by
  induction ts with
  | nil => rfl
  | cons t ts ih => rw [assignAll, ih, List.map_cons]

theorem assign_compound (θ : String → Term) (f : String) (args : List Term) :
    (compound f args).assign θ = .compound f (args.map (assign θ)) := by
  rw [assign, assignAll_eq]

end Term

/-- Under the assignment the term comes out equal to `u`, the anonymous variable
standing for anything. -/
inductive Matches (θ : String → Term) : Term → Term → Prop where
  | anonymous (u : Term) : Matches θ (.var anonymousName) u
  | var {v : String} {u : Term} : (θ v == u) = true → Matches θ (.var v) u
  | constant {t u : Term} : t.isVariable = false → t.isCompound = false → (t == u) = true →
    Matches θ t u
  | compound {f : String} {ts us : List Term} : ts.length = us.length →
    (∀ p ∈ ts.zip us, Matches θ p.1 p.2) → Matches θ (.compound f ts) (.compound f us)

variable {θ : String → Term} {t u : Term}

/-! ## Instances -/

theorem Matches.var_equal {v : String} (h : Matches θ (.var v) u) (hv : v ≠ anonymousName) :
    (θ v == u) = true := by
  cases h with
  | anonymous _ => exact absurd rfl hv
  | var h => exact h
  | constant h _ _ => cases h

/-- What a compound matches is a compound of as many arguments. -/
theorem Matches.of_compound {f : String} {ts : List Term} (h : Matches θ (.compound f ts) u) :
    ∃ us, u = .compound f us ∧ List.Forall₂ (Matches θ) ts us := by
  cases h with
  | constant _ h _ => cases h
  | compound hlength hall => exact ⟨_, rfl, List.forall₂_iff_zip.mpr ⟨hlength, hall _⟩⟩

theorem matches_compound {f : String} {ts us : List Term} (h : List.Forall₂ (Matches θ) ts us) :
    Matches θ (.compound f ts) (.compound f us) :=
  .compound h.length_eq fun _ hp => List.forall₂_zip h hp

theorem Matches.congr {w : Term} (h : Matches θ t u) (hw : (u == w) = true) : Matches θ t w := by
  induction h generalizing w with
  | anonymous u => exact .anonymous w
  | var h => exact .var (Term.equal_trans h hw)
  | constant hvar hcompound h => exact .constant hvar hcompound (Term.equal_trans h hw)
  | @compound f ts us hlength _ ih =>
    obtain ⟨ws, rfl, hws⟩ := Term.compound_equal_iff.mp hw
    have hstep : List.Forall₂ (fun x y => ∀ {z : Term}, (y == z) = true → Matches θ x z) ts us :=
      List.forall₂_iff_zip.mpr ⟨hlength, ih _⟩
    refine matches_compound ((forall₂_comp hstep hws).imp ?_)
    rintro x z ⟨y, hy, hyz⟩
    exact hy hyz

theorem matches_of_assign (ht : anonymousName ∉ t.vars) (h : (t.assign θ == u) = true) :
    Matches θ t u := by
  induction t using Term.ind generalizing u with
  | atom n => exact .constant rfl rfl h
  | var v => exact .var h
  | integer i => exact .constant rfl rfl h
  | float x => exact .constant rfl rfl h
  | compound f args ih =>
    rw [Term.assign_compound] at h
    obtain ⟨us, rfl, hus⟩ := Term.compound_equal_iff.mp h
    rw [List.forall₂_map_left_iff] at hus
    refine matches_compound (forall₂_imp_of_mem hus fun t ht' y hty => ?_)
    exact ih t ht' (fun hv => ht (Term.mem_vars_compound.mpr ⟨t, ht', hv⟩)) hty

theorem assign_of_matches (ht : anonymousName ∉ t.vars) (h : Matches θ t u) :
    (t.assign θ == u) = true := by
  induction h with
  | anonymous u => exact absurd (by simp [Term.vars]) ht
  | var h => exact h
  | @constant t u hvar hcompound h =>
    cases t with
    | var v => cases hvar
    | compound f args => cases hcompound
    | _ => exact h
  | @compound f ts us hlength _ ih =>
    rw [Term.assign_compound]
    refine Term.compound_equal_iff.mpr ⟨us, rfl, ?_⟩
    rw [List.forall₂_map_left_iff]
    refine List.forall₂_iff_zip.mpr ⟨hlength, fun hp => ih _ hp fun hv => ht ?_⟩
    exact Term.mem_vars_compound.mpr ⟨_, (List.of_mem_zip hp).1, hv⟩

/-- A term matches its instances in which the occurrences of the anonymous
variable have names of their own. -/
theorem matches_freshen (hθ : ∀ v, (θ v).hasNaN = false) (names : Nat → String) (n : Nat)
    (ht : t.hasNaN = false) : Matches θ t ((t.freshen names n).1.assign θ) := by
  induction t using Term.ind generalizing n with
  | atom a => exact .constant rfl rfl (Term.equal_self_iff.mpr ht)
  | var v =>
    rw [Term.freshen]
    split
    · rename_i hv
      rw [hv]
      exact .anonymous _
    · exact .var (Term.equal_self_iff.mpr (hθ v))
  | integer i => exact .constant rfl rfl (Term.equal_self_iff.mpr ht)
  | float x => exact .constant rfl rfl (Term.equal_self_iff.mpr ht)
  | compound f args ih =>
    -- The names are counted on from one argument to the next.
    have hall : ∀ (ts : List Term) (n : Nat), (∀ t ∈ ts, t ∈ args) →
        List.Forall₂ (Matches θ) ts ((Term.freshenAll names n ts).1.map (Term.assign θ)) := by
      intro ts
      induction ts with
      | nil => exact fun _ _ => .nil
      | cons t ts ihts =>
        intro n hsub
        have hmem := hsub t List.mem_cons_self
        have hhead := ih t hmem n (Term.hasNaN_compound.mp ht t hmem)
        have htail := ihts (t.freshen names n).2 fun u hu => hsub u (List.mem_cons_of_mem t hu)
        exact .cons hhead htail
    show Matches θ (.compound f args)
      (Term.assign θ (.compound f (Term.freshenAll names n args).1))
    rw [Term.assign_compound]
    exact matches_compound (hall args n fun _ h => h)

/-! ## Sizes -/

/-- What a variable of a term stands for is no larger than what the term
matches. -/
theorem Matches.nodes_le {w : String} (h : Matches θ t u) (hw : w ∈ t.vars)
    (hname : w ≠ anonymousName) : (θ w).nodes ≤ u.nodes := by
  induction h with
  | anonymous u =>
    rw [Term.vars, List.mem_singleton] at hw
    exact absurd hw hname
  | var h =>
    rw [Term.vars, List.mem_singleton] at hw
    subst hw
    exact Nat.le_of_eq (Term.nodes_eq_of_equal h)
  | @constant t u hvar hcompound _ =>
    cases t with
    | var v => cases hvar
    | compound f args => cases hcompound
    | _ => cases hw
  | @compound f ts us hlength _ ih =>
    obtain ⟨t, ht, hw⟩ := Term.mem_vars_compound.mp hw
    have hstep : List.Forall₂ (fun x y => w ∈ x.vars → (θ w).nodes ≤ y.nodes) ts us :=
      List.forall₂_iff_zip.mpr ⟨hlength, ih _⟩
    obtain ⟨y, hy, hle⟩ := exists_partner hstep ht
    calc (θ w).nodes ≤ y.nodes := hle hw
      _ ≤ (Term.compound f us).nodes := Nat.le_of_lt (Term.nodes_lt_of_mem hy)

/-- What a variable of a compound stands for is smaller than what the compound
matches. -/
theorem nodes_lt_of_matches {f w : String} {args : List Term} (h : Matches θ (.compound f args) u)
    (hw : w ∈ (Term.compound f args).vars) (hname : w ≠ anonymousName) :
    (θ w).nodes < u.nodes := by
  obtain ⟨us, rfl, hall⟩ := h.of_compound
  obtain ⟨t, ht, hw⟩ := Term.mem_vars_compound.mp hw
  obtain ⟨y, hy, hty⟩ := exists_partner hall ht
  calc (θ w).nodes ≤ y.nodes := hty.nodes_le hw hname
    _ < (Term.compound f us).nodes := Term.nodes_lt_of_mem hy

end Clausal
