import Clausal.Proofs.Term.Nodes
import Mathlib.Data.List.Forall2

/-
  Equality of terms — what comparing floats as numbers leaves of it

  Two terms are equal when they have the same shape and equal leaves. On terms
  without a NaN this is an equivalence; a term with a NaN equals nothing, not
  even itself.

  What is proved:
    1. `equal_symm`, `equal_trans` — equality is symmetric and transitive.
    2. `equal_self_iff` — exactly the terms without a NaN are equal to
       themselves.
    3. `nodes_eq_of_equal` — equal terms have as many nodes.
-/

namespace Clausal

/-! ## Lists member by member -/

section

open List (Forall₂)

variable {α β γ : Type} {R : α → β → Prop} {xs : List α} {ys : List β}

/-- To relate the members of two lists, relate each member of the first to its
partner. -/
theorem forall₂_imp_of_mem {S : α → β → Prop} (h : Forall₂ R xs ys)
    (himp : ∀ x ∈ xs, ∀ y, R x y → S x y) : Forall₂ S xs ys :=
  ((List.forall₂_and_left xs ys).mpr ⟨himp, h⟩).imp fun _ y hxy => hxy.1 y hxy.2

theorem forall₂_comp {S : β → γ → Prop} {zs : List γ} (h : Forall₂ R xs ys)
    (hs : Forall₂ S ys zs) : Forall₂ (fun x z => ∃ y, R x y ∧ S y z) xs zs := by
  induction h generalizing zs with
  | nil =>
    cases hs
    exact .nil
  | cons hxy _ ih =>
    cases hs with
    | cons hyz htail => exact .cons ⟨_, hxy, hyz⟩ (ih htail)

theorem exists_partner {x : α} (h : Forall₂ R xs ys) (hx : x ∈ xs) : ∃ y ∈ ys, R x y := by
  induction h with
  | nil => cases hx
  | cons hhead _ ih =>
    rcases List.mem_cons.mp hx with rfl | hx
    · exact ⟨_, List.mem_cons_self, hhead⟩
    · obtain ⟨y, hy, hR⟩ := ih hx
      exact ⟨y, List.mem_cons_of_mem _ hy, hR⟩

end

/-! ## Floats -/

namespace Number.Binary64

theorem equal_iff {x y : Binary64} :
    (x == y) = true ↔ x.isNaN = false ∧ y.isNaN = false ∧
      (x = y ∨ x.isZero = true ∧ y.isZero = true) := by
  have hbits : x.bits = y.bits ↔ x = y := by
    cases x
    cases y
    simp
  show (!x.isNaN && !y.isNaN && (x.bits == y.bits || (x.isZero && y.isZero))) = true ↔ _
  simp [hbits, and_assoc]

theorem equal_symm {x y : Binary64} (h : (x == y) = true) : (y == x) = true := by
  obtain ⟨hx, hy, h⟩ := equal_iff.mp h
  exact equal_iff.mpr ⟨hy, hx, h.imp Eq.symm And.symm⟩

theorem equal_trans {x y z : Binary64} (hxy : (x == y) = true) (hyz : (y == z) = true) :
    (x == z) = true := by
  obtain ⟨hx, _, hxy⟩ := equal_iff.mp hxy
  obtain ⟨_, hz, hyz⟩ := equal_iff.mp hyz
  refine equal_iff.mpr ⟨hx, hz, ?_⟩
  rcases hxy with rfl | ⟨hx, hy⟩
  · exact hyz
  · rcases hyz with rfl | ⟨_, hz⟩
    · exact Or.inr ⟨hx, hy⟩
    · exact Or.inr ⟨hx, hz⟩

theorem equal_self_iff {x : Binary64} : (x == x) = true ↔ x.isNaN = false := by
  rw [equal_iff]
  exact ⟨fun h => h.1, fun h => ⟨h, h, Or.inl rfl⟩⟩

end Number.Binary64

/-! ## Terms -/

namespace Term

mutual
/-- Whether a NaN occurs in the term. -/
def hasNaN : Term → Bool
  | .float x => x.isNaN
  | .compound _ args => anyHasNaN args
  | _ => false
/-- Whether a NaN occurs in one of the terms. -/
def anyHasNaN : List Term → Bool
  | [] => false
  | t :: ts => hasNaN t || anyHasNaN ts
end

theorem anyHasNaN_eq (ts : List Term) : anyHasNaN ts = ts.any hasNaN := by
  induction ts with
  | nil => rfl
  | cons t ts ih => rw [anyHasNaN, ih, List.any_cons]

theorem hasNaN_compound {f : String} {args : List Term} :
    (compound f args).hasNaN = false ↔ ∀ t ∈ args, t.hasNaN = false := by
  rw [hasNaN, anyHasNaN_eq, List.any_eq_false]
  simp only [Bool.not_eq_true]

theorem mem_vars_compound {f v : String} {args : List Term} :
    v ∈ (compound f args).vars ↔ ∃ t ∈ args, v ∈ t.vars := by
  rw [vars, varsAll_eq, List.mem_flatMap]

theorem equalAll_iff {xs ys : List Term} :
    equalAll xs ys = true ↔ List.Forall₂ (fun x y => (x == y) = true) xs ys := by
  induction xs generalizing ys with
  | nil => cases ys <;> simp [equalAll]
  | cons x xs ih =>
    cases ys with
    | nil => simp [equalAll]
    | cons y ys =>
      rw [equalAll, Bool.and_eq_true, ih, List.forall₂_cons]
      rfl

attribute [local simp] equal

theorem atom_equal_iff {n : String} {t : Term} : (atom n == t) = true ↔ atom n = t := by
  show equal (atom n) t = true ↔ _
  cases t <;> simp

theorem var_equal_iff {v : String} {t : Term} : (var v == t) = true ↔ var v = t := by
  show equal (var v) t = true ↔ _
  cases t <;> simp

theorem integer_equal_iff {i : Int} {t : Term} : (integer i == t) = true ↔ integer i = t := by
  show equal (integer i) t = true ↔ _
  cases t <;> simp

theorem float_equal_iff {x : Number.Binary64} {t : Term} :
    (float x == t) = true ↔ ∃ y, t = float y ∧ (x == y) = true := by
  show equal (float x) t = true ↔ _
  cases t <;> simp

theorem compound_equal_iff {f : String} {xs : List Term} {t : Term} :
    (compound f xs == t) = true ↔
      ∃ ys, t = compound f ys ∧ List.Forall₂ (fun x y => (x == y) = true) xs ys := by
  show equal (compound f xs) t = true ↔ _
  cases t with
  | compound g ys =>
    simp only [equal, Bool.and_eq_true, beq_iff_eq, equalAll_iff, compound.injEq]
    constructor
    · rintro ⟨rfl, h⟩
      exact ⟨ys, ⟨rfl, rfl⟩, h⟩
    · rintro ⟨_, ⟨rfl, rfl⟩, h⟩
      exact ⟨rfl, h⟩
  | _ => simp

theorem equal_symm {a b : Term} (h : (a == b) = true) : (b == a) = true := by
  induction a using ind generalizing b with
  | atom n =>
    obtain rfl := atom_equal_iff.mp h
    exact h
  | var v =>
    obtain rfl := var_equal_iff.mp h
    exact h
  | integer i =>
    obtain rfl := integer_equal_iff.mp h
    exact h
  | float x =>
    obtain ⟨y, rfl, hxy⟩ := float_equal_iff.mp h
    exact float_equal_iff.mpr ⟨x, rfl, Number.Binary64.equal_symm hxy⟩
  | compound f xs ih =>
    obtain ⟨ys, rfl, hall⟩ := compound_equal_iff.mp h
    refine compound_equal_iff.mpr ⟨xs, rfl, List.Forall₂.flip ?_⟩
    exact forall₂_imp_of_mem hall fun x hx y hxy => ih x hx hxy

theorem equal_comm (a b : Term) : (a == b) = (b == a) :=
  Bool.eq_iff_iff.mpr ⟨equal_symm, equal_symm⟩

theorem equal_trans {a b c : Term} (hab : (a == b) = true) (hbc : (b == c) = true) :
    (a == c) = true := by
  induction a using ind generalizing b c with
  | atom n =>
    obtain rfl := atom_equal_iff.mp hab
    exact hbc
  | var v =>
    obtain rfl := var_equal_iff.mp hab
    exact hbc
  | integer i =>
    obtain rfl := integer_equal_iff.mp hab
    exact hbc
  | float x =>
    obtain ⟨y, rfl, hxy⟩ := float_equal_iff.mp hab
    obtain ⟨z, rfl, hyz⟩ := float_equal_iff.mp hbc
    exact float_equal_iff.mpr ⟨z, rfl, Number.Binary64.equal_trans hxy hyz⟩
  | compound f xs ih =>
    obtain ⟨ys, rfl, hxy⟩ := compound_equal_iff.mp hab
    obtain ⟨zs, rfl, hyz⟩ := compound_equal_iff.mp hbc
    refine compound_equal_iff.mpr ⟨zs, rfl, forall₂_imp_of_mem (forall₂_comp hxy hyz) ?_⟩
    rintro x hx z ⟨y, hxy, hyz⟩
    exact ih x hx hxy hyz

/-- Exactly the terms without a NaN are equal to themselves. -/
theorem equal_self_iff {t : Term} : (t == t) = true ↔ t.hasNaN = false := by
  induction t using ind with
  | atom n => exact ⟨fun _ => rfl, fun _ => atom_equal_iff.mpr rfl⟩
  | var v => exact ⟨fun _ => rfl, fun _ => var_equal_iff.mpr rfl⟩
  | integer i => exact ⟨fun _ => rfl, fun _ => integer_equal_iff.mpr rfl⟩
  | float x => exact Number.Binary64.equal_self_iff
  | compound f args ih =>
    rw [hasNaN_compound, compound_equal_iff]
    constructor
    · rintro ⟨_, hsame, h⟩ t ht
      obtain ⟨_, rfl⟩ := compound.inj hsame
      exact (ih t ht).mp (List.forall₂_same.mp h t ht)
    · intro h
      exact ⟨args, rfl, List.forall₂_same.mpr fun t ht => (ih t ht).mpr (h t ht)⟩

theorem not_hasNaN_of_equal {a b : Term} (h : (a == b) = true) : b.hasNaN = false :=
  equal_self_iff.mp (equal_trans (equal_symm h) h)

theorem isVariable_of_equal {a b : Term} (h : (a == b) = true) : a.isVariable = b.isVariable := by
  cases ha : a.isVariable with
  | true =>
    obtain ⟨v, rfl⟩ := isVariable_iff.mp ha
    rw [← var_equal_iff.mp h]
    rfl
  | false =>
    cases hb : b.isVariable with
    | false => rfl
    | true =>
      obtain ⟨v, rfl⟩ := isVariable_iff.mp hb
      rw [← var_equal_iff.mp (equal_symm h)] at ha
      cases ha

theorem nodesAll_eq_of_forall₂ {xs ys : List Term}
    (h : List.Forall₂ (fun x y => x.nodes = y.nodes) xs ys) : nodesAll xs = nodesAll ys := by
  induction h with
  | nil => rfl
  | cons hhead _ ih => rw [nodesAll, nodesAll, hhead, ih]

theorem nodes_eq_of_equal {a b : Term} (h : (a == b) = true) : a.nodes = b.nodes := by
  induction a using ind generalizing b with
  | atom n => rw [← atom_equal_iff.mp h]
  | var v => rw [← var_equal_iff.mp h]
  | integer i => rw [← integer_equal_iff.mp h]
  | float x =>
    obtain ⟨y, rfl, _⟩ := float_equal_iff.mp h
    rfl
  | compound f xs ih =>
    obtain ⟨ys, rfl, hall⟩ := compound_equal_iff.mp h
    have hnodes := nodesAll_eq_of_forall₂ (forall₂_imp_of_mem hall fun x hx y hxy => ih x hx hxy)
    rw [nodes, nodes, hnodes]

end Term

end Clausal
