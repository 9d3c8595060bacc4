import Clausal.Source.Place

/-
  Diagnostics — problems found in a text, in the order of their places

  A set of diagnostics is kept as a list that increases strictly by place and
  then by message, so that equal sets are equal lists.

  What is proved:
    1. The order is transitive, and two diagnostics tie only when they are the
       same.
    2. `insertInto_pairwise` — inserting keeps a list strictly increasing.
    3. `DiagnosticSet.mem_insert` — inserting adds one diagnostic and loses
       none.
    4. `DiagnosticSet.mem_ofList` — the set of a list holds what the list holds.
    5. `DiagnosticSet.eq_of_mem_iff` — sets that hold the same diagnostics are
       equal.
-/

namespace Clausal

/-- One problem and its place. -/
structure Diagnostic where
  message : String
  place : Place
  deriving DecidableEq, Repr

namespace Diagnostic

/-- Written `place: message`. -/
def text (d : Diagnostic) : String := d.place.text ++ ": " ++ d.message

/-- By place, then by message. -/
instance : Ord Diagnostic where
  compare := compareLex (compareOn place) (compareOn message)

instance : Std.TransOrd Diagnostic :=
  inferInstanceAs (Std.TransCmp (compareLex (compareOn place) (compareOn message)))

instance : Std.LawfulEqOrd Diagnostic where
  eq_of_compare {a b} h := by
    obtain ⟨am, ap⟩ := a
    obtain ⟨bm, bp⟩ := b
    have h := Ordering.then_eq_eq.mp h
    simp_all [compareOn]

/-- Strictly before, in the order of diagnostics. -/
def Before (a b : Diagnostic) : Prop := compare a b = .lt

theorem Before.trans {a b c : Diagnostic} (h : Before a b) (h' : Before b c) : Before a c :=
  Std.TransCmp.lt_trans h h'

theorem Before.irrefl {a : Diagnostic} : ¬ Before a a := by
  intro h
  simp [Before] at h

end Diagnostic

theorem nodup_of_increasing {ds : List Diagnostic} (h : ds.Pairwise Diagnostic.Before) :
    ds.Nodup := by
  refine h.imp ?_
  rintro d _ hbefore rfl
  exact Diagnostic.Before.irrefl hbefore

theorem eq_of_mem_iff_of_increasing {xs ys : List Diagnostic} (hx : xs.Pairwise Diagnostic.Before)
    (hy : ys.Pairwise Diagnostic.Before) (h : ∀ d, d ∈ xs ↔ d ∈ ys) : xs = ys := by
  have hperm : xs.Perm ys :=
    (List.perm_ext_iff_of_nodup (nodup_of_increasing hx) (nodup_of_increasing hy)).mpr h
  refine hperm.eq_of_pairwise ?_ hx hy
  intro a b _ _ hab hba
  exact absurd (hab.trans hba) Diagnostic.Before.irrefl

/-! ## Inserting at the right place -/

/-- Puts a diagnostic at its place in an increasing list, once. -/
def insertInto (d : Diagnostic) : List Diagnostic → List Diagnostic
  | [] => [d]
  | e :: rest =>
    match compare d e with
    | .lt => d :: e :: rest
    | .eq => e :: rest
    | .gt => e :: insertInto d rest

theorem mem_insertInto {d x : Diagnostic} {ds : List Diagnostic} :
    x ∈ insertInto d ds ↔ x = d ∨ x ∈ ds := by
  induction ds with
  | nil => simp [insertInto]
  | cons e rest ih =>
    simp only [insertInto]
    split
    · simp
    · rename_i h
      have := Std.LawfulEqOrd.eq_of_compare h
      simp [this]
    · simp only [List.mem_cons, ih]
      exact or_left_comm

theorem insertInto_pairwise {d : Diagnostic} {ds : List Diagnostic}
    (h : ds.Pairwise Diagnostic.Before) : (insertInto d ds).Pairwise Diagnostic.Before := by
  induction ds with
  | nil => simp [insertInto]
  | cons e rest ih =>
    have ⟨he, hrest⟩ := List.pairwise_cons.mp h
    simp only [insertInto]
    split
    · rename_i hlt
      refine List.pairwise_cons.mpr ⟨?_, h⟩
      intro x hx
      rcases List.mem_cons.mp hx with rfl | hx
      · exact hlt
      · exact Diagnostic.Before.trans hlt (he x hx)
    · exact h
    · rename_i hgt
      refine List.pairwise_cons.mpr ⟨?_, ih hrest⟩
      intro x hx
      rcases mem_insertInto.mp hx with rfl | hx
      · exact Std.OrientedCmp.lt_of_gt hgt
      · exact he x hx

/-! ## Sets -/

/-- Diagnostics in strictly increasing order. -/
structure DiagnosticSet where
  items : List Diagnostic
  increasing : items.Pairwise Diagnostic.Before
  deriving DecidableEq

namespace DiagnosticSet

/-- No diagnostics. -/
def empty : DiagnosticSet := ⟨[], List.Pairwise.nil⟩

instance : EmptyCollection DiagnosticSet := ⟨empty⟩
instance : Inhabited DiagnosticSet := ⟨empty⟩
instance : Membership Diagnostic DiagnosticSet := ⟨fun s d => d ∈ s.items⟩

/-- Adds a diagnostic, unless it is there. -/
def insert (s : DiagnosticSet) (d : Diagnostic) : DiagnosticSet :=
  ⟨insertInto d s.items, insertInto_pairwise s.increasing⟩

/-- Whether the diagnostic is in the set. -/
def contains (s : DiagnosticSet) (d : Diagnostic) : Bool := s.items.contains d

/-- Whether the diagnostic was in the set, and the set with it. -/
def containsThenInsert (s : DiagnosticSet) (d : Diagnostic) : Bool × DiagnosticSet :=
  (s.contains d, s.insert d)

/-- Adds each of the diagnostics. -/
def insertAll (s : DiagnosticSet) (ds : List Diagnostic) : DiagnosticSet := ds.foldl insert s

/-- The set of the diagnostics in a list. -/
def ofList (ds : List Diagnostic) : DiagnosticSet := empty.insertAll ds

def isEmpty (s : DiagnosticSet) : Bool := s.items.isEmpty

def size (s : DiagnosticSet) : Nat := s.items.length

/-- The least diagnostic. -/
def first? (s : DiagnosticSet) : Option Diagnostic := s.items.head?

theorem mem_insert {s : DiagnosticSet} {d x : Diagnostic} : x ∈ s.insert d ↔ x = d ∨ x ∈ s :=
  mem_insertInto

theorem mem_insertAll {s : DiagnosticSet} {ds : List Diagnostic} {x : Diagnostic} :
    x ∈ s.insertAll ds ↔ x ∈ s ∨ x ∈ ds := by
  induction ds generalizing s with
  | nil => simp [insertAll]
  | cons d ds ih =>
    calc x ∈ (s.insert d).insertAll ds ↔ (x = d ∨ x ∈ s) ∨ x ∈ ds := by rw [ih, mem_insert]
      _ ↔ x ∈ s ∨ x = d ∨ x ∈ ds := by rw [or_assoc, or_left_comm]
      _ ↔ x ∈ s ∨ x ∈ d :: ds := by rw [List.mem_cons]

theorem mem_ofList {ds : List Diagnostic} {x : Diagnostic} : x ∈ ofList ds ↔ x ∈ ds :=
  mem_insertAll.trans (or_iff_right List.not_mem_nil)

theorem nodup (s : DiagnosticSet) : s.items.Nodup := nodup_of_increasing s.increasing

theorem eq_of_mem_iff {s t : DiagnosticSet} (h : ∀ d, d ∈ s ↔ d ∈ t) : s = t := by
  obtain ⟨xs, hx⟩ := s
  obtain ⟨ys, hy⟩ := t
  obtain rfl : xs = ys := eq_of_mem_iff_of_increasing hx hy h
  rfl

end DiagnosticSet

end Clausal
