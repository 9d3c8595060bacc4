import Clausal.Diagnostic.Basic
import Mathlib.Data.List.Dedup
import Mathlib.Data.List.DropRight
import Mathlib.Data.List.Induction
import Mathlib.Data.Prod.Lex
import Mathlib.Data.String.Basic
import Mathlib.Order.WithBot

/-
  Canonical sets — diagnostics that come in any order and any number of times

  A set of diagnostics is changed in three ways: one diagnostic is inserted, several are
  added, all are cleared away. Where a diagnostic goes, and whether it is there already,
  is found by comparing alone, so the set is as good as the order: two problems that tie
  would be merged, and an order that is not total would make the set depend on its
  history. The order is that of a key which leaves nothing of a diagnostic out.

  What is proved:
    1. `Diagnostic.before_iff_key_lt`, `Diagnostic.key_injective` — diagnostics are
       ordered by their keys, and different ones have different keys.
    2. `placeInto_eq` — looking for a place by comparing tells whether a diagnostic is new.
    3. `mem_step` and `mem_run` — what a step leaves in the set, and what steps one after
       the other leave: the diagnostics added behind the last step that cleared.
    4. `lists_of_mem_iff` — a set answers every question for the diagnostics it holds.
    5. `run_canonical` — all of these for every run of steps.
-/

namespace Clausal

/-! ## The order -/

namespace Place

/-- The file of a place as a key: no file is less than every file. -/
def fileKey (p : Place) : WithBot String :=
  match p.file with
  | none => ⊥
  | some file => file

theorem fileKey_inj {p q : Place} : p.fileKey = q.fileKey ↔ p.file = q.file := by
  unfold fileKey
  cases p.file <;> cases q.file <;> simp

theorem compare_file_eq_lt {p q : Place} : compare p.file q.file = .lt ↔ p.fileKey < q.fileKey := by
  unfold fileKey
  cases p.file with
  | none => cases q.file <;> simp [compare]
  | some f =>
    cases q.file with
    | none => simp [compare]
    | some g =>
      have h : compare f g = .lt ↔ f < g := compare_lt_iff_lt
      exact h.trans WithBot.coe_lt_coe.symm

end Place

namespace Diagnostic

/-- What diagnostics are ordered by, the weightiest first. -/
def key (d : Diagnostic) : WithBot String ×ₗ ℕ ×ₗ ℕ ×ₗ ℕ ×ₗ ℕ ×ₗ String :=
  toLex (d.place.fileKey, toLex (d.place.line, toLex (d.place.column,
    toLex (d.place.start, toLex (d.place.stop, d.message)))))

variable {a b : Diagnostic}

/-- Nothing of a diagnostic is left out of its key. -/
theorem key_injective : Function.Injective key := by
  rintro ⟨am, af, al, ac, as, ao⟩ ⟨bm, bf, bl, bc, bs, bo⟩ h
  simp only [key, EmbeddingLike.apply_eq_iff_eq, Prod.mk.injEq, Place.fileKey_inj] at h
  obtain ⟨rfl, rfl, rfl, rfl, rfl, rfl⟩ := h
  rfl

theorem before_iff_key_lt : Before a b ↔ a.key < b.key := by
  show ((compare a.place.file b.place.file).then ((compare a.place.line b.place.line).then
    ((compare a.place.column b.place.column).then ((compare a.place.start b.place.start).then
      (compare a.place.stop b.place.stop))))).then (compare a.message b.message) = .lt ↔ _
  -- Places are compared as a whole before the messages; a key has its parts side by side.
  simp only [Ordering.then_assoc, Ordering.then_eq_lt, Place.compare_file_eq_lt,
    compare_lt_iff_lt, Std.compare_eq_iff_eq, key, Prod.Lex.toLex_lt_toLex, Place.fileKey_inj]

theorem compare_eq_iff : compare a b = .eq ↔ a = b :=
  ⟨Std.LawfulEqOrd.eq_of_compare, fun h => h ▸ Std.ReflCmp.compare_self⟩

instance : IsStrictTotalOrder Diagnostic Before where
  irrefl _ := Before.irrefl
  trans _ _ _ := Before.trans
  trichotomous a b hab hba := by
    rw [before_iff_key_lt] at hab hba
    exact key_injective (le_antisymm (not_lt.mp hba) (not_lt.mp hab))

end Diagnostic

/-! ## Looking for a place -/

/-- Puts a diagnostic at its place in an increasing list, found by comparing from the low
end on, and says whether none was found that ties. -/
def placeInto (d : Diagnostic) : List Diagnostic → Bool × List Diagnostic
  | [] => (true, [d])
  | e :: rest =>
    match compare d e with
    | .lt => (true, d :: e :: rest)
    | .eq => (false, e :: rest)
    | .gt => ((placeInto d rest).1, e :: (placeInto d rest).2)

theorem placeInto_snd (d : Diagnostic) (ds : List Diagnostic) :
    (placeInto d ds).2 = insertInto d ds := by
  induction ds with
  | nil => rfl
  | cons e rest ih =>
    rw [placeInto, insertInto]
    cases compare d e with
    | lt => rfl
    | eq => rfl
    | gt => exact congrArg (e :: ·) ih

/-- The search gives up at the first diagnostic that comes later; the list being
increasing, none further on could tie. -/
theorem placeInto_fst {d : Diagnostic} {ds : List Diagnostic} (h : ds.Pairwise Diagnostic.Before) :
    (placeInto d ds).1 = decide (d ∉ ds) := by
  induction ds with
  | nil => rfl
  | cons e rest ih =>
    have ⟨he, hrest⟩ := List.pairwise_cons.mp h
    rw [placeInto]
    cases hcompare : compare d e with
    | lt =>
      have hnew : d ∉ e :: rest := by
        intro hmem
        rcases List.mem_cons.mp hmem with rfl | hmem
        · exact Diagnostic.Before.irrefl hcompare
        · exact Diagnostic.Before.irrefl (Diagnostic.Before.trans hcompare (he d hmem))
      rw [decide_eq_true hnew]
    | eq =>
      obtain rfl := Diagnostic.compare_eq_iff.mp hcompare
      simp
    | gt =>
      have hne : d ≠ e := by
        intro heq
        rw [Diagnostic.compare_eq_iff.mpr heq] at hcompare
        cases hcompare
      show (placeInto d rest).1 = decide (d ∉ e :: rest)
      rw [ih hrest]
      simp [hne]

namespace DiagnosticSet

variable {s : DiagnosticSet} {d : Diagnostic} {ds : List Diagnostic}

theorem not_contains_eq (s : DiagnosticSet) (d : Diagnostic) :
    (!s.contains d) = decide (d ∉ s.items) := by
  rw [contains, List.contains_eq_mem, decide_not]

theorem placeInto_eq (s : DiagnosticSet) (d : Diagnostic) :
    placeInto d s.items = (!(s.containsThenInsert d).1, (s.containsThenInsert d).2.items) := by
  refine Prod.ext ?_ (placeInto_snd d s.items)
  rw [placeInto_fst s.increasing, containsThenInsert, not_contains_eq]

/-! ## Steps -/

/-- A way of changing a set. -/
inductive Step where
  | insert (d : Diagnostic)
  | extend (ds : List Diagnostic)
  | clear
  deriving DecidableEq

/-- The diagnostics that a step adds. -/
def Step.adds : Step → List Diagnostic
  | .insert d => [d]
  | .extend ds => ds
  | .clear => []

/-- What a step says and leaves. Only inserting has something to say: whether the
diagnostic is new. -/
def step (s : DiagnosticSet) : Step → Option Bool × DiagnosticSet
  | .insert d => (some !(s.containsThenInsert d).1, (s.containsThenInsert d).2)
  | .extend ds => (none, s.insertAll ds)
  | .clear => (none, ∅)

/-- What steps leave, beginning with no diagnostics. -/
def run (steps : List Step) : DiagnosticSet := steps.foldl (fun s st => (s.step st).2) ∅

/-- The diagnostics added behind the last step that cleared, as often as they were added
and in that order. -/
def added (steps : List Step) : List Diagnostic :=
  (steps.rtakeWhile (· ≠ .clear)).flatMap Step.adds

theorem run_append (steps : List Step) (st : Step) :
    run (steps ++ [st]) = ((run steps).step st).2 := by
  rw [run, List.foldl_append]
  rfl

theorem added_clear (steps : List Step) : added (steps ++ [.clear]) = [] := by
  simp [added]

theorem added_append (steps : List Step) {st : Step} (h : st ≠ .clear) :
    added (steps ++ [st]) = added steps ++ st.adds := by
  simp [added, h]

/-- A step keeps what is there and adds what it adds, unless it clears. -/
theorem mem_step {st : Step} (h : st ≠ .clear) : d ∈ (s.step st).2 ↔ d ∈ s ∨ d ∈ st.adds := by
  cases st with
  | insert e =>
    rw [Step.adds, List.mem_singleton, or_comm]
    exact mem_insert
  | extend ds => exact mem_insertAll
  | clear => exact absurd rfl h

theorem mem_run {steps : List Step} : d ∈ run steps ↔ d ∈ added steps := by
  induction steps using List.reverseRecOn with
  | nil => rfl
  | append_singleton steps st ih =>
    rw [run_append]
    by_cases hclear : st = .clear
    · rw [hclear, added_clear]
      rfl
    · rw [added_append steps hclear, mem_step hclear, ih, List.mem_append]

/-! ## Answers -/

/-- A set answers every question for exactly these diagnostics, each counted once. What is
`searched` for is found by comparing only. -/
structure Lists (s : DiagnosticSet) (ds : List Diagnostic) : Prop where
  distinct : s.items.Perm ds.dedup
  increasing : s.items.Pairwise fun a b => a.key < b.key
  first_none : s.first? = none ↔ ds = []
  first_some : ∀ d, s.first? = some d ↔ d ∈ ds ∧ ∀ e ∈ ds, d.key ≤ e.key
  inserted : ∀ d, (s.step (.insert d)).1 = some (decide (d ∉ ds))
  searched : ∀ d, placeInto d s.items = (decide (d ∉ ds), (s.step (.insert d)).2.items)

theorem first?_eq_some_iff : s.first? = some d ↔ d ∈ s ∧ ∀ e ∈ s, d.key ≤ e.key := by
  obtain ⟨items, hincreasing⟩ := s
  show items.head? = some d ↔ d ∈ items ∧ ∀ e ∈ items, d.key ≤ e.key
  cases items with
  | nil => simp
  | cons a rest =>
    have hleast : ∀ e ∈ a :: rest, a.key ≤ e.key := by
      intro e he
      rcases List.mem_cons.mp he with rfl | he
      · exact le_rfl
      · exact (Diagnostic.before_iff_key_lt.mp ((List.pairwise_cons.mp hincreasing).1 e he)).le
    rw [List.head?_cons, Option.some.injEq]
    constructor
    · rintro rfl
      exact ⟨List.mem_cons_self, hleast⟩
    · rintro ⟨hd, hall⟩
      exact Diagnostic.key_injective (le_antisymm (hleast d hd) (hall a List.mem_cons_self))

theorem lists_of_mem_iff (h : ∀ d, d ∈ s ↔ d ∈ ds) : s.Lists ds where
  distinct := (List.perm_ext_iff_of_nodup s.nodup ds.nodup_dedup).mpr fun d =>
    (h d).trans List.mem_dedup.symm
  increasing := s.increasing.imp Diagnostic.before_iff_key_lt.mp
  first_none := by
    rw [first?, List.head?_eq_none_iff, List.eq_nil_iff_forall_not_mem,
      List.eq_nil_iff_forall_not_mem]
    exact forall_congr' fun d => not_congr (h d)
  first_some d := by
    rw [first?_eq_some_iff, h d]
    exact and_congr_right fun _ => forall_congr' fun e => imp_congr_left (h e)
  inserted d := by
    rw [step, containsThenInsert, not_contains_eq]
    exact congrArg some (decide_eq_decide.mpr (not_congr (h d)))
  searched d := by
    rw [placeInto_eq, containsThenInsert, not_contains_eq]
    exact Prod.ext (decide_eq_decide.mpr (not_congr (h d))) rfl

/-- Whatever was inserted, added and cleared away, a set lists the diagnostics that were
added behind the last clearing, in the order of their keys, each once. The first is the
least, and inserting tells whether a diagnostic is new, whether it is looked for among the
members or by comparing only. Two runs leave the same set if and only if they have added
the same diagnostics. The order is strict and total, and only equal diagnostics tie. -/
theorem run_canonical (steps : List Step) :
    (run steps).Lists (added steps) ∧
    (∀ others, run steps = run others ↔ ∀ d, d ∈ added steps ↔ d ∈ added others) ∧
    IsStrictTotalOrder Diagnostic (fun a b => compare a b = .lt) ∧
    ∀ a b : Diagnostic, (compare a b = .lt ↔ a.key < b.key) ∧ (compare a b = .eq ↔ a = b) := by
  refine ⟨lists_of_mem_iff fun d => mem_run, fun others => ?_,
    inferInstanceAs (IsStrictTotalOrder Diagnostic Diagnostic.Before),
    fun a b => ⟨Diagnostic.before_iff_key_lt, Diagnostic.compare_eq_iff⟩⟩
  constructor
  · intro heq d
    rw [← mem_run, heq, mem_run]
  · intro hsame
    exact eq_of_mem_iff fun d => by rw [mem_run, mem_run, hsame d]

example :
    let early : Diagnostic := ⟨"a", ⟨none, 1, 4, 3, 3⟩⟩
    let late : Diagnostic := ⟨"b", ⟨none, 3, 1, 20, 20⟩⟩
    let named : Diagnostic := ⟨"a", ⟨some "a.pl", 1, 1, 0, 0⟩⟩
    (run [.insert named, .clear, .insert late, .extend [named, early, late]]).items =
      [early, late, named] := by
  decide +kernel

end DiagnosticSet

end Clausal
