/-
  Ranges — a set of code points as closed ranges in increasing order

  What is proved:
    1. `Ranges.has_iff` — in a table whose ranges begin one behind the other,
       the search finds exactly the code points that lie in one of them.
-/

namespace Clausal.Unicode

/-- Closed ranges of code points, in increasing order. -/
abbrev Ranges := List (Nat × Nat)

namespace Ranges

/-- Whether `n` lies in one of the ranges. The search ends at the first range
above `n`. -/
def has : Ranges → Nat → Bool
  | [], _ => false
  | (first, last) :: rest, n => if n < first then false else n ≤ last || has rest n

/-- No range begins before an earlier one. -/
def Increasing (rs : Ranges) : Prop := rs.Pairwise fun a b => a.1 ≤ b.1

theorem lies_of_has {rs : Ranges} {n : Nat} (h : rs.has n = true) :
    ∃ r ∈ rs, r.1 ≤ n ∧ n ≤ r.2 := by
  induction rs with
  | nil => simp [has] at h
  | cons r rest ih =>
    obtain ⟨first, last⟩ := r
    simp only [has] at h
    split at h
    · simp at h
    · rename_i hlow
      rcases Bool.or_eq_true_iff.mp h with hle | hrest
      · exact ⟨(first, last), by simp, Nat.le_of_not_lt hlow, by simpa using hle⟩
      · obtain ⟨r, hr, hin⟩ := ih hrest
        exact ⟨r, List.mem_cons_of_mem _ hr, hin⟩

theorem has_of_lies {rs : Ranges} {n : Nat} (hs : rs.Increasing) {r : Nat × Nat} (hr : r ∈ rs)
    (hlow : r.1 ≤ n) (hhigh : n ≤ r.2) : rs.has n = true := by
  induction rs with
  | nil => exact absurd hr List.not_mem_nil
  | cons q rest ih =>
    have ⟨hq, hrest⟩ := List.pairwise_cons.mp hs
    simp only [has]
    rcases List.mem_cons.mp hr with rfl | hr
    · rw [if_neg (Nat.not_lt.mpr hlow)]
      simp [hhigh]
    · have hfirst := hq r hr
      rw [if_neg (by omega), ih hrest hr]
      simp

theorem has_iff {rs : Ranges} {n : Nat} (hs : rs.Increasing) :
    rs.has n = true ↔ ∃ r ∈ rs, r.1 ≤ n ∧ n ≤ r.2 := by
  constructor
  · exact lies_of_has
  · rintro ⟨r, hr, hlow, hhigh⟩
    exact has_of_lies hs hr hlow hhigh

end Ranges

end Clausal.Unicode
