import Clausal.Text.Classes
import Clausal.Text.Digits

/-
  Character classes — how the classes lie to each other

  Two tables of ranges are compared in one walk over both: for each range of
  the first, the ranges of the second that end below it are dropped for good.
  The walks over the tables themselves are evaluated.

  What is proved:
    1. `Ranges.has_of_within` and `Ranges.not_has_of_apart` — what comparing
       two tables says of every code point.
    2. `isAlphabetic_of_isLowercase`, `not_isUppercase_of_isLowercase`,
       `not_isBlank_of_isLowercase`, `not_isBlank_of_isUppercase` — a lowercase
       character is a letter and no uppercase one, and no letter with a case is
       a blank.
    3. `not_isDigit_of_isLowercase`, `not_isDigit_of_isUppercase` — nor is it a
       decimal digit.
-/

namespace Clausal.Unicode.Ranges

/-- Whether every range of the first table lies in a range of the second. -/
def within : Ranges → Ranges → Bool
  | [], _ => true
  | r :: rs, qs =>
    let left := qs.dropWhile fun q => q.1 ≤ r.1 && q.2 < r.1
    left.head?.any (fun q => q.1 ≤ r.1 && r.2 ≤ q.2) && within rs left

/-- Whether no range of the first table meets one of the second. -/
def apart : Ranges → Ranges → Bool
  | [], _ => true
  | r :: rs, qs =>
    let left := qs.dropWhile fun q => q.2 < r.1
    left.head?.all (fun q => r.2 < q.1) && apart rs left

/-- Ranges that begin and end at or below `n` without holding it hide nothing
behind them. -/
theorem has_of_has_dropWhile {qs : Ranges} {low n : Nat} (hn : low ≤ n)
    (h : has (qs.dropWhile fun q => q.1 ≤ low && q.2 < low) n = true) : qs.has n = true := by
  induction qs with
  | nil => exact h
  | cons q rest ih =>
    rw [List.dropWhile_cons] at h
    split at h
    · rename_i hq
      have hfirst : q.1 ≤ low := by simp_all
      rw [has, if_neg (by omega), ih h, Bool.or_true]
    · exact h

/-- Ranges that end below `n` do not hold it. -/
theorem not_has_of_dropWhile {qs : Ranges} {low n : Nat} (hn : low ≤ n)
    (h : has (qs.dropWhile fun q => q.2 < low) n = false) : qs.has n = false := by
  induction qs with
  | nil => rfl
  | cons q rest ih =>
    rw [List.dropWhile_cons] at h
    split at h
    · rename_i hq
      have hlast : q.2 < low := by simpa using hq
      have hout : decide (n ≤ q.2) = false := decide_eq_false (by omega)
      rw [has, ih h, hout]
      split <;> rfl
    · exact h

theorem has_of_within {rs qs : Ranges} {n : Nat} (h : rs.within qs = true)
    (hn : rs.has n = true) : qs.has n = true := by
  induction rs generalizing qs with
  | nil => simp [has] at hn
  | cons r rs ih =>
    simp only [within, Bool.and_eq_true] at h
    obtain ⟨hhead, hrest⟩ := h
    rw [has] at hn
    split at hn
    · simp at hn
    · -- Nothing that was dropped for `r` can hold `n`, which is not below `r`.
      refine has_of_has_dropWhile (by omega : r.1 ≤ n) ?_
      rcases Bool.or_eq_true_iff.mp hn with hle | hn
      · have hlast : n ≤ r.2 := by simpa using hle
        cases hleft : qs.dropWhile fun q => q.1 ≤ r.1 && q.2 < r.1 with
        | nil => simp [hleft] at hhead
        | cons q more =>
          rw [hleft] at hhead
          have hin : q.1 ≤ r.1 ∧ r.2 ≤ q.2 := by simpa using hhead
          have hheld : decide (n ≤ q.2) = true := decide_eq_true (by omega)
          rw [has, if_neg (by omega), hheld, Bool.true_or]
      · exact ih hrest hn

theorem not_has_of_apart {rs qs : Ranges} {n : Nat} (h : rs.apart qs = true)
    (hn : rs.has n = true) : qs.has n = false := by
  induction rs generalizing qs with
  | nil => simp [has] at hn
  | cons r rs ih =>
    simp only [apart, Bool.and_eq_true] at h
    obtain ⟨hhead, hrest⟩ := h
    rw [has] at hn
    split at hn
    · simp at hn
    · refine not_has_of_dropWhile (by omega : r.1 ≤ n) ?_
      rcases Bool.or_eq_true_iff.mp hn with hle | hn
      · have hlast : n ≤ r.2 := by simpa using hle
        cases hleft : qs.dropWhile fun q => q.2 < r.1 with
        | nil => rfl
        | cons q more =>
          rw [hleft] at hhead
          have hlow : r.2 < q.1 := by simpa using hhead
          rw [has, if_pos (by omega)]
      · exact ih hrest hn

end Clausal.Unicode.Ranges

namespace Clausal.Text

/-! ## Letters with a case -/

theorem isAlphabetic_of_isLowercase {c : Char} (h : isLowercase c = true) :
    isAlphabetic c = true :=
  have hwithin : Unicode.lowercase.within Unicode.alphabetic = true := by decide +kernel
  Unicode.Ranges.has_of_within hwithin h

theorem not_isUppercase_of_isLowercase {c : Char} (h : isLowercase c = true) :
    isUppercase c = false :=
  have hapart : Unicode.lowercase.apart Unicode.uppercase = true := by decide +kernel
  Unicode.Ranges.not_has_of_apart hapart h

theorem not_isBlank_of_isLowercase {c : Char} (h : isLowercase c = true) : isBlank c = false :=
  have hapart : Unicode.lowercase.apart blanks = true := by decide +kernel
  Unicode.Ranges.not_has_of_apart hapart h

theorem not_isBlank_of_isUppercase {c : Char} (h : isUppercase c = true) : isBlank c = false :=
  have hapart : Unicode.uppercase.apart blanks = true := by decide +kernel
  Unicode.Ranges.not_has_of_apart hapart h

/-! ## Digits -/

/-- The decimal digits as a table. -/
def decimalDigits : Unicode.Ranges := [(48, 57)]

theorem decimalDigits_has {c : Char} (h : isDigitIn 10 c = true) :
    decimalDigits.has c.toNat = true := by
  have hlt : digitValue c < 10 := by simpa [isDigitIn] using h
  unfold digitValue at hlt
  split at hlt
  · rename_i hc
    have hlow : 48 ≤ c.toNat := hc.1
    have hhigh : c.toNat ≤ 57 := hc.2
    simp [decimalDigits, Unicode.Ranges.has, hhigh, Nat.not_lt.mpr hlow]
  · split at hlt
    · rename_i hc
      have hlow : 97 ≤ c.toNat := hc.1
      exact absurd hlt (by omega)
    · split at hlt
      · rename_i hc
        have hlow : 65 ≤ c.toNat := hc.1
        exact absurd hlt (by omega)
      · exact absurd hlt (by decide)

/-- A table apart from the decimal digits holds none of them. -/
theorem not_isDigit_of_apart {rs : Unicode.Ranges} {c : Char}
    (h : rs.apart decimalDigits = true) (hc : rs.has c.toNat = true) : isDigitIn 10 c = false := by
  have hn := Unicode.Ranges.not_has_of_apart h hc
  cases hd : isDigitIn 10 c with
  | false => rfl
  | true =>
    rw [decimalDigits_has hd] at hn
    exact absurd hn (by decide)

theorem not_isDigit_of_isLowercase {c : Char} (h : isLowercase c = true) :
    isDigitIn 10 c = false :=
  have hapart : Unicode.lowercase.apart decimalDigits = true := by decide +kernel
  not_isDigit_of_apart hapart h

theorem not_isDigit_of_isUppercase {c : Char} (h : isUppercase c = true) :
    isDigitIn 10 c = false :=
  have hapart : Unicode.uppercase.apart decimalDigits = true := by decide +kernel
  not_isDigit_of_apart hapart h

end Clausal.Text
