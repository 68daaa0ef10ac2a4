/-! Sets of code points as ascending lists of inclusive ranges. -/

namespace SequenceChart.Text

/-- Whether one of the ranges holds `n`; the search ends at the first range that lies above `n`. -/
def inRanges : List (Nat × Nat) → Nat → Bool
  | [], _ => false
  | (first, last) :: ranges, n => if n < first then false else n ≤ last || inRanges ranges n

theorem exists_mem_of_inRanges {ranges : List (Nat × Nat)} {n : Nat} (h : inRanges ranges n = true) :
    ∃ r ∈ ranges, r.1 ≤ n ∧ n ≤ r.2 := by
  induction ranges with
  | nil => simp [inRanges] at h
  | cons r ranges ih =>
    rw [inRanges] at h
    by_cases hn : n < r.1
    · rw [if_pos hn] at h
      contradiction
    · rw [if_neg hn, Bool.or_eq_true] at h
      cases h with
      | inl h => exact ⟨r, List.mem_cons_self, by omega, of_decide_eq_true h⟩
      | inr h =>
        obtain ⟨s, hs, hbounds⟩ := ih h
        exact ⟨s, List.mem_cons_of_mem _ hs, hbounds⟩

end SequenceChart.Text
