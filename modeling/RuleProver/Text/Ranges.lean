/-!
# Ranges of code points

Character classes are given by tables of inclusive ranges of code points, written in increasing
order. Membership is decided by a walk along the table that stops at the first range that starts
beyond the code point.
-/

namespace RuleProver.Text

/-- Whether `n` lies in one of the inclusive ranges of an increasing table. -/
def inRanges : List (Nat × Nat) → Nat → Bool
  | [], _ => false
  | (lo, hi) :: rs, n => if n < lo then false else n ≤ hi || inRanges rs n

theorem exists_mem_of_inRanges {rs : List (Nat × Nat)} {n : Nat} (h : inRanges rs n = true) :
    ∃ r ∈ rs, r.1 ≤ n ∧ n ≤ r.2 := by
  induction rs with
  | nil => cases h
  | cons r rs ih =>
    obtain ⟨lo, hi⟩ := r
    rw [inRanges] at h
    split at h
    · cases h
    · rename_i hlo
      rcases Bool.or_eq_true_iff.mp h with hhi | hrs
      · exact ⟨(lo, hi), by simp, Nat.le_of_not_lt hlo, by simpa using hhi⟩
      · obtain ⟨r, hr, hbounds⟩ := ih hrs
        exact ⟨r, List.mem_cons_of_mem _ hr, hbounds⟩

/-- Two tables have no code point in common if no code point in a range of the first is in the
second. -/
theorem inRanges_eq_false {rs rs' : List (Nat × Nat)}
    (hapart : ∀ r ∈ rs, ∀ k < r.2 + 1 - r.1, inRanges rs' (r.1 + k) = false) {n : Nat}
    (h : inRanges rs n = true) : inRanges rs' n = false := by
  obtain ⟨r, hr, hlo, hhi⟩ := exists_mem_of_inRanges h
  have hk := hapart r hr (n - r.1) (by omega)
  rwa [Nat.add_sub_cancel' hlo] at hk

end RuleProver.Text
