/-! Sets of code points, written as ascending inclusive ranges. Membership stops at the first
range above the code point asked for. -/

namespace RouteCatalog.Text

abbrev CodeRanges := List (Nat × Nat)

def CodeRanges.contains : CodeRanges → Nat → Bool
  | [], _ => false
  | (first, last) :: rest, n => decide (first ≤ n) && (decide (n ≤ last) || contains rest n)

theorem CodeRanges.exists_range_of_contains {rs : CodeRanges} {n : Nat} (h : rs.contains n = true) :
    ∃ r ∈ rs, r.1 ≤ n ∧ n ≤ r.2 := by
  induction rs with
  | nil => simp [contains] at h
  | cons r rest ih =>
    simp only [contains, Bool.and_eq_true, Bool.or_eq_true, decide_eq_true_eq] at h
    rcases h with ⟨hlo, hhi | hr⟩
    · exact ⟨r, List.mem_cons_self, hlo, hhi⟩
    · obtain ⟨r', hmem, hr'⟩ := ih hr
      exact ⟨r', List.mem_cons_of_mem _ hmem, hr'⟩

end RouteCatalog.Text
