/-!
# Sets of code points

A set of characters is a list of closed intervals of code points, in increasing order. The search
stops at the first interval that starts above the code point asked for, so characters near the
front of the table, ASCII among them, are decided at once. `Ranges.exists_of_contains` says that a
hit lies in one of the intervals.
-/

namespace Lox.Unicode

/-- Closed intervals of code points, in increasing order. -/
abbrev Ranges := List (Nat × Nat)

namespace Ranges

/-- Whether a code point lies in one of the intervals. -/
def contains : Ranges → Nat → Bool
  | [], _ => false
  | (low, high) :: rest, point =>
    if point < low then false
    else if point ≤ high then true
    else contains rest point

/-- A code point that is found lies in one of the intervals. -/
theorem exists_of_contains {rs : Ranges} {point : Nat} (h : rs.contains point = true) :
    ∃ r ∈ rs, r.1 ≤ point ∧ point ≤ r.2 := by
  induction rs with
  | nil => simp [contains] at h
  | cons r rest ih =>
    obtain ⟨low, high⟩ := r
    simp only [contains] at h
    split at h
    · simp at h
    · split at h
      · exact ⟨(low, high), by simp, by omega, by assumption⟩
      · obtain ⟨r, hr, hlow, hhigh⟩ := ih h
        exact ⟨r, by simp [hr], hlow, hhigh⟩

/-- Whether every interval of one table ends before or starts after every interval of another. -/
def apart (rs ss : Ranges) : Bool :=
  rs.all fun r => ss.all fun s => decide (r.2 < s.1) || decide (s.2 < r.1)

/-- Two tables that stand apart have no code point in common. -/
theorem not_contains_of_apart {rs ss : Ranges} (h : apart rs ss = true) {point : Nat}
    (hr : rs.contains point = true) : ss.contains point = false := by
  cases hs : ss.contains point with
  | false => rfl
  | true =>
    obtain ⟨r, hmem, h1, h2⟩ := exists_of_contains hr
    obtain ⟨s, hmem', h3, h4⟩ := exists_of_contains hs
    simp only [apart, List.all_eq_true, Bool.or_eq_true, decide_eq_true_eq] at h
    have := h r hmem s hmem'
    omega

end Ranges

end Lox.Unicode
