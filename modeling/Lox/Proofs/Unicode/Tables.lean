import Lox.Unicode.Space
import Lox.Unicode.Word
import Mathlib
/-!
# Tables that stand apart

No letter is a decimal digit, and no word character is white space. The
tables of letters and of digits are too long for a comparison of every
interval of one with every interval of the other, so they are merged:
`apart_of_clear` says that this is as good, since both are in increasing
order.
-/

namespace Lox.Unicode

namespace Ranges

/-- Whether the intervals of a table lie clear of those of another, both in
increasing order: what ends before one of them is dropped for good. -/
def clear (rs : Ranges) : Ranges → Bool
  | [] => true
  | s :: ss =>
    let rest := rs.dropWhile fun r => Nat.blt r.2 s.1
    rest.head?.all (fun r => Nat.blt s.2 r.1) && clear rest ss

/-- In increasing order, what starts an interval starts before all later
ones. -/
theorem pairwise_of_isChain {rs : Ranges} (h : rs.IsChain fun r r' => r.1 ≤ r'.1) :
    rs.Pairwise fun r r' => r.1 ≤ r'.1 := by
  have htrans : Trans (fun r r' : Nat × Nat => r.1 ≤ r'.1)
      (fun r r' : Nat × Nat => r.1 ≤ r'.1) (fun r r' : Nat × Nat => r.1 ≤ r'.1) := ⟨Nat.le_trans⟩
  exact List.isChain_iff_pairwise.1 h

/-- Intervals that lie clear of each other end before each other. -/
theorem lt_of_clear {rs ss : Ranges} (hrs : rs.Pairwise fun r r' => r.1 ≤ r'.1)
    (hss : ss.Pairwise fun s s' => s.1 ≤ s'.1) (h : clear rs ss = true) :
    ∀ s ∈ ss, ∀ r ∈ rs, r.2 < s.1 ∨ s.2 < r.1 := by
  induction ss generalizing rs with
  | nil => simp
  | cons s ss ih =>
    obtain ⟨hfirst, hss⟩ := List.pairwise_cons.1 hss
    rw [clear, Bool.and_eq_true] at h
    obtain ⟨hhead, hrest⟩ := h
    -- An interval is dropped before `s`, and so before all that follows, or it is left.
    have hdropped : ∀ r ∈ rs, r.2 < s.1 ∨ r ∈ rs.dropWhile fun r => Nat.blt r.2 s.1 := by
      intro r hr
      rw [← List.takeWhile_append_dropWhile (p := fun r => Nat.blt r.2 s.1) (l := rs)] at hr
      rcases List.mem_append.1 hr with hr | hr
      · exact .inl (by simpa using List.mem_takeWhile_imp hr)
      · exact .inr hr
    have hleft := hrs.sublist (List.dropWhile_sublist fun r => Nat.blt r.2 s.1)
    generalize rs.dropWhile (fun r => Nat.blt r.2 s.1) = left at hhead hrest hdropped hleft
    intro s' hs' r hr
    rcases List.mem_cons.1 hs' with rfl | hs'
    · rcases hdropped r hr with hlt | hr
      · exact .inl hlt
      · match left with
        | r₀ :: tail =>
          have hlt : s'.2 < r₀.1 := by simpa using hhead
          rcases List.mem_cons.1 hr with rfl | hr
          · exact .inr hlt
          · have := (List.pairwise_cons.1 hleft).1 r hr
            exact .inr (by omega)
    · rcases hdropped r hr with hlt | hr
      · have := hfirst s' hs'
        exact .inl (by omega)
      · exact ih hleft hss hrest s' hs' r hr

/-- **Tables in increasing order that lie clear of each other stand
apart.** -/
theorem apart_of_clear {rs ss : Ranges} (hrs : rs.IsChain fun r r' => r.1 ≤ r'.1)
    (hss : ss.IsChain fun s s' => s.1 ≤ s'.1) (h : clear rs ss = true) : apart rs ss = true := by
  have hlt := lt_of_clear (pairwise_of_isChain hrs) (pairwise_of_isChain hss) h
  simp only [apart, List.all_eq_true, Bool.or_eq_true, decide_eq_true_eq]
  exact fun r hr s hs => hlt s hs r hr

end Ranges

/-- **No letter is a decimal digit.** -/
theorem isDecimalDigit_of_isLetter {c : Char} (h : isLetter c = true) :
    isDecimalDigit c = false := by
  have hapart : letters.apart decimalDigits = true :=
    Ranges.apart_of_clear (by decide +kernel) (by decide +kernel) (by decide +kernel)
  exact Ranges.not_contains_of_apart hapart h

/-- **No word character is white space.** -/
theorem isSpace_of_isWordChar {c : Char} (h : isWordChar c = true) : isSpace c = false := by
  have hletters : letters.apart spaces = true := by decide +kernel
  have hdigits : decimalDigits.apart spaces = true := by decide +kernel
  have hnumerals : otherNumerals.apart spaces = true := by decide +kernel
  simp only [isWordChar, isAlphanumeric, Bool.or_eq_true, beq_iff_eq] at h
  rcases h with ((h | h) | h) | rfl
  · exact Ranges.not_contains_of_apart hletters h
  · exact Ranges.not_contains_of_apart hdigits h
  · exact Ranges.not_contains_of_apart hnumerals h
  · decide

end Lox.Unicode
