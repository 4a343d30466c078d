import Docsig.Text.Blank
import Docsig.Text.Word
import Mathlib.Data.List.Basic

/-!
White space and words.

No character is both: white space lies in a few ranges of code points (`isBlank_eq`), and none
of them meets a range of word characters (`isBlank_of_isWord`). Ranges are compared by their
ends, not code point by code point.
-/

namespace Docsig.Text

variable {c : Char} {n : Nat} {ranges others : List (Nat × Nat)}

/-- Whether no code point lies in ranges of both lists. -/
def apart (ranges others : List (Nat × Nat)) : Bool :=
  ranges.all fun r => others.all fun o => r.2 < o.1 || o.2 < r.1

/-- What is in one of two ranges that are apart is not in the other. -/
theorem not_inRanges_of_apart (h : apart ranges others = true) (inside : inRanges ranges n = true) :
    inRanges others n = false := by
  rw [Bool.eq_false_iff]
  intro other
  obtain ⟨r, hr, here⟩ := List.any_eq_true.mp inside
  obtain ⟨o, ho, there⟩ := List.any_eq_true.mp other
  have away := List.all_eq_true.mp (List.all_eq_true.mp h r hr) o ho
  simp only [Bool.and_eq_true, Bool.or_eq_true, decide_eq_true_eq] at here there away
  omega

def blankRanges : List (Nat × Nat) :=
  [(9, 13), (28, 32), (0x85, 0x85), (0xA0, 0xA0), (0x1680, 0x1680), (0x2000, 0x200A),
    (0x2028, 0x2028), (0x2029, 0x2029), (0x202F, 0x202F), (0x205F, 0x205F), (0x3000, 0x3000)]

theorem isBlank_eq (c : Char) : isBlank c = inRanges blankRanges c.toNat := by
  have single (k n : Nat) : (n == k) = (decide (k ≤ n) && decide (n ≤ k)) := by
    rw [Bool.eq_iff_iff]
    simp [Nat.le_antisymm_iff, and_comm]
  simp only [isBlank, single, inRanges, blankRanges, List.any_cons, List.any_nil, Bool.or_false,
    Bool.or_assoc]

/-! ### Word characters -/

/-- A decimal digit of another script stands in the row of its zero. -/
theorem inRanges_zeros (h : (zeros.find? fun first => first ≤ n && n < first + 10).isSome = true) :
    inRanges (zeros.map fun first => (first, first + 9)) n = true := by
  obtain ⟨first, found⟩ := Option.isSome_iff_exists.mp h
  have row := List.find?_some found
  rw [Bool.and_eq_true, decide_eq_true_eq, decide_eq_true_eq] at row
  refine List.any_eq_true.mpr ⟨(first, first + 9), ?_, ?_⟩
  · exact List.mem_map_of_mem (List.mem_of_find?_eq_some found)
  · rw [Bool.and_eq_true, decide_eq_true_eq, decide_eq_true_eq]
    omega

/-- White space of ASCII is no word character. -/
theorem isWord_ascii (ascii : c.toNat < 128) (blank : isBlank c = true) : isWord c = false := by
  have none : ∀ n < 128, isBlank (Char.ofNat n) = true → isWord (Char.ofNat n) = false := by
    decide +kernel
  have h := none c.toNat ascii
  rw [Char.ofNat_toNat] at h
  exact h blank

/-- **No word character is white space.** -/
theorem isBlank_of_isWord (h : isWord c = true) : isBlank c = false := by
  by_cases ascii : c.toNat < 128
  · by_contra blank
    rw [Bool.not_eq_false] at blank
    rw [isWord_ascii ascii blank] at h
    cases h
  · rw [isWord, if_neg ascii, Bool.or_eq_true, Bool.or_eq_true, Bool.and_eq_true, digit?,
      if_neg ascii, Option.isSome_map, isIdentifierStart, if_neg ascii] at h
    rw [isBlank_eq]
    rcases h with (⟨start, -⟩ | digit) | other
    · exact not_inRanges_of_apart (by decide +kernel) start
    · exact not_inRanges_of_apart (by decide +kernel) (inRanges_zeros digit)
    · exact not_inRanges_of_apart (by decide +kernel) other

end Docsig.Text
