import Docsig.Text.Basic
import Docsig.Text.Blank
import Docsig.Text.Identifier
import Mathlib.Data.List.Basic

/-!
The characters of trimmed texts and of lines.

Trimming and taking lines apart add no character (`trim_subset`, `mem_of_mem_lines`), and
writing line ends alike only trades one line end for another (`mem_unifyNewlines`). What ends
a line is white space and stands in no identifier.
-/

namespace Docsig.Text

variable {cs line : List Char} {c : Char}

theorem trimStart_subset (cs : List Char) : trimStart cs ⊆ cs :=
  (List.dropWhile_suffix isBlank).subset

theorem trimEnd_subset (cs : List Char) : trimEnd cs ⊆ cs := by
  intro c hc
  have left := (List.dropWhile_suffix isBlank).subset (List.mem_reverse.mp hc)
  exact List.mem_reverse.mp left

theorem trim_subset (cs : List Char) : trim cs ⊆ cs :=
  List.Subset.trans (trimEnd_subset _) (trimStart_subset cs)

/-- The lines of a text hold nothing but its characters. -/
theorem mem_linesFrom {l : List Char} (hl : l ∈ linesFrom line cs) (hc : c ∈ l) :
    c ∈ line ∨ c ∈ cs := by
  fun_induction linesFrom line cs with
  | case1 line _ => cases hl
  | case2 line _ =>
      rw [List.mem_singleton.mp hl] at hc
      exact .inl (List.mem_reverse.mp hc)
  | case3 line cs ih =>
      rcases List.mem_cons.mp hl with rfl | hl
      · exact .inl (List.mem_reverse.mp hc)
      · have rest := (ih hl).resolve_left List.not_mem_nil
        exact .inr (List.mem_cons_of_mem _ (List.mem_cons_of_mem _ rest))
  | case4 line d cs _ _ ih =>
      rcases List.mem_cons.mp hl with rfl | hl
      · exact .inl (List.mem_reverse.mp hc)
      · have rest := (ih hl).resolve_left List.not_mem_nil
        exact .inr (List.mem_cons_of_mem _ rest)
  | case5 line d cs _ _ ih =>
      rcases ih hl with here | rest
      · rcases List.mem_cons.mp here with rfl | here
        · exact .inr List.mem_cons_self
        · exact .inl here
      · exact .inr (List.mem_cons_of_mem _ rest)

theorem mem_of_mem_lines {l : List Char} (hl : l ∈ lines cs) (hc : c ∈ l) : c ∈ cs :=
  (mem_linesFrom hl hc).resolve_left List.not_mem_nil

/-- A character that ends no line stays what it is, and where it is. -/
theorem mem_unifyNewlines (back : c ≠ '\r') (feed : c ≠ '\n') :
    c ∈ unifyNewlines cs ↔ c ∈ cs := by
  fun_induction unifyNewlines cs with
  | case1 => rfl
  | case2 cs ih => simp [ih, back, feed]
  | case3 d cs _ ih =>
      by_cases other : d = '\r'
      · simp [ih, other, back, feed]
      · simp [ih, other]

/-! ### Line breaks -/

/-- Whatever ends a line is white space. -/
theorem isBlank_of_isLineBreak (h : isLineBreak c = true) : isBlank c = true := by
  simp only [isLineBreak, isBlank, Bool.or_eq_true, Bool.and_eq_true, decide_eq_true_eq,
    beq_iff_eq] at h ⊢
  omega

/-- No name goes over a line break. -/
theorem isIdentifierContinue_of_isLineBreak (h : isLineBreak c = true) :
    isIdentifierContinue c = false := by
  have code : c.toNat ∈ [10, 11, 12, 13, 28, 29, 30, 0x85, 0x2028, 0x2029] := by
    simp only [isLineBreak, Bool.or_eq_true, Bool.and_eq_true, decide_eq_true_eq,
      beq_iff_eq] at h
    simp only [List.mem_cons, List.not_mem_nil, or_false]
    omega
  have none : ∀ n ∈ [10, 11, 12, 13, 28, 29, 30, 0x85, 0x2028, 0x2029],
      isIdentifierContinue (Char.ofNat n) = false := by
    decide +kernel
  rw [← Char.ofNat_toNat c]
  exact none _ code

theorem isIdentifierContinue_of_mem (h : isIdentifier cs = true) (hc : c ∈ cs) :
    isIdentifierContinue c = true := by
  cases cs with
  | nil => cases hc
  | cons d ds =>
      rw [isIdentifier, Bool.and_eq_true] at h
      rcases List.mem_cons.mp hc with rfl | hc
      · rw [isIdentifierContinue, h.1, Bool.true_or]
      · exact List.all_eq_true.mp h.2 c hc

/-! ### Null characters -/

variable {ds : List Char}

theorem HasNull.mono (h : HasNull cs) (sub : cs ⊆ ds) : HasNull ds := by
  obtain ⟨c, hc, zero⟩ := h
  exact ⟨c, sub hc, zero⟩

theorem hasNull_unifyNewlines : HasNull (unifyNewlines cs) ↔ HasNull cs := by
  refine exists_congr fun c => and_congr_left fun zero => mem_unifyNewlines ?_ ?_
  · rintro rfl
    cases zero
  · rintro rfl
    cases zero

theorem hasNull_append_feed : HasNull (cs ++ ['\n']) ↔ HasNull cs := by
  constructor
  · rintro ⟨c, hc, zero⟩
    rcases List.mem_append.mp hc with hc | hc
    · exact ⟨c, hc, zero⟩
    · rw [List.mem_singleton.mp hc] at zero
      cases zero
  · exact fun h => h.mono (List.subset_append_left cs _)

end Docsig.Text
