import Docsig.Comment.Line
import Mathlib.Data.List.Basic

/-!
The run of comment lines above a definition.

`RunTo isLine source n ls` says what the run is without saying how it is found: `ls` are
comment lines with the numbers up to `n`, and the line above them is none. There is exactly
one such run (`RunTo.unique`), and it is the one that `linesAbove?` gives
(`linesAbove?_run`). Which lines count is left open, so that the run can be compared with
the one that other lines would give (`RunTo.congr`).
-/

namespace Docsig.Comment

/-- The longest run of comment lines of a source that ends with line `n`. -/
structure RunTo (isLine : Nat → List Char → Bool) (source : List (List Char)) (n : Nat)
    (ls : List Line) : Prop where
  within : ls.length ≤ n
  numbers : ls.map Line.number = List.range' (n + 1 - ls.length) ls.length
  lines : ∀ l ∈ ls, ∃ raw, source[l.number - 1]? = some raw ∧
    isLine l.number (Text.trim raw) = true ∧ l.text = lineText (Text.trim raw)
  longest : ls.length < n → ∃ raw, source[n - ls.length - 1]? = some raw ∧
    isLine (n - ls.length) (Text.trim raw) = false

/-- Whether a line, without the white space around it, is a comment that is neither the name
of an interpreter on the first line nor that of an encoding on the first two. -/
def isCommentLine (number : Nat) (stripped : List Char) : Bool :=
  match stripped with
  | '#' :: rest =>
      !(number = 1 && rest.head? = some '!') && !(number ≤ 2 && hasEncoding rest)
  | _ => false

/-- Whether a line, without the white space around it, names an interpreter. -/
def namesInterpreter (stripped : List Char) : Bool := "#!".toList.isPrefixOf stripped

namespace RunTo

variable {isLine : Nat → List Char → Bool} {source : List (List Char)} {n : Nat}
  {ls : List Line} {raw : List Char}

/-! ### One line more -/

theorem top : RunTo isLine source 0 [] where
  within := Nat.le_refl 0
  numbers := rfl
  lines := by simp
  longest := by simp

theorem cut (h : source[n]? = some raw) (none : isLine (n + 1) (Text.trim raw) = false) :
    RunTo isLine source (n + 1) [] where
  within := Nat.zero_le _
  numbers := rfl
  lines := by simp
  longest := fun _ => ⟨raw, h, none⟩

/-- A run goes on with the line below it. -/
theorem extend (run : RunTo isLine source n ls) (h : source[n]? = some raw)
    (line : isLine (n + 1) (Text.trim raw) = true) :
    RunTo isLine source (n + 1) (ls ++ [⟨lineText (Text.trim raw), n + 1⟩]) where
  within := by
    rw [List.length_append]
    exact Nat.succ_le_succ run.within
  numbers := by
    have shift : n + 1 + 1 - (ls.length + 1) = n + 1 - ls.length := by omega
    have last : n + 1 - ls.length + ls.length = n + 1 :=
      Nat.sub_add_cancel (Nat.le_succ_of_le run.within)
    rw [List.map_append, run.numbers, List.length_append, List.length_singleton, shift,
      List.range'_1_concat, last]
    rfl
  lines := by
    intro l hl
    rcases List.mem_append.mp hl with hl | hl
    · exact run.lines l hl
    · rw [List.mem_singleton.mp hl]
      exact ⟨raw, h, line, rfl⟩
  longest := by
    intro short
    rw [List.length_append, List.length_singleton] at short ⊢
    rw [Nat.add_sub_add_right]
    exact run.longest (Nat.lt_of_succ_lt_succ short)

/-! ### The lines of a run -/

section

variable (run : RunTo isLine source n ls)
include run

theorem mem_number {k : Nat} (low : n < k + ls.length) (high : k ≤ n) :
    ∃ l ∈ ls, l.number = k := by
  have within := run.within
  have mem : k ∈ ls.map Line.number := by
    rw [run.numbers, List.mem_range'_1]
    omega
  exact List.mem_map.mp mem

theorem number_bounds {l : Line} (hl : l ∈ ls) : 1 ≤ l.number ∧ l.number ≤ n := by
  have within := run.within
  have mem : l.number ∈ ls.map Line.number := List.mem_map_of_mem hl
  rw [run.numbers, List.mem_range'_1] at mem
  omega

/-- A line of a run is told by its number. -/
theorem eq_map : ls = (List.range' (n + 1 - ls.length) ls.length).map fun k =>
    ⟨lineText (Text.trim (source.getD (k - 1) [])), k⟩ := by
  rw [← run.numbers, List.map_map]
  refine (List.map_id ls).symm.trans (List.map_congr_left fun l hl => ?_)
  obtain ⟨raw, hraw, _, text⟩ := run.lines l hl
  rw [Function.comp, List.getD_eq_getElem?_getD, hraw, Option.getD_some, ← text]
  rfl

/-- No run above a line is longer than the longest. -/
theorem length_le {ls' : List Line} (run' : RunTo isLine source n ls') :
    ls'.length ≤ ls.length := by
  by_contra longer
  have within := run'.within
  obtain ⟨raw, hraw, none⟩ := run.longest (by omega)
  obtain ⟨l, hl, number⟩ :=
    run'.mem_number (k := n - ls.length) (by omega) (by omega)
  obtain ⟨raw', hraw', line, _⟩ := run'.lines l hl
  rw [number] at hraw' line
  cases hraw.symm.trans hraw'
  rw [none] at line
  cases line

end

/-- **A source has one run above a line.** -/
theorem unique {ls' : List Line} (run : RunTo isLine source n ls)
    (run' : RunTo isLine source n ls') : ls = ls' := by
  have same : ls.length = ls'.length := Nat.le_antisymm (run'.length_le run) (run.length_le run')
  rw [run.eq_map, run'.eq_map, same]

/-- A run stays one where the lines up to its end are the same and count alike. -/
theorem congr {isLine' : Nat → List Char → Bool} {source' : List (List Char)}
    (run : RunTo isLine source n ls) (same : source.take n = source'.take n)
    (alike : ∀ k raw, k < n → source'[k]? = some raw →
      isLine (k + 1) (Text.trim raw) = isLine' (k + 1) (Text.trim raw)) :
    RunTo isLine' source' n ls := by
  -- a line above is one text in both sources
  have moved : ∀ k raw, k < n → source[k]? = some raw → source'[k]? = some raw := by
    intro k raw hk hraw
    rwa [← List.getElem?_take_of_lt hk, ← same, List.getElem?_take_of_lt hk]
  refine ⟨run.within, run.numbers, ?_, ?_⟩
  · intro l hl
    obtain ⟨raw, hraw, line, text⟩ := run.lines l hl
    obtain ⟨low, high⟩ := run.number_bounds hl
    have hraw' := moved _ raw (by omega) hraw
    have count := alike _ raw (by omega) hraw'
    rw [Nat.sub_add_cancel low] at count
    exact ⟨raw, hraw', count ▸ line, text⟩
  · intro short
    obtain ⟨raw, hraw, none⟩ := run.longest short
    have hraw' := moved _ raw (by omega) hraw
    have count := alike _ raw (by omega) hraw'
    rw [Nat.sub_add_cancel (by omega)] at count
    exact ⟨raw, hraw', count ▸ none⟩

end RunTo

/-! ### The lines above a line -/

variable {source : List (List Char)} {n : Nat}

/-- The run that is read upwards from a line is the longest above it. -/
theorem leadingRun_take (h : n ≤ source.length) :
    RunTo isBlockLine source n (leadingRun ((source.take n).zipIdx 1).reverse).reverse := by
  induction n with
  | zero => exact RunTo.top
  | succ n ih =>
      have inside : n < source.length := h
      have here : source[n]? = some source[n] := List.getElem?_eq_getElem inside
      have length : (source.take n).length = n := List.length_take_of_le (Nat.le_of_lt inside)
      -- the lowest line comes first, and decides alone whether there is a run
      rw [List.take_succ_eq_append_getElem inside, List.zipIdx_append, List.reverse_append, length,
        List.zipIdx_singleton, List.reverse_singleton, List.singleton_append, leadingRun,
        Nat.add_comm 1 n, lineOf?]
      by_cases line : isBlockLine (n + 1) (Text.trim source[n])
      · simp only [if_pos line, List.reverse_cons]
        exact (ih (Nat.le_of_lt inside)).extend here line
      · simp only [if_neg line, List.reverse_nil]
        exact RunTo.cut here (Bool.eq_false_iff.mpr line)

/-- **The lines above a line of a source are the run that ends there**, and above the line
after its last. -/
theorem linesAbove?_run {line : Nat} (h : line ≤ 1 + source.length) :
    ∃ ls, linesAbove? source line = some ls ∧ RunTo isBlockLine source (line - 1) ls := by
  have inside : line - 1 ≤ source.length := by omega
  have count : ((line : Int) - 1).toNat = line - 1 := by omega
  refine ⟨_, ?_, leadingRun_take inside⟩
  unfold linesAbove?
  rw [count, if_neg (Nat.not_lt.mpr inside)]

/-- Only the name of an interpreter below the first line ends a run that goes on by
`isCommentLine`. -/
theorem isBlockLine_eq {number : Nat} {stripped : List Char}
    (h : 2 ≤ number → namesInterpreter stripped = false) (one : 1 ≤ number) :
    isBlockLine number stripped = isCommentLine number stripped := by
  unfold isBlockLine isCommentLine
  split
  · rename_i rest
    -- on the first line the two agree on their own; below, nothing names an interpreter
    by_cases first : number = 1
    · simp [first]
    · cases h (by omega)
  · rename_i rest other
    have plain : rest.head? ≠ some '!' := by
      intro head
      obtain ⟨tail, rfl⟩ := List.head?_eq_some_iff.mp head
      exact other tail rfl
    simp [plain]
  · rename_i other
    split
    · exact (other _ rfl).elim
    · rfl

end Docsig.Comment
