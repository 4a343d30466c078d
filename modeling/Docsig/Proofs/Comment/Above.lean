import Docsig.Proofs.Comment.Line
import Docsig.Proofs.Text.Blank
import Docsig.Proofs.Text.Word

/-!
The comment lines above a line, told by the lines of the source.

`RunTo` leaves open which lines count, and looks at lines without the white space around them.
Here the lines of the source are described as they stand: `IsComment` says of a line that it is
a comment and none of the lines that are written for others, those that name an interpreter or,
at the top of a file, an encoding. What names an encoding is a form of text
(`NamesEncoding`), not the scanner that looks for it (`hasEncoding_iff`).

* `isBlockLine_iff`: the lines that belong to a block are these.
* `linesAbove?_above`: above a line that is at most one below the last, the lines of the block
  are the longest run of them, with their own numbers.
-/

namespace Docsig.Comment

variable {cs stripped raw rest : List Char} {number n : Nat} {c : Char}

/-! ### Encodings -/

/-- A text with the name of an encoding in it: the word, a colon or an equals sign, spaces and
tabs, and a first character of the name. -/
def NamesEncoding (cs : List Char) : Prop :=
  ∃ before mark gap c after, cs = before ++ ("coding".toList ++ mark :: (gap ++ c :: after)) ∧
    (mark = ':' ∨ mark = '=') ∧ (∀ b ∈ gap, b = ' ' ∨ b = '\t') ∧
    (c = '-' ∨ c = '.' ∨ Text.isWord c = true)

/-- No character of a name is white space. -/
theorem isBlank_name (h : c = '-' ∨ c = '.' ∨ Text.isWord c = true) : Text.isBlank c = false := by
  rcases h with rfl | rfl | word
  · rfl
  · rfl
  · exact Text.isBlank_of_isWord word

/-- Whether a character may stand between the mark and the name. -/
def isGap (c : Char) : Bool := c = ' ' || c = '\t'

theorem isGap_iff : isGap c = true ↔ c = ' ' ∨ c = '\t' := by simp [isGap]

theorem isGap_name (h : c = '-' ∨ c = '.' ∨ Text.isWord c = true) : isGap c = false := by
  by_contra gap
  rw [Bool.not_eq_false, isGap_iff] at gap
  have blank := isBlank_name h
  rcases gap with rfl | rfl <;> cases blank

/-- An encoding is named by the word, a mark, spaces or tabs, and the first character of a name.
-/
theorem namesEncoding_iff : namesEncoding cs = true ↔
    ∃ mark gap c after, cs = "coding".toList ++ mark :: (gap ++ c :: after) ∧
      (mark = ':' ∨ mark = '=') ∧ (∀ b ∈ gap, b = ' ' ∨ b = '\t') ∧
      (c = '-' ∨ c = '.' ∨ Text.isWord c = true) := by
  constructor
  · intro h
    rw [namesEncoding, Bool.and_eq_true, List.isPrefixOf_iff_prefix] at h
    obtain ⟨⟨tail, rfl⟩, h⟩ := h
    cases tail with
    | nil => cases h
    | cons mark tail =>
        have h : ((mark = ':' || mark = '=') && (tail.dropWhile isGap).head?.any fun c =>
            c = '-' || c = '.' || Text.isWord c) = true := h
        rw [Bool.and_eq_true, Option.any_eq_true] at h
        obtain ⟨isMark, c, first, name⟩ := h
        obtain ⟨after, rest⟩ := List.head?_eq_some_iff.mp first
        obtain ⟨cut, gap, -⟩ := span_cut isGap tail
        refine ⟨mark, tail.takeWhile isGap, c, after, ?_, by simpa using isMark, ?_, ?_⟩
        · rw [← rest, ← cut]
        · exact fun b hb => isGap_iff.mp (gap b hb)
        · simpa [or_assoc] using name
  · rintro ⟨mark, gap, c, after, rfl, isMark, spaces, name⟩
    -- the name does not start with a space or a tab, so that the gap is all of them
    have stop : ∀ x ∈ (c :: after).head?, isGap x = false := by
      rintro x ⟨⟩
      exact isGap_name name
    have skipped : (gap ++ c :: after).dropWhile isGap = c :: after :=
      (span_iff.mpr ⟨rfl, fun b hb => isGap_iff.mpr (spaces b hb), stop⟩).2
    have found : ((mark = ':' || mark = '=') && ((gap ++ c :: after).dropWhile isGap).head?.any
        fun c => c = '-' || c = '.' || Text.isWord c) = true := by
      rw [skipped]
      simpa [or_assoc] using And.intro isMark name
    exact found

/-- **An encoding is named where the form stands.** -/
theorem hasEncoding_iff : hasEncoding cs = true ↔ NamesEncoding cs := by
  induction cs with
  | nil =>
      constructor
      · exact nofun
      · rintro ⟨before, mark, gap, c, after, eq, -⟩
        cases before <;> cases eq
  | cons d cs ih =>
      rw [hasEncoding, Bool.or_eq_true, ih, namesEncoding_iff]
      constructor
      · rintro (⟨mark, gap, c, after, eq, form⟩ | ⟨before, mark, gap, c, after, eq, form⟩)
        · exact ⟨[], mark, gap, c, after, eq, form⟩
        · exact ⟨d :: before, mark, gap, c, after, congrArg (d :: ·) eq, form⟩
      · rintro ⟨before, mark, gap, c, after, eq, form⟩
        cases before with
        | nil => exact .inl ⟨mark, gap, c, after, eq, form⟩
        | cons e before => exact .inr ⟨before, mark, gap, c, after, (List.cons.inj eq).2, form⟩

/-- White space at the end of a line is no part of the form. -/
theorem namesEncoding_trimEnd : NamesEncoding (Text.trimEnd cs) ↔ NamesEncoding cs := by
  constructor
  · rintro ⟨before, mark, gap, c, after, eq, form⟩
    obtain ⟨blank, cut, -⟩ := Text.trimEnd_spec cs
    refine ⟨before, mark, gap, c, after ++ blank, ?_, form⟩
    rw [cut, eq]
    simp only [List.append_assoc, List.cons_append]
  · rintro ⟨before, mark, gap, c, after, rfl, isMark, spaces, name⟩
    refine ⟨before, mark, gap, c, Text.trimEnd after, ?_, isMark, spaces, name⟩
    have cut := Text.trimEnd_append_cons (isBlank_name name)
      (before ++ ("coding".toList ++ mark :: gap)) after
    simpa only [List.append_assoc, List.cons_append] using cut

/-! ### Single lines -/

/-- A line of a source that belongs to a comment block, by what stands behind its number sign:
there is only white space in front of that, no interpreter is named, nor an encoding on one of
the first two lines. -/
structure IsComment (number : Nat) (raw rest : List Char) : Prop where
  marked : Text.trimStart raw = '#' :: rest
  plain : rest.head? ≠ some '!'
  uncoded : number ≤ 2 → ¬ NamesEncoding rest

def afterSpace : List Char → List Char
  | ' ' :: cs => cs
  | cs => cs

/-- What stands behind the first character of a line, without the white space at its end. -/
theorem trim_cons (h : Text.trimStart raw = c :: rest) : Text.trim raw = c :: Text.trimEnd rest := by
  have first : Text.isBlank c = false := by
    obtain ⟨-, -, -, stop⟩ := Text.trimStart_spec raw
    exact stop c (by rw [h]; rfl)
  rw [Text.trim, h]
  exact Text.trimEnd_append_cons first [] rest

theorem head?_of_trimEnd (h : (Text.trimEnd rest).head? = some c) : rest.head? = some c := by
  obtain ⟨blank, cut, -⟩ := Text.trimEnd_spec rest
  obtain ⟨tail, eq⟩ := List.head?_eq_some_iff.mp h
  rw [cut, eq]
  rfl

theorem head?_trimEnd (h : Text.isBlank c = false) :
    (Text.trimEnd rest).head? = some c ↔ rest.head? = some c := by
  constructor
  · exact head?_of_trimEnd
  · intro head
    obtain ⟨tail, rfl⟩ := List.head?_eq_some_iff.mp head
    have cut := Text.trimEnd_append_cons h [] tail
    rw [List.nil_append] at cut
    rw [cut]
    rfl

/-- A line with the mark belongs to the block unless it names an interpreter or an encoding. -/
theorem isBlockLine_cons : isBlockLine number ('#' :: stripped) = true ↔
    stripped.head? ≠ some '!' ∧ (number ≤ 2 → ¬ NamesEncoding stripped) := by
  unfold isBlockLine
  split
  · rename_i eq
    cases eq
    simp
  · rename_i interpreter same
    obtain rfl := (List.cons.inj same).2
    have plain : stripped.head? ≠ some '!' := by
      intro head
      obtain ⟨tail, eq⟩ := List.head?_eq_some_iff.mp head
      exact interpreter tail eq
    rw [← hasEncoding_iff]
    simp [plain, imp_iff_not_or]
  · rename_i other
    exact (other stripped rfl).elim

/-- **The lines of a comment block.** -/
theorem isBlockLine_iff :
    isBlockLine number (Text.trim raw) = true ↔ ∃ rest, IsComment number raw rest := by
  constructor
  · intro h
    cases start : Text.trimStart raw with
    | nil =>
        rw [Text.trim, start] at h
        cases h
    | cons c rest =>
        rw [trim_cons start] at h
        -- a line of the block starts with its mark
        have mark : c = '#' := by
          by_contra other
          unfold isBlockLine at h
          split at h
          · cases h
          · rename_i eq
            exact other (List.cons.inj eq).1
          · cases h
        subst mark
        rw [isBlockLine_cons, Ne, head?_trimEnd (by decide), namesEncoding_trimEnd] at h
        exact ⟨rest, start, h.1, h.2⟩
  · rintro ⟨rest, start, plain, uncoded⟩
    rw [trim_cons start, isBlockLine_cons, Ne, head?_trimEnd (by decide), namesEncoding_trimEnd]
    exact ⟨plain, uncoded⟩

theorem afterSpace_of_ne (h : cs.head? ≠ some ' ') : afterSpace cs = cs := by
  unfold afterSpace
  split
  · exact absurd rfl h
  · rfl

/-- White space at the end is taken off alike before the one space at the start and after. -/
theorem trimEnd_afterSpace (cs : List Char) :
    Text.trimEnd (afterSpace (Text.trimEnd cs)) = Text.trimEnd (afterSpace cs) := by
  by_cases space : cs.head? = some ' '
  · obtain ⟨tail, rfl⟩ := List.head?_eq_some_iff.mp space
    obtain ⟨after, cut, blank, last⟩ := Text.trimEnd_spec tail
    by_cases empty : Text.trimEnd tail = []
    · -- nothing but white space follows, and the one space goes with it
      rw [empty, List.nil_append] at cut
      have all : Text.isBlankText (' ' :: tail) = true := by
        rw [cut, Text.isBlankText, List.all_cons]
        exact blank
      have none := @Text.trimEnd_append (' ' :: tail) [] all (by simp)
      rw [List.nil_append] at none
      rw [none, afterSpace, empty]
      rfl
    · have stop : ∀ x ∈ (' ' :: Text.trimEnd tail).getLast?, Text.isBlank x = false := by
        rwa [List.getLast?_cons_of_ne_nil empty]
      have kept := Text.trimEnd_append blank stop
      rw [List.cons_append, ← cut] at kept
      rw [kept, afterSpace, afterSpace, Text.trimEnd_trimEnd]
  · rw [afterSpace_of_ne space, afterSpace_of_ne fun head => space (head?_of_trimEnd head),
      Text.trimEnd_trimEnd]

/-- **The text of a comment line** is what stands behind the number sign and one space, without
the white space at its end. -/
theorem lineText_trim (h : Text.trimStart raw = '#' :: rest) :
    lineText (Text.trim raw) = Text.trimEnd (afterSpace rest) := by
  rw [trim_cons h, ← trimEnd_afterSpace]
  rfl

/-! ### Runs of lines -/

/-- The longest run of comment lines of a source that ends with line `n`: their numbers follow
one another, and the line above them is no comment. -/
structure Above (source : List (List Char)) (n : Nat) (ls : List Line) : Prop where
  within : ls.length ≤ n
  numbers : ls.map Line.number = List.range' (n + 1 - ls.length) ls.length
  comments : ∀ l ∈ ls, ∃ raw rest, source[l.number - 1]? = some raw ∧
    IsComment l.number raw rest ∧ l.text = Text.trimEnd (afterSpace rest)
  longest : ls.length < n → ∃ raw, source[n - ls.length - 1]? = some raw ∧
    ∀ rest, ¬ IsComment (n - ls.length) raw rest

variable {source : List (List Char)} {ls : List Line}

/-- The lines above are the longest run of comment lines, in either wording. -/
theorem above_iff : Above source n ls ↔ RunTo isBlockLine source n ls := by
  constructor
  · intro above
    refine ⟨above.within, above.numbers, ?_, ?_⟩
    · intro l hl
      obtain ⟨raw, rest, here, comment, text⟩ := above.comments l hl
      exact ⟨raw, here, isBlockLine_iff.mpr ⟨rest, comment⟩,
        text.trans (lineText_trim comment.marked).symm⟩
    · intro short
      obtain ⟨raw, here, none⟩ := above.longest short
      refine ⟨raw, here, Bool.eq_false_iff.mpr fun isLine => ?_⟩
      obtain ⟨rest, comment⟩ := isBlockLine_iff.mp isLine
      exact none rest comment
  · intro run
    refine ⟨run.within, run.numbers, ?_, ?_⟩
    · intro l hl
      obtain ⟨raw, here, isLine, text⟩ := run.lines l hl
      obtain ⟨rest, comment⟩ := isBlockLine_iff.mp isLine
      exact ⟨raw, rest, here, comment, text.trans (lineText_trim comment.marked)⟩
    · intro short
      obtain ⟨raw, here, none⟩ := run.longest short
      refine ⟨raw, here, fun rest comment => ?_⟩
      rw [isBlockLine_iff.mpr ⟨rest, comment⟩] at none
      cases none

/-- **The lines above a line** that is at most one below the last are found, and they are the one
run that ends there. -/
theorem linesAbove?_above {line : Int} (h : line ≤ 1 + source.length) :
    ∃ ls, linesAbove? source line = some ls ∧
      ∀ run, Above source (line - 1).toNat run ↔ run = ls := by
  have inside : (line - 1).toNat ≤ source.length := by omega
  have found := leadingRun_take inside
  refine ⟨_, ?_, fun run => ⟨fun other => (above_iff.mp other).unique found, ?_⟩⟩
  · unfold linesAbove?
    rw [if_neg (Nat.not_lt.mpr inside)]
  · rintro rfl
    exact above_iff.mpr found

end Docsig.Comment
