import Docsig.Proofs.Code.Lexer
import Docsig.Proofs.Code.Parser
import Docsig.Proofs.Text.Line
import Docsig.Proofs.Text.Newline

/-!
The lines of a source, in two conventions.

`sourceLines` are the lines that tokens are numbered by: each ends with a line feed, a
carriage return, or the pair of both. `Text.lines` breaks at more characters, and as far as
none of those occurs the lines are the same (`take_lines`). A function starts on a line that
one of the three ends, or on the last (`file_define_line`).

A null character is the one thing that a source is refused for before it is read
(`file_eq_null`).
-/

namespace Docsig.Code

/-- The lines of a text; the last one need not be ended. -/
def feedLines : List Char → List (List Char)
  | [] => []
  | c :: cs =>
      if c = '\n' then [] :: feedLines cs
      else
        match feedLines cs with
        | [] => [[c]]
        | line :: lines => (c :: line) :: lines

/-- The lines of a source, by which its tokens are numbered. -/
def sourceLines (cs : List Char) : List (List Char) := feedLines (Text.unifyNewlines cs)

variable {cs ds line : List Char} {n : Nat}

/-! ### Single lines -/

theorem feedLines_append (plain : '\n' ∉ line) (cs : List Char) :
    feedLines (line ++ '\n' :: cs) = line :: feedLines cs := by
  induction line with
  | nil => rfl
  | cons c line ih =>
      rw [List.mem_cons, not_or] at plain
      rw [List.cons_append, feedLines, if_neg (Ne.symm plain.1), ih plain.2]

theorem feedLines_plain (plain : '\n' ∉ line) (filled : line ≠ []) : feedLines line = [line] := by
  induction line with
  | nil => contradiction
  | cons c line ih =>
      rw [List.mem_cons, not_or] at plain
      rw [feedLines, if_neg (Ne.symm plain.1)]
      cases line with
      | nil => rfl
      | cons d line => rw [ih plain.2 (by simp)]

/-- The first line of a text without a line feed at its start. -/
theorem feedLines_cons {c : Char} (h : c ≠ '\n') :
    ∃ line, feedLines (c :: cs) = (c :: line) :: (feedLines cs).tail := by
  rw [feedLines, if_neg h]
  cases feedLines cs with
  | nil => exact ⟨[], rfl⟩
  | cons line lines => exact ⟨line, rfl⟩

/-- What stands in front of a character belongs to its line. -/
theorem feedLines_append_cons (plain : '\n' ∉ line) {c : Char} (h : c ≠ '\n') (cs : List Char) :
    ∃ more, feedLines (line ++ c :: cs) = (line ++ c :: more) :: (feedLines cs).tail := by
  induction line with
  | nil => exact feedLines_cons h
  | cons d line ih =>
      rw [List.mem_cons, not_or] at plain
      obtain ⟨more, eq⟩ := ih plain.2
      rw [List.cons_append, feedLines, if_neg (Ne.symm plain.1), eq]
      exact ⟨more, rfl⟩

/-! ### The two conventions -/

/-- A line that no other character breaks. -/
def Unbroken (line : List Char) : Prop := ∀ c ∈ line, Text.isLineBreak c = false

instance : DecidablePred Unbroken := fun line =>
  decidable_of_iff (line.all fun c => Text.isLineBreak c = false) (by simp [Unbroken])

theorem Unbroken.no_feed (h : Unbroken line) : '\n' ∉ line := fun mem => by
  cases h '\n' mem

theorem Unbroken.reverse (h : Unbroken line) : Unbroken line.reverse :=
  fun c hc => h c (List.mem_reverse.mp hc)

section LinesFrom

/-- A character that breaks no line is kept as it is. -/
theorem append_unifyNewlines_cons {c : Char} (pair : ∀ ds, c = '\r' → cs = '\n' :: ds → False)
    (plain : Text.isLineBreak c = false) :
    line.reverse ++ Text.unifyNewlines (c :: cs) =
      (c :: line).reverse ++ Text.unifyNewlines cs := by
  have other : c ≠ '\r' := by
    rintro rfl
    cases plain
  rw [Text.unifyNewlines_cons pair, if_neg other, List.reverse_cons, List.append_assoc]
  rfl

/-- The two conventions cut the same first lines as long as these hold no other line break. -/
theorem linesFrom_take :
    ∀ {line cs} {n : Nat}, Unbroken line →
      (∀ l ∈ (feedLines (line.reverse ++ Text.unifyNewlines cs)).take n, Unbroken l) →
        (Text.linesFrom line cs).take n =
          (feedLines (line.reverse ++ Text.unifyNewlines cs)).take n := by
  intro line cs
  -- by the recursion of the cut: the line so far holds no break, which carries over to the line
  -- that goes on
  fun_induction Text.linesFrom line cs with
  | case1 line empty =>
      intro n _ _
      rw [List.isEmpty_iff.mp empty]
      rfl
  | case2 line filled =>
      intro n plain _
      rw [Text.unifyNewlines, List.append_nil,
        feedLines_plain plain.reverse.no_feed (by simpa using filled)]
  | case3 line cs ih =>
      intro n plain above
      rw [Text.unifyNewlines, feedLines_append plain.reverse.no_feed] at above ⊢
      cases n with
      | zero => rfl
      | succ n =>
          rw [List.take_succ_cons] at above ⊢
          rw [List.take_succ_cons, ih (by simp [Unbroken]) fun l hl =>
            above l (List.mem_cons_of_mem _ hl)]
          rfl
  | case4 line c cs pair broken ih =>
      intro n plain above
      cases n with
      | zero => rfl
      | succ n =>
          rw [Text.unifyNewlines_cons pair] at above ⊢
          by_cases feed : (if c = '\r' then '\n' else c) = '\n'
          · rw [feed, feedLines_append plain.reverse.no_feed, List.take_succ_cons] at above ⊢
            rw [List.take_succ_cons, ih (by simp [Unbroken]) fun l hl =>
              above l (List.mem_cons_of_mem _ hl)]
            rfl
          · -- a break of another kind stands in the first line
            obtain ⟨more, eq⟩ :=
              feedLines_append_cons plain.reverse.no_feed feed (Text.unifyNewlines cs)
            have first := above (line.reverse ++ _ :: more) (by rw [eq]; exact List.mem_cons_self)
            have other : c ≠ '\r' := fun back => feed (if_pos back)
            rw [if_neg other] at first
            rw [first c (by simp)] at broken
            cases broken
  | case5 line c cs pair unbroken ih =>
      intro n plain above
      rw [Bool.not_eq_true] at unbroken
      rw [append_unifyNewlines_cons pair unbroken] at above ⊢
      exact ih (List.forall_mem_cons.mpr ⟨unbroken, plain⟩) above

end LinesFrom

/-! ### Whole sources -/

/-- **The conventions agree as far as no other character breaks a line.** -/
theorem take_lines (h : ∀ l ∈ (sourceLines cs).take n, Unbroken l) :
    (Text.lines cs).take n = (sourceLines cs).take n :=
  @linesFrom_take [] cs n (by simp [Unbroken]) h

theorem count_endLastLine_le (cs : List Char) : (endLastLine cs).count '\n' ≤ 1 + cs.count '\n' := by
  unfold endLastLine
  split
  · exact Nat.le_add_left _ _
  · rw [List.count_append, List.count_singleton_self]
    omega

theorem endLastLine_ended (cs : List Char) : Lexer.Ended (endLastLine cs) := by
  unfold endLastLine
  split
  · rename_i last
    exact fun c hc => Option.some.inj (hc.symm.trans last)
  · exact fun c hc => by simpa using hc.symm

/-- The text that is read ends its last line. -/
theorem sourceText_ended (cs : List Char) : Lexer.Ended (sourceText cs) := by
  unfold sourceText
  split
  · exact fun c hc => by simpa using hc.symm
  · exact endLastLine_ended _

/-- **The line feeds that a source is read with**: one for each line that it ends, and at most one
more at its end. -/
theorem count_sourceText_le (cs : List Char) :
    (sourceText cs).count '\n' ≤ 1 + Text.lineEnds cs := by
  rw [← Text.count_unifyNewlines]
  unfold sourceText
  dsimp only
  split
  · rename_i pair
    obtain ⟨ds, rfl⟩ := List.isSuffixOf_iff_suffix.mp pair
    -- the pair ends the last line, and nothing else is added but the one line feed
    have last : Text.unifyNewlines (ds ++ ['\r', '\n']) = Text.unifyNewlines ds ++ ['\n'] :=
      Text.unifyNewlines_append_return ds ['\n']
    rw [last, endLastLine, if_pos (by rw [List.getLast?_concat]), List.count_append,
      List.count_singleton_self]
    omega
  · exact count_endLastLine_le _

/-! ### Null characters -/

open Docsig.Text (HasNull hasNull_append_feed hasNull_unifyNewlines)

/-- A source is refused for a null character exactly if it holds one. -/
theorem readSource_eq_null {α : Type} {p : Parser.Rules → Nat → Parser.Reader α} :
    readSource cs p = .error .nullCharacter ↔ HasNull cs := by
  unfold readSource
  by_cases null : HasNull cs
  · rw [if_pos null]
    exact iff_of_true rfl null
  · rw [if_neg null, iff_false_right null]
    unfold readTokens
    dsimp only
    split <;> exact nofun

theorem hasNull_endLastLine : HasNull (endLastLine cs) ↔ HasNull cs := by
  unfold endLastLine
  split
  · rfl
  · exact hasNull_append_feed

theorem hasNull_sourceText : HasNull (sourceText cs) ↔ HasNull cs := by
  unfold sourceText
  split
  · exact hasNull_append_feed.trans (hasNull_endLastLine.trans hasNull_unifyNewlines)
  · exact hasNull_endLastLine.trans hasNull_unifyNewlines

/-- A source is refused for a null character if it holds one. -/
theorem file_eq_null : file cs = .error .nullCharacter ↔ HasNull cs :=
  readSource_eq_null.trans hasNull_sourceText

theorem expression_eq_null : expression cs = .error .nullCharacter ↔ HasNull cs :=
  readSource_eq_null.trans hasNull_unifyNewlines

/-! ### Functions -/

variable {ss : List Statement} {f : Function}

/-- **A function at the top of a source starts on a line that the source ends**, or on the one
below. -/
theorem file_define_line (h : file cs = .ok ss) (mem : .define f ∈ ss) :
    f.place.line ≤ 1 + Text.lineEnds cs := by
  obtain ⟨tok, rest, left, opened⟩ := file_define h mem
  obtain ⟨own, mem, word⟩ := opened.own_mem
  have line := Lexer.tokens_line (sourceText_ended cs) (left.subset mem) word.sound
  rw [← word.here]
  exact Nat.le_trans line (count_sourceText_le cs)

/-- **Parameters have identifiers as names.** -/
theorem file_params_isIdentifier (h : file cs = .ok ss) (mem : .define f ∈ ss) :
    ∀ p ∈ f.params, Text.isIdentifier p.name.toList = true := by
  intro p hp
  obtain ⟨tok, read, word⟩ := file_params h mem p hp
  exact Lexer.tokens_word (sourceText_ended cs) read word

end Docsig.Code
