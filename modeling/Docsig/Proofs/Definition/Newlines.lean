import Docsig.Proofs.Code.BlankLine
import Docsig.Proofs.Definition.CommentBlock

/-!
Definitions under the conventions for line ends.

A definition is read from the statements of its source and from the lines above its entry
function, and both are the same whether lines end with line feeds or with carriage returns. With
a pair of both at the end of every line the lines are the same, and so are the statements,
unless a pair ends the source: that counts for two line ends (`sourceText_withPairs`). The
blank line that is read then matters to no source that has statements (`readSource_feed`), but
a fault that shows at the end of a source moves to it, and a backslash before it is no fault
any more: `pair_not_alike`.
-/

namespace Docsig.Code

open Text (withReturns withPairs)

variable {cs : List Char} {ss : List Statement}

/-! ### The text that tokens are read from -/

theorem sourceText_noPair (h : ¬ ['\r', '\n'] <:+ cs) :
    sourceText cs = endLastLine (Text.unifyNewlines cs) := by
  rw [sourceText, if_neg (by rwa [List.isSuffixOf_iff_suffix])]

theorem sourceText_plain (plain : '\r' ∉ cs) : sourceText cs = endLastLine cs := by
  rw [sourceText_noPair, Text.unifyNewlines_plain plain]
  exact fun pair => plain (pair.subset List.mem_cons_self)

theorem sourceText_withReturns (plain : '\r' ∉ cs) :
    sourceText (withReturns cs) = endLastLine cs := by
  rw [sourceText_noPair, Text.unifyNewlines_withReturns plain]
  exact fun pair => Text.feed_not_mem_withReturns
    (pair.subset (List.mem_cons_of_mem _ List.mem_cons_self))

/-- **A pair at the end of a source counts for two line ends**, and for one elsewhere. -/
theorem sourceText_withPairs (plain : '\r' ∉ cs) :
    sourceText (withPairs cs) =
      if cs.getLast? = some '\n' then cs ++ ['\n'] else endLastLine cs := by
  split
  · rename_i last
    have pair : ['\r', '\n'] <:+ withPairs cs := by
      obtain ⟨ds, rfl⟩ := List.getLast?_eq_some_iff.mp last
      rw [Text.withPairs_append]
      exact List.suffix_append _ _
    rw [sourceText, if_pos (by rwa [List.isSuffixOf_iff_suffix]),
      Text.unifyNewlines_withPairs plain, endLastLine, if_pos last]
  · rename_i last
    have noPair : ¬ ['\r', '\n'] <:+ withPairs cs := by
      intro pair
      obtain rfl | ⟨ds, c, rfl⟩ := List.eq_nil_or_concat' cs
      · cases List.suffix_nil.mp pair
      rw [List.getLast?_concat, Option.some.injEq] at last
      -- the last character would be a line feed, and the one in the text is another
      obtain ⟨front, eq⟩ := pair
      rw [Text.withPairs_append, Text.withPairs_cons last] at eq
      have ends := congrArg List.getLast? eq
      rw [List.getLast?_append_of_ne_nil _ (List.cons_ne_nil _ _),
        List.getLast?_append_of_ne_nil _ (List.cons_ne_nil _ _)] at ends
      exact last (Option.some.inj ends.symm)
    rw [sourceText_noPair noPair, Text.unifyNewlines_withPairs plain]

/-! ### Statements -/

/-- A file is read alike with returns for line ends. -/
theorem file_withReturns (plain : '\r' ∉ cs) : file (withReturns cs) = file cs := by
  rw [file, file, sourceText_withReturns plain, sourceText_plain plain]

/-- A file that does not end its last line is read alike with pairs for line ends. -/
theorem file_withPairs_open (plain : '\r' ∉ cs) (last : cs.getLast? ≠ some '\n') :
    file (withPairs cs) = file cs := by
  rw [file, file, sourceText_withPairs plain, if_neg last, sourceText_plain plain]

/-- A file that ends its last line is read with pairs for line ends as if one more line end
followed. -/
theorem file_withPairs_closed (plain : '\r' ∉ cs) (last : cs.getLast? = some '\n') :
    file (withPairs cs) = file (cs ++ ['\n']) := by
  have plain' : '\r' ∉ cs ++ ['\n'] := by simp [plain]
  have ended : (cs ++ ['\n']).getLast? = some '\n' := List.getLast?_concat
  rw [file, file, sourceText_withPairs plain, if_pos last, sourceText_plain plain', endLastLine,
    if_pos ended]

/-- A source with statements has them under each convention. -/
theorem file_withPairs_ok (plain : '\r' ∉ cs) (h : file cs = .ok ss) :
    file (withPairs cs) = .ok ss := by
  by_cases last : cs.getLast? = some '\n'
  · have ended : Lexer.Ended cs := fun c hc => Option.some.inj (hc.symm.trans last)
    rw [file, sourceText_plain plain, endLastLine, if_pos last] at h
    rw [file, sourceText_withPairs plain, if_pos last]
    exact readSource_feed ended h
  · rw [file_withPairs_open plain last, h]

end Docsig.Code

namespace Docsig.Definition

open Text (withReturns withPairs)

variable {cs ds : List Char} {ss : List Code.Statement} {f : Code.Function}

/-! ### Definitions -/

/-- A file that holds some characters. -/
def source (cs : List Char) : Contents := .text (String.ofList cs)

/-- A definition depends on the statements of its source and on the comment block above its
entry function. -/
theorem parse_source_congr (charge : Int) (pathname : String) (file : Code.file cs = Code.file ds)
    (block : ∀ ss f, statements cs = .ok ss → entryFunction ss = .ok f →
      commentBlock cs f = commentBlock ds f) :
    parse charge pathname (source cs) = parse charge pathname (source ds) := by
  have decoded (cs : List Char) : (source cs).decode = .ok cs := by
    rw [source, Contents.decode, String.toList_ofList]
  have same : statements cs = statements ds := by rw [statements, statements, file]
  -- the same syntax has the same entry function, and its block is the same
  have parts : readParts pathname (source cs) = readParts pathname (source ds) := by
    unfold readParts
    rw [decoded, decoded, ok_bind, ok_bind, ← same]
    congr 1
    funext
    cases hss : statements cs with
    | error e => rfl
    | ok ss =>
        rw [ok_bind, ok_bind]
        cases hf : entryFunction ss with
        | error e => rfl
        | ok f => rw [ok_bind, ok_bind, block ss f hss hf]
  unfold parse
  rw [parts]

/-- The block above a function depends on the lines of the text alone. -/
theorem commentBlock_congr (same : Text.lines cs = Text.lines ds) (f : Code.Function) :
    commentBlock cs f = commentBlock ds f := by
  rw [commentBlock, commentBlock, same]

/-- Lines further down are not looked at. -/
theorem commentBlock_append {more : List (List Char)}
    (longer : Text.lines ds = Text.lines cs ++ more) (hss : statements cs = .ok ss)
    (hf : entryFunction ss = .ok f) : commentBlock cs f = commentBlock ds f := by
  have inside := firstLine_inside hss hf
  have count : ((firstLine f : Int) - 1).toNat ≤ (Text.lines cs).length := by omega
  have above : Comment.linesAbove? (Text.lines ds) (firstLine f) =
      Comment.linesAbove? (Text.lines cs) (firstLine f) := by
    unfold Comment.linesAbove?
    rw [longer, List.length_append]
    dsimp only
    rw [if_neg (by omega), if_neg (by omega), List.take_append_of_le_length count]
  rw [commentBlock, commentBlock, above]

/-- **The convention for line ends matters to a definition only at the end of its source.**
With carriage returns for line feeds the outcome is the same, whether a definition or a fault.
With pairs it is the same if the last line is not ended, or if the source has statements; and
in any case a pair at the end reads as two line feeds. -/
theorem parse_newlines (charge : Int) (pathname : String) (plain : '\r' ∉ cs) :
    parse charge pathname (source (withReturns cs)) = parse charge pathname (source cs) ∧
    (cs.getLast? ≠ some '\n' →
      parse charge pathname (source (withPairs cs)) = parse charge pathname (source cs)) ∧
    (cs.getLast? = some '\n' →
      parse charge pathname (source (withPairs cs)) =
        parse charge pathname (source (cs ++ ['\n']))) ∧
    (∀ ss, statements cs = .ok ss →
      parse charge pathname (source (withPairs cs)) = parse charge pathname (source cs)) := by
  have pairs := Text.lines_withPairs plain
  refine ⟨?_, fun last => ?_, fun last => ?_, fun ss hss => ?_⟩
  · exact parse_source_congr charge pathname (Code.file_withReturns plain)
      fun _ f _ _ => commentBlock_congr (Text.lines_withReturns plain) f
  · exact parse_source_congr charge pathname (Code.file_withPairs_open plain last)
      fun _ f _ _ => commentBlock_congr pairs f
  -- the pair at the end leaves an empty line behind, which is above no function
  · have longer : Text.lines (cs ++ ['\n']) = Text.lines (withPairs cs) ++ [[]] := by
      obtain ⟨ds, rfl⟩ := List.getLast?_eq_some_iff.mp last
      rw [pairs, Text.lines_append_feed]
      exact fun mem => plain (List.mem_append_left _ mem)
    exact parse_source_congr charge pathname (Code.file_withPairs_closed plain last)
      fun _ f hss hf => commentBlock_append longer hss hf
  · have read := statements_eq_ok.mp hss
    exact parse_source_congr charge pathname ((Code.file_withPairs_ok plain read).trans read.symm)
      fun _ f _ _ => commentBlock_congr pairs f

/-- A source whose initial value runs over two lines. -/
def verse : List Char :=
  "# Says it.\n# @param \x7bstring\x7d words what to say\ndef say(words='''one\ntwo'''): pass\n".toList

theorem parse_newlines_verse : '\r' ∉ verse ∧ verse.getLast? = some '\n' ∧
    ∃ d, parse 1 "say.py" (source verse) = .ok d ∧
      parse 1 "say.py" (source (withReturns verse)) = .ok d ∧
      parse 1 "say.py" (source (withPairs verse)) = .ok d := by
  have plain : '\r' ∉ verse := by decide +kernel
  have last : verse.getLast? = some '\n' := by decide +kernel
  obtain ⟨ss, hss⟩ := @exists_of_isOk _ _ (statements verse) (by decide +kernel)
  obtain ⟨d, hd⟩ := @exists_of_isOk _ _ (parse 1 "say.py" (source verse)) (by decide +kernel)
  obtain ⟨returns, -, -, pairs⟩ := parse_newlines 1 "say.py" plain
  exact ⟨plain, last, d, hd, returns.trans hd, (pairs ss hss).trans hd⟩

/-! ### Two sources -/

/-- The line of a fault, if there is one. -/
def faultLine? : Except Fault Definition → Option Nat
  | .ok _ => none
  | .error f => f.line?

/-- A source that ends where a block has to stand. -/
def unfinished : List Char := "def f():\n".toList

/-- A source that ends after a backslash. -/
def joined : List Char := "def f(): pass\\\n".toList

/-- With pairs the fault of the one source moves to a line below the source, and the other has
a definition. -/
theorem pair_not_alike :
    faultLine? (parse 1 "f.py" (source unfinished)) = some 1 ∧
    faultLine? (parse 1 "f.py" (source (withPairs unfinished))) = some 2 ∧
    faultLine? (parse 1 "f.py" (source joined)) = some 1 ∧
    (parse 1 "f.py" (source (withPairs joined))).isOk = true := by
  decide +kernel

end Docsig.Definition
