import Docsig.Definition.Parse
import Docsig.Proofs.Code.Source
import Docsig.Proofs.Comment.Above

/-!
Where the comment block of a definition stands.

The block is looked for by the number of the line that the entry function starts on.
`commentBlock_run` says which lines are found: a run of comment lines of the text, in the
lines of `Text.lines`, above the first line of the function and its decorators. It is the
run above the token that the function starts with, in the lines that tokens are numbered
by, as far as the two ways to count lines agree; `formFeed_not_aboveStart` is a source in
which they do not. That the number never leads outside of the lines, and which run is found
above any line, is `linesAbove?_found`.
-/

namespace Docsig.Definition

open Code.Parser.Compound (OpenedBy)
open Comment (RunTo)

variable {cs : List Char} {ss : List Code.Statement} {f : Code.Function}

/-! ### The entry function -/

theorem statements_eq_ok : statements cs = .ok ss ↔ Code.file cs = .ok ss := by
  unfold statements
  split <;> simp_all

/-- The entry function is defined at the top of the file. -/
theorem entryFunction_mem (h : entryFunction ss = .ok f) : .define f ∈ ss := by
  unfold entryFunction at h
  split at h
  · rename_i g last
    cases h
    obtain ⟨s, hs, eq⟩ := List.mem_filterMap.mp (List.mem_of_getLast? last)
    cases s <;> cases eq
    exact hs
  · cases h

/-- Decorators do not stand below their function. -/
theorem firstLine_le (f : Code.Function) : firstLine f ≤ f.place.line := by
  have falls : ∀ (es : List Code.Expr) (line : Nat),
      es.foldl (fun line e => min line e.place.line) line ≤ line := by
    intro es
    induction es with
    | nil => exact fun line => Nat.le_refl line
    | cons e es ih =>
        intro line
        exact Nat.le_trans (ih _) (Nat.min_le_left _ _)
  exact falls f.decorators f.place.line

theorem firstLine_plain (h : f.decorators = []) : firstLine f = f.place.line := by
  rw [firstLine, h]
  rfl

/-- The first line of an entry function is one that the source ends, or the one below. -/
theorem firstLine_le_lineEnds (hss : statements cs = .ok ss) (hf : entryFunction ss = .ok f) :
    firstLine f ≤ 1 + Text.lineEnds cs :=
  Nat.le_trans (firstLine_le f)
    (Code.file_define_line (statements_eq_ok.mp hss) (entryFunction_mem hf))

/-- It is a line of the text, or the one below, also where more characters end lines. -/
theorem firstLine_inside (hss : statements cs = .ok ss) (hf : entryFunction ss = .ok f) :
    firstLine f ≤ 1 + (Text.lines cs).length :=
  Nat.le_trans (firstLine_le_lineEnds hss hf)
    (Nat.add_le_add_left (Text.lineEnds_le_lines cs) 1)

theorem exists_entry {α : Type} {g : Code.Function → α} {a : α}
    (h : ((statements cs >>= entryFunction).map g).toOption = some a) :
    ∃ ss f, statements cs = .ok ss ∧ entryFunction ss = .ok f ∧ g f = a := by
  cases hf : statements cs >>= entryFunction with
  | error e =>
      rw [hf] at h
      cases h
  | ok f =>
      rw [hf] at h
      obtain ⟨ss, hss, hf⟩ := bind_eq_ok.mp hf
      exact ⟨ss, f, hss, hf, Option.some.inj h⟩

/-! ### The block -/

/-- **The lines above a line of a text.** They are looked for within the text up to the line below
the last that a line feed, a carriage return or the pair of both ends, also where the text has
more lines than those; the first line of an entry function is never further down. They are the
one longest run of comments that ends directly above, and above the first line there is none. -/
theorem linesAbove?_found (cs : List Char) :
    (∀ line : Int, line ≤ 1 + Text.lineEnds cs → ∃ ls,
      Comment.linesAbove? (Text.lines cs) line = some ls ∧
      (∀ run, Comment.Above (Text.lines cs) (line - 1).toNat run ↔ run = ls) ∧
      (line ≤ 1 → ls = [])) ∧
    ∀ ss f, statements cs = .ok ss → entryFunction ss = .ok f →
      firstLine f ≤ 1 + Text.lineEnds cs := by
  refine ⟨fun line h => ?_, fun ss f hss hf => firstLine_le_lineEnds hss hf⟩
  have fewer := Text.lineEnds_le_lines cs
  have inside : line ≤ 1 + (Text.lines cs).length := by omega
  obtain ⟨ls, found, above⟩ := Comment.linesAbove?_above inside
  refine ⟨ls, found, above, fun top => List.eq_nil_of_length_eq_zero ?_⟩
  have within := ((above ls).mpr rfl).within
  omega

/-- A source with pairs at its line ends and two lines for others above its comment. -/
def script : List Char :=
  ("#!/usr/bin/env python\r\n# coding: utf-8\r\n #  Adds.\r\n\t#@charge 2\t\r\n" ++
    "def add(): pass").toList

theorem linesAbove?_found_script : ∃ ss f, statements script = .ok ss ∧
    entryFunction ss = .ok f ∧ firstLine f ≤ 1 + Text.lineEnds script ∧
    Comment.linesAbove? (Text.lines script) (firstLine f) =
      some [⟨" Adds.".toList, 3⟩, ⟨"@charge 2".toList, 4⟩] ∧
    Comment.Above (Text.lines script) 4 [⟨" Adds.".toList, 3⟩, ⟨"@charge 2".toList, 4⟩] := by
  have read : ((statements script >>= entryFunction).map firstLine).toOption = some 5 := by
    decide +kernel
  have lines : Comment.linesAbove? (Text.lines script) 5 =
      some [⟨" Adds.".toList, 3⟩, ⟨"@charge 2".toList, 4⟩] := by
    decide +kernel
  obtain ⟨ss, f, hss, hf, first⟩ := exists_entry read
  have inside := (linesAbove?_found script).2 ss f hss hf
  obtain ⟨ls, found, above, -⟩ := (linesAbove?_found script).1 (firstLine f) (by omega)
  refine ⟨ss, f, hss, hf, inside, ?_⟩
  rw [first] at found above ⊢
  obtain rfl : _ = ls := Option.some.inj (lines.symm.trans found)
  exact ⟨lines, (above _).mpr rfl⟩

/-- Reads comment lines as a block. -/
def readLines (ls : List Comment.Line) : Except LocalFault Comment.Block :=
  (Comment.readBlock ls).mapError fun e => (Cause.comment e.fault).at e.line

/-- The block of a function is read from the lines above its first line. -/
theorem commentBlock_eq {ls : List Comment.Line}
    (h : Comment.linesAbove? (Text.lines cs) (firstLine f) = some ls) :
    commentBlock cs f = readLines ls := by
  unfold commentBlock readLines
  simp only [h, Option.getD_some]
  cases Comment.readBlock ls <;> rfl

/-- The lines above an entry function are looked for within its text. -/
theorem commentBlock_found (hss : statements cs = .ok ss) (hf : entryFunction ss = .ok f) :
    ∃ ls, Comment.linesAbove? (Text.lines cs) (firstLine f) = some ls ∧
      commentBlock cs f = readLines ls ∧
      RunTo Comment.isBlockLine (Text.lines cs) (firstLine f - 1) ls := by
  obtain ⟨ls, found, run⟩ := Comment.linesAbove?_run (firstLine_inside hss hf)
  exact ⟨ls, found, commentBlock_eq found, run⟩

/-- The two ways to find what stands above a function that starts on a line agree: its first
decorator starts on the line of its mark, no line above is broken by anything but line ends,
and none below the first names an interpreter. -/
structure Agree (cs : List Char) (f : Code.Function) (line : Nat) : Prop where
  decorated : f.decorators ≠ [] → firstLine f = line
  unbroken : ∀ l ∈ (Code.sourceLines cs).take (line - 1), Code.Unbroken l
  uninterpreted : ∀ k raw, 1 ≤ k → k < line - 1 → (Code.sourceLines cs)[k]? = some raw →
    Comment.namesInterpreter (Text.trim raw) = false

/-- A token of a source that a function starts with. -/
def StartsWith (cs : List Char) (f : Code.Function) (tok : Code.Token) : Prop :=
  ∃ rest, tok :: rest <:+ (Code.Lexer.tokens (Code.sourceText cs)).items ∧
    OpenedBy (Code.sourceRules cs) f (tok :: rest)

/-- **The comment block of a definition.** It is what the longest run of comment lines above
the first line of the function and its decorators reads as, and where the two ways to find
it agree, that is the run above the token that the function starts with. -/
theorem commentBlock_run (hss : statements cs = .ok ss) (hf : entryFunction ss = .ok f) :
    ∃ tok, StartsWith cs f tok ∧ ∃ ls, commentBlock cs f = readLines ls ∧
      RunTo Comment.isBlockLine (Text.lines cs) (firstLine f - 1) ls ∧
      (Agree cs f tok.place.line →
        RunTo Comment.isCommentLine (Code.sourceLines cs) (tok.place.line - 1) ls) := by
  obtain ⟨tok, rest, left, opened⟩ :=
    Code.file_define (statements_eq_ok.mp hss) (entryFunction_mem hf)
  obtain ⟨ls, -, block, run⟩ := commentBlock_found hss hf
  refine ⟨tok, ⟨rest, left, opened⟩, ls, block, run, fun agree => ?_⟩
  have first : firstLine f = tok.place.line := by
    by_cases none : f.decorators = []
    · rw [firstLine_plain none, (opened.own none).here]
    · exact agree.decorated none
  rw [first] at run
  refine run.congr (Code.take_lines agree.unbroken) fun k raw inside here => ?_
  exact Comment.isBlockLine_eq (fun below => agree.uninterpreted k raw (by omega) inside here)
    (by omega)

/-! ### Two sources -/

/-- A source with a decorated function below a comment block. -/
def greeting : List Char :=
  "import os\n# Greets.\n# @param \x7bstring\x7d name\n@cached\ndef greet(name): pass\n".toList

theorem commentBlock_run_greeting : ∃ ss f, statements greeting = .ok ss ∧
    entryFunction ss = .ok f ∧ RunTo Comment.isCommentLine (Code.sourceLines greeting) 3
      [⟨"Greets.".toList, 2⟩, ⟨"@param \x7bstring\x7d name".toList, 3⟩] := by
  have read : ((statements greeting >>= entryFunction).map fun f =>
      (firstLine f, f.decorators.length)).toOption = some (4, 1) := by
    decide +kernel
  have marks : ∀ t ∈ (Code.Lexer.tokens (Code.sourceText greeting)).items,
      t.isMark "@" = true → t.place.line = 4 := by
    decide +kernel
  have unbroken : ∀ l ∈ (Code.sourceLines greeting).take 3, Code.Unbroken l := by
    decide +kernel
  have uninterpreted : ∀ raw ∈ Code.sourceLines greeting,
      Comment.namesInterpreter (Text.trim raw) = false := by
    decide +kernel
  obtain ⟨ss, f, hss, hf, facts⟩ := exists_entry read
  obtain ⟨first, decorators⟩ := Prod.mk.inj facts
  obtain ⟨tok, ⟨rest, left, opened⟩, ls, -, run, above⟩ := commentBlock_run hss hf
  have line : tok.place.line = 4 := by
    cases opened with
    | word plain _ =>
        rw [plain] at decorators
        cases decorators
    | mark _ isMark _ _ _ => exact marks tok (left.subset List.mem_cons_self) isMark
  rw [first] at run
  rw [line] at above
  have lines : ls = [⟨"Greets.".toList, 2⟩, ⟨"@param \x7bstring\x7d name".toList, 3⟩] :=
    (run.unique (Comment.leadingRun_take (by decide +kernel))).trans (by decide +kernel)
  refine ⟨ss, f, hss, hf, lines ▸ above ⟨fun _ => first, unbroken, ?_⟩⟩
  exact fun k raw _ _ here => uninterpreted raw (List.mem_of_getElem? here)

/-- The block of a function is the run above the token that the function starts with. -/
def AboveStart (cs : List Char) (f : Code.Function) : Prop :=
  ∃ tok, StartsWith cs f tok ∧ ∃ ls, commentBlock cs f = readLines ls ∧
    RunTo Comment.isCommentLine (Code.sourceLines cs) (tok.place.line - 1) ls

/-- A source whose first line holds a form feed. -/
def formFeed : List Char := "x = 1\x0c\n# @param \x7bstring\x7d a\ndef f(a): pass\n".toList

/-- The line that the function starts on by the count of tokens is, by the other, the line
of the declaration, and nothing above that is a comment. -/
theorem formFeed_not_aboveStart : ∃ ss f, statements formFeed = .ok ss ∧
    entryFunction ss = .ok f ∧ ¬ AboveStart formFeed f := by
  have read : ((statements formFeed >>= entryFunction).map fun f =>
      (firstLine f, f.decorators.length)).toOption = some (3, 0) := by
    decide +kernel
  have uninterpreted : ∀ raw ∈ Code.sourceLines formFeed,
      Comment.namesInterpreter (Text.trim raw) = false := by
    decide +kernel
  have nothing : Comment.linesAbove? (Text.lines formFeed) 3 = some [] := by decide +kernel
  obtain ⟨ss, f, hss, hf, facts⟩ := exists_entry read
  obtain ⟨first, decorators⟩ := Prod.mk.inj facts
  have plain := List.eq_nil_of_length_eq_zero decorators
  refine ⟨ss, f, hss, hf, ?_⟩
  rintro ⟨tok, ⟨rest, left, opened⟩, ls, block, run⟩
  rw [(opened.own plain).here, ← firstLine_plain plain, first] at run
  have counted : RunTo Comment.isBlockLine (Code.sourceLines formFeed) 2 ls :=
    run.congr rfl fun k raw _ here => (Comment.isBlockLine_eq
      (fun _ => uninterpreted raw (List.mem_of_getElem? here)) (by omega)).symm
  have lines : ls = [⟨"@param \x7bstring\x7d a".toList, 2⟩] :=
    (counted.unique (Comment.leadingRun_take (by decide +kernel))).trans (by decide +kernel)
  rw [commentBlock_eq (by rw [first]; exact nothing), lines] at block
  have declared := congrArg (fun b => b.toOption.map fun b => b.declarations.length) block
  revert declared
  decide +kernel

end Docsig.Definition
