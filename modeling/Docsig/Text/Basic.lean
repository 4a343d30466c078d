/-!
Characters, parts and lines of a text.

Lines come in two conventions. `lines` breaks at every line boundary of Unicode, among
them form feeds, the information separators and the paragraph separator.
`unifyNewlines` only knows line feeds, carriage returns and the pair of both, and writes
each as one line feed. The two disagree on where a line of a source ends, and the library
uses both: comments are found by `lines`, tokens are numbered after `unifyNewlines`.

A text is a list of characters, so that it holds no lone surrogate.
-/

namespace Docsig.Text

/-! ### Characters -/

/-- Whether `n` lies in one of the ranges, ends included. -/
def inRanges (ranges : List (Nat × Nat)) (n : Nat) : Bool :=
  ranges.any fun range => range.1 ≤ n && n ≤ range.2

/-- A text that holds a null character. -/
def HasNull (cs : List Char) : Prop := ∃ c ∈ cs, c.toNat = 0

instance : DecidablePred HasNull := fun cs =>
  decidable_of_iff (cs.any fun c => c.toNat = 0) (by simp [HasNull])

/-! ### Parts -/

/-- The parts of a text between separators. There is one part more than there
are separators, so that the empty text has one empty part. -/
def splitAt (separator : Char) : List Char → List (List Char)
  | [] => [[]]
  | c :: cs =>
      match splitAt separator cs with
      | [] => [[c]]
      | part :: parts => if c = separator then [] :: part :: parts else (c :: part) :: parts

/-! ### Lines -/

/-- A character that ends a line. -/
def isLineBreak (c : Char) : Bool :=
  let n := c.toNat
  (10 ≤ n && n ≤ 13) || (28 ≤ n && n ≤ 30) || n == 0x85 || n == 0x2028 || n == 0x2029

/-- The lines of a text whose current line holds `line`, last character first.
A break at the very end opens no further line. -/
def linesFrom (line : List Char) : List Char → List (List Char)
  | [] => if line.isEmpty then [] else [line.reverse]
  | '\r' :: '\n' :: cs => line.reverse :: linesFrom [] cs
  | c :: cs => if isLineBreak c then line.reverse :: linesFrom [] cs else linesFrom (c :: line) cs

/-- The lines of a text, without their breaks. -/
def lines (cs : List Char) : List (List Char) := linesFrom [] cs

/-- Every carriage return, with or without a line feed after it, as one line
feed. -/
def unifyNewlines : List Char → List Char
  | [] => []
  | '\r' :: '\n' :: cs => '\n' :: unifyNewlines cs
  | c :: cs => (if c = '\r' then '\n' else c) :: unifyNewlines cs

end Docsig.Text
