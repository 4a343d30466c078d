/-!
White space and the operations on text that depend on it: trimming, words and
the width of indentation.

`isBlank` is the one notion of white space of the library. It holds of the
separators of Unicode and of the control characters that separate lines, files,
groups, records and units.
-/

namespace Docsig.Text

/-! ### White space -/

/-- White space: tab to carriage return, the four information separators, the
space, and the separators beyond ASCII. -/
def isBlank (c : Char) : Bool :=
  let n := c.toNat
  (9 ≤ n && n ≤ 13) || (28 ≤ n && n ≤ 32) || n == 0x85 || n == 0xA0 || n == 0x1680 ||
    (0x2000 ≤ n && n ≤ 0x200A) || n == 0x2028 || n == 0x2029 || n == 0x202F || n == 0x205F ||
    n == 0x3000

/-- A text of white space only; the empty text is one. -/
def isBlankText (cs : List Char) : Bool := cs.all isBlank

/-! ### Trimming -/

/-- The text without the white space at its start. -/
def trimStart (cs : List Char) : List Char := cs.dropWhile isBlank

/-- The text without the white space at its end. -/
def trimEnd (cs : List Char) : List Char := (cs.reverse.dropWhile isBlank).reverse

/-- The text without the white space at either end. -/
def trim (cs : List Char) : List Char := trimEnd (trimStart cs)

/-- `trim` on strings. -/
def trimmed (s : String) : String := String.ofList (trim s.toList)

/-! ### Words -/

/-- The maximal runs of characters that are not white space; `run` holds the
current one, last character first. -/
def wordsFrom (run : List Char) : List Char → List (List Char)
  | [] => if run.isEmpty then [] else [run.reverse]
  | c :: cs =>
      if isBlank c then
        if run.isEmpty then wordsFrom [] cs else run.reverse :: wordsFrom [] cs
      else wordsFrom (c :: run) cs

/-- The words of a text, in order. -/
def words (cs : List Char) : List (List Char) := wordsFrom [] cs

/-! ### Indentation -/

/-- The number of characters of a text that starts in column `column` once its tabs are spaces.
A tab reaches to the next multiple of `stop`; a line end is a character like any other, after
which the columns start again. -/
def widthFrom (stop column : Nat) : List Char → Nat
  | [] => 0
  | c :: cs =>
      if c = '\t' then
        let width := stop - column % stop
        width + widthFrom stop (column + width) cs
      else 1 + widthFrom stop (if c = '\n' ∨ c = '\r' then 0 else column + 1) cs

/-- The width of an indentation, with tab stops every four columns. -/
def indentWidth (cs : List Char) : Nat := widthFrom 4 0 cs

end Docsig.Text
