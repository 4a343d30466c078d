import Docsig.Text.Basic
import Docsig.Text.Blank
import Docsig.Text.Word

/-!
The comment lines above a definition.

`linesAbove?` gives the longest run of comment lines that ends directly above a
line of a source. A line that names an interpreter ends the run, and so does a
declaration of the encoding on one of the first two lines. A line's text is what
follows its number sign and one space.
-/

namespace Docsig.Comment

/-- A comment line: its text and its number, counted from one. -/
structure Line where
  text : List Char
  number : Nat
  deriving DecidableEq, Repr, Inhabited

/-! ### Comment lines -/

/-- Whether an encoding is named directly here: after the word, a colon or an
equals sign, blanks, and a character of a name. -/
def namesEncoding (cs : List Char) : Bool :=
  "coding".toList.isPrefixOf cs &&
    (match cs.drop 6 with
      | mark :: rest =>
          (mark = ':' || mark = '=') &&
            ((rest.dropWhile fun c => c = ' ' || c = '\t').head?.any fun c =>
              c = '-' || c = '.' || Text.isWord c)
      | [] => false)

/-- Whether a text names an encoding anywhere. -/
def hasEncoding : List Char → Bool
  | [] => false
  | c :: cs => namesEncoding (c :: cs) || hasEncoding cs

/-- Whether a line, without the white space around it, belongs to a comment
block. -/
def isBlockLine (number : Nat) (stripped : List Char) : Bool :=
  match stripped with
  | '#' :: '!' :: _ => false
  | '#' :: rest => !(number ≤ 2 && hasEncoding rest)
  | _ => false

def lineText (stripped : List Char) : List Char :=
  Text.trimEnd
    (match stripped.drop 1 with
      | ' ' :: cs => cs
      | cs => cs)

/-- The comment line that stands on a line of a source, if it belongs to a
block. -/
def lineOf? (number : Nat) (raw : List Char) : Option Line :=
  let stripped := Text.trim raw
  if isBlockLine number stripped then some ⟨lineText stripped, number⟩ else none

/-! ### Blocks -/

/-- The comment lines at the start of numbered lines. -/
def leadingRun : List (List Char × Nat) → List Line
  | [] => []
  | (raw, number) :: rest =>
      match lineOf? number raw with
      | some line => line :: leadingRun rest
      | none => []

/-- The comment lines directly above a line, from top to bottom. There is none
above the first line; below the last line but one the source has no lines to
look at. -/
def linesAbove? (source : List (List Char)) (line : Int) : Option (List Line) :=
  let count := (line - 1).toNat
  if source.length < count then none
  else some (leadingRun ((source.take count).zipIdx 1).reverse).reverse

end Docsig.Comment
