import Docsig.Text.Basic

/-!
Relative and absolute paths of a tree, without looking at the tree.

A path is a number of leading slashes and the segments after them. Reading a
path drops empty segments and points; two points stay. Exactly two leading
slashes stay two, any other number counts as one.

To go along a path, its text is enough: `segmentsOf` keeps points, for they only
lead on where there is a directory.
-/

namespace Docsig

structure Path where
  slashes : Nat
  segments : List String
  deriving DecidableEq, Repr, Inhabited

namespace Path

/-! ### Reading and writing -/

/-- Whether a segment says nothing. -/
def isIdle (segment : List Char) : Bool := segment == [] || segment == ['.']

/-- The path that a text names. -/
def ofText (s : String) : Path :=
  let leading := (s.toList.takeWhile (· == '/')).length
  let segments := (Text.splitAt '/' s.toList).filter fun segment => !isIdle segment
  ⟨if leading = 0 then 0 else if leading = 2 then 2 else 1, segments.map String.ofList⟩

/-- The text of a path; the empty path is a point. -/
def text (p : Path) : String :=
  if p.slashes = 0 && p.segments.isEmpty then "."
  else String.ofList (List.replicate p.slashes '/') ++ String.intercalate "/" p.segments

/-! ### Parts -/

/-- The last segment; empty if there is none. -/
def name (p : Path) : String := p.segments.getLast?.getD ""

def parent (p : Path) : Path := ⟨p.slashes, p.segments.dropLast⟩

/-- The number of characters before the suffix of a name. A suffix starts at the
last point, if that is neither the first nor the last character. -/
def stemLength (cs : List Char) : Nat :=
  let tail := (cs.reverse.takeWhile (· != '.')).length
  let before := cs.length - tail - 1
  if tail = cs.length || tail = 0 || before = 0 then cs.length else before

def stemOf (name : String) : String :=
  String.ofList (name.toList.take (stemLength name.toList))

def stem (p : Path) : String := stemOf p.name

/-- The path without the suffix of its last segment; none if there is no
segment. -/
def withoutSuffix? (p : Path) : Option Path :=
  if p.segments.isEmpty then none
  else some ⟨p.slashes, p.segments.dropLast ++ [p.stem]⟩

/-! ### Texts -/

def isAbsolute (path : String) : Bool := path.toList.head? == some '/'

/-- A path taken from a directory; an absolute path stays what it is. -/
def join (directory path : String) : String :=
  if isAbsolute path || directory.isEmpty then path
  else if directory.toList.getLast? == some '/' then directory ++ path
  else directory ++ "/" ++ path

/-- The segments between the slashes of a path, points among them. -/
def segmentsOf (path : String) : List String :=
  ((Text.splitAt '/' path.toList).filter (· != [])).map String.ofList

end Path

end Docsig
