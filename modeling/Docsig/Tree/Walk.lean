import Docsig.Tree.Basic

/-!
The source files of a tree, in the order in which they are loaded.

A directory gives its own files, sorted by name, and then what its directories
give, sorted by name too. Hidden entries are passed over, and so are cache
directories and files without one of the extensions.
-/

namespace Docsig

/-- A source file: its path from the root, and what it holds. -/
structure Source where
  path : String
  contents : Definition.Contents
  deriving Repr

namespace Tree

def isHidden (name : String) : Bool := name.toList.head? == some '.'

/-- The directories that hold no sources. -/
def cacheName : String := "__pycache__"

def isWalked (name : String) : Bool := !isHidden name && name != cacheName

def isSource (extensions : List String) (name : String) : Bool :=
  !isHidden name && extensions.any fun extension => extension.toList.isSuffixOf name.toList

/-- Named things in the order of their names. -/
def sortByName {α : Type} (es : List (String × α)) : List (String × α) :=
  es.mergeSort fun a b => decide (a.1 ≤ b.1)

/-- The source files among some entries; `above` is the path of their directory,
with a slash at its end. -/
def filesAmong (extensions : List String) (above : String) :
    List (String × Tree) → List (String × Source)
  | [] => []
  | (name, .file contents) :: es =>
      if isSource extensions name then
        (name, ⟨above ++ name, contents⟩) :: filesAmong extensions above es
      else filesAmong extensions above es
  | (_, .directory _) :: es => filesAmong extensions above es

/-- The sources of a directory, from its own files and from what its
directories give. -/
def inOrder (own : List (String × Source)) (below : List (String × List Source)) :
    List Source :=
  (sortByName own).map Prod.snd ++ (sortByName below).flatMap Prod.snd

mutual

/-- The sources below a path; a file is below none. -/
def sourcesBelow (extensions : List String) (above : String) : Tree → List Source
  | .file _ => []
  | .directory es =>
      inOrder (filesAmong extensions above es) (directoriesAmong extensions above es)

/-- The walked directories among some entries, with their sources. -/
def directoriesAmong (extensions : List String) (above : String) :
    List (String × Tree) → List (String × List Source)
  | [] => []
  | (name, t) :: es =>
      if t.isDirectory && isWalked name then
        (name, sourcesBelow extensions (above ++ name ++ "/") t) ::
          directoriesAmong extensions above es
      else directoriesAmong extensions above es

end

def sources (extensions : List String) (t : Tree) : List Source := sourcesBelow extensions "" t

end Tree

end Docsig
