import Docsig.Page.Render
import Docsig.Tree.Load
import Docsig.Tree.Place

/-!
The pages of a mapping of definitions.

Pages come in the order of their keys. The page of a key goes to a file that is called after
it, taken from a directory as paths are; the empty key, which is the root, goes to the index
file. Nothing keeps another key from leading to that file, and keys that did not come from
sources may lead anywhere: the later page replaces the earlier one.
-/

namespace Docsig.Page

/-! ### Pages -/

def renderPage (e : String × Definition) : Except Json.KeyFault (String × String) := do
  let page ← render e.2 (some e.1)
  return (e.1, page)

/-- The pages of a mapping, in the order of their keys. -/
def renderAll (ds : Definitions) : Except Json.KeyFault (List (String × String)) :=
  (Tree.sortByName ds).mapM renderPage

/-! ### Files -/

inductive WriteFault where
  | page (fault : Json.KeyFault)
  | blocked (path : String) (obstacle : Tree.Obstacle)
  deriving Repr

def fileName (key : String) : String := (if key.isEmpty then "index" else key) ++ ".md"

/-- The path of the page of a key. -/
def outputPath (directory key : String) : String := Path.join directory (fileName key)

/-- A tree after the page of a definition is written to it. -/
def writePage (directory : String) (working : Place) (t : Tree) (e : String × Definition) :
    Except WriteFault Tree := do
  let page ← (render e.2 (some e.1)).mapError .page
  let path := outputPath directory e.1
  (t.create (.ofPath working path) (.text page)).mapError (.blocked path)

/-- The paths of the pages that are written for a mapping, and the tree after that. -/
def writeAll (ds : Definitions) (directory : String) (fs : FileSystem) :
    Except WriteFault (List String × Tree) := do
  let es := Tree.sortByName ds
  let t ← es.foldlM (writePage directory fs.working) fs.tree
  return (es.map fun e => outputPath directory e.1, t)

end Docsig.Page
