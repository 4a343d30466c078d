import Docsig.Tree.Basic
import Docsig.Tree.Path

/-!
Places of a tree and the ways to them.

A place is the list of names from the root of a tree down to it. A path leads to a place
one segment after the other, from the root if it starts with a slash and else from the
working directory: a point stays, two points go one directory up, and any other segment
goes down. `create` puts a file at the end of a route and makes the directories on the way
that are missing, those that the route leaves again among them.

The tree stands for a file system without links, permissions and bounds on the length of
names. Any text without slashes and null characters is a name there, and whatever is a text
can be written to a file.
-/

namespace Docsig

/-! ### Places -/

/-- The names from the root of a tree down to a place. -/
abbrev Place := List String

namespace Place

/-- Where a segment of a path leads. -/
def step (here : Place) (segment : String) : Place :=
  if segment = "." then here else if segment = ".." then here.dropLast else here ++ [segment]

/-- Where segments lead one after the other. -/
def follow (here : Place) (segments : List String) : Place := segments.foldl step here

/-- The places that segments lead through, the first and the last among them. -/
def passed (here : Place) : List String → List Place
  | [] => [here]
  | segment :: segments => here :: passed (here.step segment) segments

end Place

/-- A way to a file: where it starts, the segments to the directory of the file, and the
name of the file. -/
structure Route where
  start : Place
  directories : List String
  name : String
  deriving DecidableEq, Repr

namespace Route

/-- The way that a path leads. -/
def ofPath (working : Place) (path : String) : Route :=
  let segments := Path.segmentsOf path
  ⟨if Path.isAbsolute path then [] else working, segments.dropLast, segments.getLast?.getD ""⟩

def place (r : Route) : Place := r.start.follow r.directories ++ [r.name]

def passed (r : Route) : List Place := r.start.passed r.directories

end Route

/-- A tree, and the directory in it that relative paths start from. -/
structure FileSystem where
  tree : Tree
  working : Place
  isDirectory_working : (tree.at? working).any Tree.isDirectory = true

/-! ### Files -/

namespace Tree

/-- A tree after a segment of a path is gone along: there is a directory where it leads. -/
def enter (t : Tree) (here : Place) (segment : String) : Except Obstacle Tree :=
  if Text.HasNull segment.toList then .error .nullCharacter
  else
    match t.at? here with
    | some (file _) => .error .aboveIsFile
    | _ =>
        .ok (if (t.at? (here.step segment)).isSome then t
          else t.makeDirectory (here.step segment))

/-- A tree after segments of a path are gone along. -/
def makeDirectories (t : Tree) (here : Place) : List String → Except Obstacle Tree
  | [] =>
      match t.at? here with
      | some (file _) => .error .directoryIsFile
      | _ => .ok t
  | segment :: segments => do
      let t ← t.enter here segment
      makeDirectories t (here.step segment) segments

/-- A tree with a file at the end of a route. -/
def create (t : Tree) (r : Route) (contents : Definition.Contents) : Except Obstacle Tree := do
  let t ← t.makeDirectories r.start r.directories
  if Text.HasNull r.name.toList then .error .nullCharacter
  else
    match t.at? r.place with
    | some (directory _) => .error .fileIsDirectory
    | _ => .ok (t.write r.place contents)

end Tree

end Docsig
