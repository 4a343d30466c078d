import Docsig.Definition.Parse

/-!
Directory trees.

A tree is a file or a directory with named entries. `edit` changes the entry at
a path and makes the directories above it as needed. `obstacle?` says whether a
file can be put at a path as the tree is.
-/

namespace Docsig

/-- A tree of files. -/
inductive Tree where
  | file (contents : Definition.Contents)
  | directory (entries : List (String × Tree))
  deriving Repr, Inhabited

namespace Tree

def empty : Tree := directory []

/-- The entries of a directory; a file has none. -/
def entries : Tree → List (String × Tree)
  | directory es => es
  | file _ => []

def isDirectory : Tree → Bool
  | directory _ => true
  | file _ => false

def child? (name : String) (es : List (String × Tree)) : Option Tree :=
  (es.find? fun e => e.1 == name).map Prod.snd

def at? : List String → Tree → Option Tree
  | [], t => some t
  | name :: names, t => (child? name t.entries).bind (at? names)

/-! ### Room -/

/-- What stands in the way of a file. -/
inductive Obstacle where
  /-- The directory of the file is a file. -/
  | directoryIsFile
  /-- A directory further up is a file. -/
  | aboveIsFile
  /-- There is a directory in place of the file. -/
  | fileIsDirectory
  /-- The path of the file holds a null character. -/
  | nullCharacter
  deriving DecidableEq, Repr

/-- What stands in the way of a file at a path. Missing directories and a file that is
there already do not. -/
def obstacle? : List String → Tree → Option Obstacle
  | [], file _ => none
  | [], directory _ => some .fileIsDirectory
  | [_], file _ => some .directoryIsFile
  | _ :: _ :: _, file _ => some .aboveIsFile
  | name :: names, directory es => (child? name es).bind (obstacle? names)

/-! ### Changes -/

/-- Entries with a tree under a name, or without that name. -/
def put (name : String) (tree? : Option Tree) :
    List (String × Tree) → List (String × Tree)
  | [] => (tree?.map fun t => (name, t)).toList
  | e :: es =>
      if e.1 == name then (tree?.map fun t => (name, t)).toList ++ es else e :: put name tree? es

/-- Entries after a change of what stands at a path. -/
def edit (change : Option Tree → Option Tree) :
    List String → List (String × Tree) → List (String × Tree)
  | [], es => es
  | [name], es => put name (change (child? name es)) es
  | name :: names, es =>
      let below := ((child? name es).map entries).getD []
      put name (some (directory (edit change names below))) es

def write (path : List String) (contents : Definition.Contents) (t : Tree) : Tree :=
  directory (edit (fun _ => some (file contents)) path t.entries)

/-- A tree with a directory at a path; one that is there stays. -/
def makeDirectory (path : List String) (t : Tree) : Tree :=
  directory (edit (fun old => some (directory ((old.map entries).getD []))) path t.entries)

/-- A tree without what stands at a path. -/
def remove (path : List String) (t : Tree) : Tree :=
  if (t.at? path).isSome then directory (edit (fun _ => none) path t.entries) else t

end Tree

end Docsig
