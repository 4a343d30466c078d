import Docsig.Settings.Basic

/-!
Settings from a file.

The file holds a YAML mapping whose keys are names of settings; other keys are a
fault. Where a list is due, an empty value counts as the empty list, and any
value that can be walked as the list of its elements.

How the text of a file is read is not settled here: a reader is handed in. A setting whose
value the library has no value for is a fault of its own, after that of unknown keys.
-/

namespace Docsig.Settings

open Yaml (Document Key)

inductive FileFault where
  /-- A fault of the reader that is not about the form of the text. -/
  | reader (fault : Yaml.Fault)
  | settings (fault : Fault)
  deriving Repr

/-- What a file holds, which may be missing. -/
def fileDocument (read : Yaml.Reader) (path : String) : Option String → Except FileFault Document
  | none => .error (.settings (.missingFile path))
  | some s =>
      match read s with
      | .ok document => .ok document
      | .error .malformed => .error (.settings (.malformedFile path))
      | .error fault => .error (.reader fault)

/-- The entries of the mapping in a file; an empty file has none. -/
def fileEntries (path : String) : Document → Except Fault (List (Key × Option Value))
  | .empty => .ok []
  | .mapping entries => .ok entries
  | .other => .error (.notMapping path)

/-! ### Unknown keys -/

def isKnown : Key → Bool
  | .text s => names.contains s
  | _ => false

/-- Keys in their order. One key needs none; several have one if all are of one sort. -/
def sortKeys : List Key → Except Fault (List Key)
  | [] => .ok []
  | [k] => .ok [k]
  | k :: ks =>
      if k.sort?.isSome && ks.all fun l => l.sort? == k.sort? then
        .ok ((k :: ks).mergeSort Key.atMost)
      else .error (.unorderedKeys (k :: ks))

/-- The keys among some entries that name no setting. -/
def unknownKeys (entries : List (Key × Option Value)) : List Key :=
  (entries.map Prod.fst).filter fun k => !isKnown k

/-- The entries, if all of them are settings. -/
def checkKeys (path : String) (entries : List (Key × Option Value)) : Except Fault Unit := do
  let unknown ← sortKeys (unknownKeys entries)
  if unknown.isEmpty then return () else throw (.unknownKeys unknown path)

/-! ### Whole files -/

/-- The elements of a value, and none of an empty one. -/
def elements (v : Value) : Except Fault (List Value) :=
  if !v.isTruthy then .ok []
  else
    match v.elements? with
    | some vs => .ok vs
    | none => .error (.notIterable v)

/-- A setting as the file gives it. -/
def fileField : String × Option Value → Except Fault (String × Value)
  | (name, none) => .error (.foreignValue name)
  | ("extensions", some v) => (elements v).map fun vs => ("extensions", .tuple vs)
  | ("ignore", some v) => (elements v).map fun vs => ("ignore", .list vs)
  | (name, some v) => .ok (name, v)

def isName (name : String) : Key → Bool
  | .text s => s == name
  | _ => false

/-- The named values of some entries; lists are made in the order of the
names. -/
def fileFields (entries : List (Key × Option Value)) : Except Fault (List (String × Value)) :=
  let fields := names.filterMap fun name =>
    (entries.find? fun e => isName name e.1).map fun e => (name, e.2)
  fields.mapM fileField

/-- The settings that the entries of a file give. -/
def ofEntries (path : String) (entries : List (Key × Option Value)) : Except Fault Settings := do
  checkKeys path entries
  let fields ← fileFields entries
  ofFields fields

/-- The settings in a file, which may be missing. -/
def ofFile (read : Yaml.Reader) (path : String) (text? : Option String) :
    Except FileFault Settings := do
  let document ← fileDocument read path text?
  (do
    let entries ← fileEntries path document
    ofEntries path entries).mapError .settings

end Docsig.Settings
