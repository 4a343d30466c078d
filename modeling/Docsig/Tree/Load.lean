import Docsig.Settings.Basic
import Docsig.Tree.Path
import Docsig.Tree.Walk

/-!
Loading the definitions of a tree.

Every source file has a key: its path without the suffix, or the path of its
directory if the file stands for that. Two files of one key are a fault, and
the first fault ends the load. Loaded definitions are laid over a mapping that
is there before.
-/

namespace Docsig

/-- Definitions by key. -/
abbrev Definitions := List (String × Definition)

/-- Definitions with one under a key; a key that is there keeps its place. -/
def Definitions.put (key : String) (d : Definition) : Definitions → Definitions
  | [] => [(key, d)]
  | e :: es => if e.1 == key then (key, d) :: es else e :: Definitions.put key d es

/-- Definitions laid over others. -/
def Definitions.overlay (seed loaded : Definitions) : Definitions :=
  loaded.foldl (fun ds (key, d) => Definitions.put key d ds) seed

def Definitions.find? (key : String) (ds : Definitions) : Option Definition :=
  (List.find? (fun e => e.1 == key) ds).map Prod.snd

namespace Tree

inductive Fault where
  | missingRoot
  /-- A value that cannot be walked where files to skip are listed. -/
  | notIterable (found : Value)
  /-- A value that is no text among the files to skip. -/
  | notText (found : Value)
  /-- A path without a last segment. -/
  | noName (path : String)
  | repeatedKey (path key earlier : String)
  | definition (fault : Definition.Fault)
  deriving Repr

/-- The wording of a fault; `root` is how the root is called. -/
def Fault.message (root : String) : Fault → String
  | missingRoot => "Definition root directory not found: " ++ root
  | notIterable found => "Cannot walk a value of type " ++ found.kindName
  | notText found => "Expected a text, got " ++ found.kindName
  | noName path => "Path has no last segment: '" ++ path ++ "'"
  | repeatedKey path key earlier =>
      Definition.Fault.placed path none
        ("Definition key '" ++ key ++ "' is already provided by '" ++ earlier ++ "'")
  | definition fault => fault.message

/-! ### Keys -/

/-- The key of the files that stand for a directory: its path, and nothing for
the root. -/
def directoryKey (directory : Path) : String :=
  if directory.text == "." then "" else directory.text

def isText (s : String) : Value → Bool
  | .text t => t == s
  | _ => false

/-- The key of a source file. -/
def key (indexName : Value) (path : String) : Except Fault String :=
  let p := Path.ofText path
  if isText p.stem indexName then .ok (directoryKey p.parent)
  else
    match p.withoutSuffix? with
    | some stem => .ok stem.text
    | none => .error (.noName path)

/-! ### Files to skip -/

/-- The path that an entry of the list of files to skip names. Backslashes count
as slashes. -/
def skippedPath : Value → Except Fault String
  | .text s =>
      .ok (Path.ofText (String.ofList (s.toList.map fun c => if c = '\\' then '/' else c))).text
  | v => .error (.notText v)

/-- The values that a list of files to skip holds. -/
def listed (v : Value) : Except Fault (List Value) :=
  match v.elements? with
  | some vs => .ok vs
  | none => .error (.notIterable v)

/-- `listed` where the list may be left out. -/
def listedIfAny (v : Value) : Except Fault (List Value) :=
  if v.isTruthy then listed v else .ok []

def skippedPaths (vs : List Value) : Except Fault (List String) := vs.mapM skippedPath

/-- Whether a file is skipped: its path is listed, with its suffix or without. -/
def isSkipped (skipped : List String) (path : String) : Except Fault Bool :=
  match (Path.ofText path).withoutSuffix? with
  | some stem => .ok (skipped.contains path || skipped.contains stem.text)
  | none => .error (.noName path)

/-! ### Loading -/

/-- What becomes of a source file. -/
inductive Decision where
  | skip
  | take (key : String)
  deriving DecidableEq, Repr

/-- What becomes of a source file, when some keys are taken by earlier files. -/
def decision (indexName : Value) (skipped : List String) (taken : List (String × String))
    (path : String) : Except Fault Decision := do
  if ← isSkipped skipped path then return .skip
  let key ← key indexName path
  match taken.find? fun t => t.1 == key with
  | some (_, earlier) => throw (.repeatedKey path key earlier)
  | none => return .take key

def parse (charge : Int) (source : Source) : Except Fault Definition :=
  (Definition.parse charge source.path source.contents).mapError .definition

/-- The definitions of some source files. -/
def collect (indexName : Value) (charge : Int) (skipped : List String) :
    List (String × String) → List Source → Except Fault Definitions
  | _, [] => .ok []
  | taken, source :: sources => do
      match ← decision indexName skipped taken source.path with
      | .skip => collect indexName charge skipped taken sources
      | .take key =>
          let d ← parse charge source
          let ds ← collect indexName charge skipped ((key, source.path) :: taken) sources
          return (key, d) :: ds

/-- The paths of the files that a load skips: those of the settings, then those
of the call. -/
def skippedBy (settings : Settings) (ignore : Value) : Except Fault (List String) := do
  let always ← listed settings.ignore
  let further ← listedIfAny ignore
  skippedPaths (always ++ further)

/-- The entries of a root; only a directory is one. -/
def rootOf : Option Tree → Except Fault Tree
  | some (.directory es) => .ok (.directory es)
  | _ => .error .missingRoot

/-- The definitions of a tree alone. -/
def loadAlone (settings : Settings) (root? : Option Tree) (ignore : Value) :
    Except Fault Definitions := do
  let root ← rootOf root?
  let skipped ← skippedBy settings ignore
  collect settings.indexName settings.defaultCharge skipped [] (root.sources settings.extensions)

/-- The definitions of a tree, laid over others. -/
def load (settings : Settings) (root? : Option Tree) (ignore : Value) (seed : Definitions) :
    Except Fault Definitions := do
  let loaded ← loadAlone settings root? ignore
  return seed.overlay loaded

/-! ### Records -/

def logger : String := "funcdoc.parsers.loader"

/-- The records about some source files, up to the first fault. -/
def collectRecords (indexName : Value) (charge : Int) (skipped : List String) :
    List (String × String) → List Source → List Logging.Record
  | _, [] => []
  | taken, source :: sources =>
      match decision indexName skipped taken source.path with
      | .error _ => []
      | .ok .skip =>
          ⟨Logging.debugLevel, logger, "Skipping ignored file: " ++ source.path⟩ ::
            collectRecords indexName charge skipped taken sources
      | .ok (.take key) =>
          let rest :=
            match parse charge source with
            | .ok _ =>
                collectRecords indexName charge skipped ((key, source.path) :: taken) sources
            | .error _ => []
          ⟨Logging.debugLevel, logger, "Loading definition from: " ++ source.path⟩ ::
            (Definition.parseRecords source.path source.contents ++ rest)

/-- What is logged while a tree is loaded; `name` is how the root is called. -/
def loadRecords (settings : Settings) (name : String) (root? : Option Tree) (ignore : Value) :
    List Logging.Record :=
  match rootOf root?, skippedBy settings ignore with
  | .ok root, .ok skipped =>
      let found :=
        collectRecords settings.indexName settings.defaultCharge skipped []
          (root.sources settings.extensions)
      match loadAlone settings root? ignore with
      | .ok ds =>
          let message :=
            "Loaded " ++ toString ds.length ++ " definition(s) from " ++ name
          found ++ [⟨Logging.infoLevel, logger, message⟩]
      | .error _ => found
  | _, _ => []

end Tree

end Docsig
