import Docsig.Number.Numeral
import Docsig.Text.Basic
import Docsig.Text.Blank
import Docsig.Yaml.Document

/-!
Settings of a run.

Settings are made from named values, from environment variables or from a file.
File extensions start with a point and there is at least one; the default charge
is a positive integer. The other settings are kept as they are given and are
looked at where they are used.
-/

namespace Docsig

structure Settings where
  /-- The extensions of source files, each with its point. -/
  extensions : List String
  /-- The name of files that stand for their directory. -/
  indexName : Value
  ignore : Value
  defaultCharge : Int
  logLevel : Value
  printLevel : Value
  deriving Repr, Inhabited

namespace Settings

/-- The settings where nothing is given. -/
def standard : Settings :=
  ⟨[".py"], .text "__main__", .list [], 1, .text "INFO", .text "ERROR"⟩

inductive Fault where
  /-- A name that no setting has. -/
  | unknownName (name : String)
  /-- A value that cannot be walked where a list is due. -/
  | notIterable (found : Value)
  /-- A value that is no text where one is due. -/
  | notText (found : Value)
  | noExtension
  | charge (found : Value)
  /-- A text that is no integer where a charge is due. -/
  | chargeText (text : String)
  | missingFile (path : String)
  | malformedFile (path : String)
  | notMapping (path : String)
  | unknownKeys (keys : List Yaml.Key) (path : String)
  /-- Several unknown keys that have no common order. -/
  | unorderedKeys (keys : List Yaml.Key)
  /-- A setting with a value in a file that the library has none for. -/
  | foreignValue (name : String)
  deriving Repr

def Fault.message : Fault → String
  | unknownName name => "Unknown setting '" ++ name ++ "'"
  | notIterable found => "Cannot walk a value of type " ++ found.kindName
  | notText found => "Expected a text, got " ++ found.kindName
  | noExtension => "At least one source file extension must be configured"
  | charge found => "default_charge must be a positive integer, got: " ++ found.display
  | chargeText text => "Invalid charge '" ++ text ++ "'"
  | missingFile path => "Configuration file not found: " ++ path
  | malformedFile path => "Error parsing YAML file " ++ path
  | notMapping path => "Configuration root must be a mapping. File: " ++ path
  | unknownKeys keys path =>
      "Unknown configuration keys " ++ Value.displaySeq .list (keys.map Yaml.Key.display) ++
        ". File: " ++ path
  | unorderedKeys _ => "Unknown configuration keys of several types"
  | foreignValue name => "Foreign value of '" ++ name ++ "'"

/-- Whether a fault is reported as one of settings. The others are slips of values that nothing
looks at beforehand: a name or a value of the wrong type, a text that is no integer, and keys
that cannot be sorted. -/
def Fault.isReported : Fault → Bool
  | unknownName _ | notIterable _ | notText _ | chargeText _ | unorderedKeys _
  | foreignValue _ => false
  | _ => true

/-! ### Single settings -/

def names : List String :=
  ["extensions", "index_name", "ignore", "default_charge", "log_level", "print_level"]

/-- An extension with its point. -/
def withPoint (s : String) : String := if s.toList.head? = some '.' then s else "." ++ s

def extension : Value → Except Fault String
  | .text s => .ok (withPoint s)
  | v => .error (.notText v)

def extensionsOf (v : Value) : Except Fault (List String) :=
  match v.elements? with
  | some vs => vs.mapM extension
  | none => .error (.notIterable v)

/-- The charge that a value is. -/
def chargeOf : Value → Except Fault Int
  | .int n => if 1 ≤ n then .ok n else .error (.charge (.int n))
  | v => .error (.charge v)

/-! ### Whole settings -/

/-- The name of the first value that no setting has. -/
def unknownName? (fields : List (String × Value)) : Option String :=
  (fields.find? fun field => !names.contains field.1).map Prod.fst

/-- The value of a setting among named values. -/
def given (fields : List (String × Value)) (name : String) (standard : Value) : Value :=
  ((fields.find? fun field => field.1 == name).map Prod.snd).getD standard

/-- The settings that named values give; what is not given is standard. -/
def ofFields (fields : List (String × Value)) : Except Fault Settings := do
  match unknownName? fields with
  | some name => throw (.unknownName name)
  | none => pure ()
  let extensions ← extensionsOf (given fields "extensions" (.tuple [.text ".py"]))
  if extensions.isEmpty then throw .noExtension
  let charge ← chargeOf (given fields "default_charge" (.int 1))
  return ⟨extensions, given fields "index_name" standard.indexName,
    given fields "ignore" standard.ignore, charge, given fields "log_level" standard.logLevel,
    given fields "print_level" standard.printLevel⟩

/-! ### Environment variables -/

/-- The parts of a text between commas, trimmed and without blank ones. -/
def splitList (s : String) : List String :=
  ((Text.splitAt ',' s.toList).map Text.trim).filter (· ≠ []) |>.map String.ofList

def envText (env : List (String × String)) (name standard : String) : String :=
  ((env.find? fun entry => entry.1 == name).map Prod.snd).getD standard

def ofEnvironment (env : List (String × String)) : Except Fault Settings := do
  let texts (name standard : String) : List Value :=
    (splitList (envText env name standard)).map .text
  let charge := envText env "FUNCDOC_DEFAULT_CHARGE" "1"
  match integerText? charge.toList with
  | none => throw (.chargeText charge)
  | some charge =>
      ofFields [("extensions", .tuple (texts "FUNCDOC_EXTENSIONS" ".py")),
        ("index_name", .text (envText env "FUNCDOC_INDEX_NAME" "__main__")),
        ("ignore", .list (texts "FUNCDOC_IGNORE" "")), ("default_charge", .int charge),
        ("log_level", .text (envText env "FUNCDOC_LOG_LEVEL" "INFO")),
        ("print_level", .text (envText env "FUNCDOC_PRINT_LEVEL" "ERROR"))]

end Settings

end Docsig
