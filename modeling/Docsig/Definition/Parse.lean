import Docsig.Code.Environment
import Docsig.Definition.Draft
import Docsig.Definition.Signature
import Docsig.Logging.Basic
import Docsig.Types.Validate

/-!
Definitions from source files.

The last function at the top of a file is its entry function. Its signature has
to agree with the parameters that the comment above it declares; where none is
declared, types are inferred from initial values. `Definition.parse` gives the
definition or the first fault.

A syntax error is a fault on a line, without the words of what is wrong there; where
brackets and quotes stay open, other readers may name another line. Of the path, the
reader of statements only minds a null character.
-/

namespace Docsig.Definition

/-! ### Sources -/

/-- What a file holds: text, or bytes to decode. -/
inductive Contents where
  | text (s : String)
  | bytes (data : List UInt8)
  deriving Repr

def Contents.decode : Contents → Except LocalFault (List Char)
  | text s => .ok s.toList
  | bytes data =>
      match Text.Utf8.decodeSource data with
      | .ok cs => .ok cs
      | .error fault => .error ⟨none, .encoding fault⟩

/-- The path of a source, which the reader of its statements is given too. -/
def checkPath (pathname : String) : Except LocalFault Unit :=
  if Text.HasNull pathname.toList then .error ⟨none, .nullCharacter⟩ else .ok ()

def statements (cs : List Char) : Except LocalFault (List Code.Statement) :=
  match Code.file cs with
  | .ok ss => .ok ss
  | .error .nullCharacter => .error ⟨none, .nullCharacter⟩
  | .error (.invalid line) => .error (Cause.invalidSyntax.at line)

/-- The function that a statement defines. -/
def functionOf? : Code.Statement → Option Code.Function
  | .define f => some f
  | _ => none

/-- The last function at the top of a file. -/
def entryFunction (ss : List Code.Statement) : Except LocalFault Code.Function :=
  match (ss.filterMap functionOf?).getLast? with
  | some f => .ok f
  | none => .error ⟨none, .noFunction⟩

/-- The first line of a function and of the expressions that decorate it. -/
def firstLine (f : Code.Function) : Nat :=
  f.decorators.foldl (fun line e => min line e.place.line) f.place.line

def commentBlock (cs : List Char) (f : Code.Function) : Except LocalFault Comment.Block :=
  let lines := (Comment.linesAbove? (Text.lines cs) (firstLine f)).getD []
  match Comment.readBlock lines with
  | .ok block => .ok block
  | .error f => .error ((Cause.comment f.fault).at f.line)

/-! ### Parameters -/

def defaultValue (name : String) (e : Code.Expr) : Except LocalFault Value :=
  match Code.Literal.ofExpr e with
  | .ok v => .ok v
  | .error f => .error ((Cause.invalidDefault name f.cause).at f.line)

def nestedEntries (d : Draft) : List Entry :=
  let p := d.toParameter
  Entry.ofNested p.schema? p.members?

/-- The parameter of a draft and the formal parameter in its position. -/
def matchParam (position : Nat) (d : Draft) (f : Formal) : Except LocalFault Parameter := do
  if d.name? ≠ some f.name then
    throw ((Cause.parameterName position f.name (d.name?.getD "None")).at d.line)
  match f.default? with
  | none => return d.withDefault none
  | some e =>
      let v ← defaultValue f.name e
      if validate (some d.type) v true (nestedEntries d) then return d.withDefault (some v)
      else throw ((Cause.defaultType v f.name d.type.name).at e.place.line)

/-- The parameters of drafts and formal parameters, from a position on. -/
def matchFrom (position : Nat) : List Draft → List Formal → Except LocalFault (List Parameter)
  | d :: ds, f :: fs => do
      let p ← matchParam position d f
      return p :: (← matchFrom (position + 1) ds fs)
  | _, _ => .ok []

/-- The parameters of drafts, of which there is at least one, and formal
parameters. -/
def matchParams (ds : List Draft) (fs : List Formal) : Except LocalFault (List Parameter) :=
  if ds.length ≠ fs.length then
    .error ((Cause.parameterCount ds.length fs.length).at ((ds.head?.map Draft.line).getD 0))
  else matchFrom 1 ds fs

/-- The parameter that an initial value speaks for. -/
def inferParam (f : Formal) : Except LocalFault Parameter :=
  match f.default? with
  | none => .error ((Cause.undeclared f.name).at f.place.line)
  | some e => do
      let v ← defaultValue f.name e
      return { name := f.name, type := v.classify.name, default? := some v.freeze }

/-- The parameters that initial values speak for. -/
def inferParams (fs : List Formal) : Except LocalFault (List Parameter) := fs.mapM inferParam

/-! ### Definitions -/

/-- The parts of a source that a definition is made from. -/
structure Parts where
  function : Code.Function
  block : Comment.Block
  declared : Declared
  signature : Signature

def readParts (pathname : String) (contents : Contents) : Except LocalFault Parts := do
  let cs ← contents.decode
  checkPath pathname
  let ss ← statements cs
  let f ← entryFunction ss
  let block ← commentBlock cs f
  let declared ← Draft.read block.declarations
  let signature ← Signature.ofFunction pathname f
  return ⟨f, block, declared, signature⟩

def Parts.params (p : Parts) : Except LocalFault (List Parameter) :=
  if p.declared.params.isEmpty then inferParams p.signature.formals
  else matchParams p.declared.params p.signature.formals

def Parts.definition (p : Parts) (pathname : String) (defaultCharge : Int)
    (params : List Parameter) : Definition :=
  ⟨pathname, p.block.description, p.signature.context?, p.declared.returnSpec,
    p.declared.charge?.getD defaultCharge, p.function.environmentKeys, params⟩

/-- The definition in a file. -/
def parse (defaultCharge : Int) (pathname : String) (contents : Contents) :
    Except Fault Definition :=
  let result := do
    let parts ← readParts pathname contents
    let params ← parts.params
    return parts.definition pathname defaultCharge params
  result.mapError (LocalFault.inFile pathname)

/-! ### Records -/

def record (message : String) : Logging.Record :=
  ⟨Logging.debugLevel, "funcdoc.parsers.definition_parser", message⟩

/-- The records about inferred parameters, up to the first fault. -/
def inferenceRecords (pathname : String) : List Formal → List Logging.Record
  | [] => []
  | f :: fs =>
      match inferParam f with
      | .ok p =>
          record (pathname ++ ": inferred type '" ++ p.type ++ "' for parameter '" ++ p.name ++ "'") ::
            inferenceRecords pathname fs
      | .error _ => []

/-- What is logged while a file is parsed. -/
def parseRecords (pathname : String) (contents : Contents) : List Logging.Record :=
  match readParts pathname contents with
  | .error _ => []
  | .ok parts =>
      let inferred :=
        if parts.declared.params.isEmpty then inferenceRecords pathname parts.signature.formals
        else []
      match parts.params with
      | .ok ps =>
          inferred ++
            [record ("Parsed definition " ++ pathname ++ ": " ++ toString ps.length ++
              " parameter(s)")]
      | .error _ => inferred

end Docsig.Definition
