import Docsig.Json.Reader
import Docsig.Text.Base64
import Docsig.Text.Blank
import Docsig.Types.Classify

/-!
Values from texts.

`convert` reads a text as a value of a type. Numbers are decimal numerals: an
integer keeps its exact value however it is written, any other numeral becomes
the nearest double. Objects, arrays and bytes are read from JSON.

What the steps are built from can fail as well: there is no arithmetic on what is
no number, and a byte is not made of any other value. `Fault.isReported` says which
faults are raised as those of a conversion.
-/

namespace Docsig.Conversion

inductive Fault where
  | notText (type : String) (found : Value)
  | unknownType (type : String)
  | emptyNumeral (type : String)
  | invalidNumeral (type : String) (text : String)
  | nonFinite (type : String) (text : String)
  | outOfRange (type : String) (text : String)
  | invalidBoolean (text : String)
  | json (type : String) (fault : Json.Fault)
  | notObject (type : String)
  | notArray (type : String)
  | bufferShape
  | bufferFields
  | bufferItems
  | bufferText
  | base64 (fault : Text.Base64.Fault)
  /-- Arithmetic on a numeral that is no number. -/
  | noNumber
  /-- A byte made of a value that is none. -/
  | noByte (found : Value)
  deriving Repr

def Fault.message : Fault → String
  | notText type found =>
      "Only strings can be converted, got " ++ found.kindName ++ " for type '" ++ type ++ "'"
  | unknownType type => "Unknown type: '" ++ type ++ "'"
  | emptyNumeral type => "Empty numeric value for type '" ++ type ++ "'"
  | invalidNumeral type text =>
      "Invalid numeric value '" ++ text ++ "' for type '" ++ type ++ "'"
  | nonFinite type text => "Non-finite numeric value '" ++ text ++ "' for type '" ++ type ++ "'"
  | outOfRange type text =>
      "Numeric value '" ++ text ++ "' is out of range for type '" ++ type ++ "'"
  | invalidBoolean text =>
      "Invalid boolean value '" ++ text ++ "'. Expected one of: t, true, f, false"
  | json type fault => "Invalid JSON for type '" ++ type ++ "': " ++ fault.message
  | notObject type => "Expected a JSON object for type '" ++ type ++ "'"
  | notArray type => "Expected a JSON array for type '" ++ type ++ "'"
  | bufferShape => "Buffer must be encoded as an object with '_bytes' or '_base64'"
  | bufferFields => "Buffer object must contain exactly one of '_bytes' or '_base64'"
  | bufferItems => "'_bytes' must be a list of integers between 0 and 255"
  | bufferText => "'_base64' must be a string"
  | base64 fault => "Invalid base64 data in '_base64': " ++ fault.message
  | noNumber => "Arithmetic on a value that is no number"
  | noByte found => "Not a byte: " ++ found.display

/-- Whether a fault is raised as one of a conversion. A base64 text that is not ASCII comes
up as it is met, and so would arithmetic on what is no number and a value that is no byte. -/
def Fault.isReported : Fault → Bool
  | base64 .notAscii => false
  | noNumber => false
  | noByte _ => false
  | _ => true

/-! ### Numbers -/

/-- The numeral that a text writes, white space around it allowed. -/
def numeral (type : Tag) (s : String) : Except Fault Numeral :=
  let cs := Text.trim s.toList
  if cs.isEmpty then .error (.emptyNumeral type.name)
  else
    match Numeral.read? cs with
    | none => .error (.invalidNumeral type.name s)
    | some .nonFinite => .error (.nonFinite type.name s)
    | some n => .ok n

/-- The integer that is the value of a number, if one is. -/
def wholeNumber : Numeral → Except Fault (Option Int)
  | .nonFinite => .error .noNumber
  | n => .ok n.integer?

/-- The double nearest to a number, unless it is infinite. -/
def nearestDouble (type : Tag) (s : String) : Numeral → Except Fault Value
  | .nonFinite => .error .noNumber
  | n => if n.toDouble.isFinite then .ok (.float n.toDouble) else .error (.outOfRange type.name s)

def number (type : Tag) (s : String) : Except Fault Value := do
  let n ← numeral type s
  nearestDouble type s n

/-- Reads an integer exactly, and any other number as a double. -/
def integer (s : String) : Except Fault Value := do
  let n ← numeral .integer s
  match ← wholeNumber n with
  | some i => return .int i
  | none => nearestDouble .integer s n

/-! ### Truth values -/

/-- Reads a truth value, in any case. -/
def boolean (s : String) : Except Fault Value :=
  let word := Numeral.lowered (Text.trim s.toList)
  if word == "t".toList || word == "true".toList then .ok (.bool true)
  else if word == "f".toList || word == "false".toList then .ok (.bool false)
  else .error (.invalidBoolean s)

/-! ### JSON -/

def document (type : Tag) (s : String) : Except Fault Value :=
  match Json.read s.toList with
  | .ok v => .ok v
  | .error fault => .error (.json type.name fault)

def object (type : Tag) (s : String) : Except Fault Value := do
  let v ← document type s
  if v.isObject then return v else throw (.notObject type.name)

def array (s : String) : Except Fault Value := do
  let v ← document .array s
  if v.isArray then return v else throw (.notArray Tag.array.name)

/-- Whether a value is an integer from 0 to 255, as a double too. -/
def isByte (v : Value) : Bool :=
  v.isInteger &&
    match v with
    | .int n => 0 ≤ n && n ≤ 255
    | .float d => !d.ltInt 0 && !d.gtInt 255
    | _ => false

/-- The integer that is the value of a number. -/
def integerOf? : Value → Option Int
  | .int n => some n
  | .float d => d.integer?
  | _ => none

/-- The byte with the value of a number. -/
def byteOf (v : Value) : Except Fault UInt8 :=
  match integerOf? v with
  | some n => if 0 ≤ n ∧ n ≤ 255 then .ok (UInt8.ofNat n.toNat) else .error (.noByte v)
  | none => .error (.noByte v)

/-- The bytes that a value lists. -/
def listedBytes : Value → Except Fault Value
  | .seq .list items =>
      if items.all isByte then do
        let data ← items.mapM byteOf
        return .bytes .fixed data
      else .error .bufferItems
  | _ => .error .bufferItems

/-- The bytes that a value encodes as text. -/
def encodedBytes : Value → Except Fault Value
  | .text s =>
      match Text.Base64.decode s.toList with
      | .ok data => .ok (.bytes .fixed data)
      | .error fault => .error (.base64 fault)
  | _ => .error .bufferText

/-- Reads bytes from an object with one of the two encodings. -/
def buffer (s : String) : Except Fault Value := do
  match ← document .buffer s with
  | .map _ fields =>
      match Value.field? "_bytes" fields, Value.field? "_base64" fields with
      | some listed, none => listedBytes listed
      | none, some encoded => encodedBytes encoded
      | _, _ => throw .bufferFields
  | _ => throw .bufferShape

/-- Reads a text as a value of a type. -/
def ofText (type : Tag) (s : String) : Except Fault Value :=
  match type with
  | .string | .enum | .any => .ok (.text s)
  | .number | .float => number type s
  | .integer => integer s
  | .boolean => boolean s
  | .object | .query | .limit => object type s
  | .array => array s
  | .buffer => buffer s

end Docsig.Conversion

namespace Docsig

/-- Converts a value, which has to be a text, to the type with a name. -/
def convert (type : String) (v : Value) : Except Conversion.Fault Value :=
  match v with
  | .text s =>
      match Tag.ofName? type with
      | some tag => Conversion.ofText tag s
      | none => .error (.unknownType type)
  | _ => .error (.notText type v)

end Docsig
