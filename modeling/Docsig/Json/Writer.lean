import Docsig.Number.Shortest
import Docsig.Text.Base64
import Docsig.Text.Digit
import Docsig.Value.Basic

/-!
JSON text of values.

Items are separated by a comma and a space, keys from values by a colon and a
space. Text stays within ASCII: every other character is written by its UTF-16
units. Bytes are written as an object with their base64 text. Keys that are
scalars are written as texts; other keys have no JSON text.

There is no bound on the digits of an integer or on how deep a value is nested.
-/

namespace Docsig.Json

/-! ### Texts -/

/-- One UTF-16 unit, by its number. -/
def unitEscape (n : Nat) : List Char := '\\' :: 'u' :: Text.hexDigits 4 n

/-- A character by its UTF-16 units. -/
def unicodeEscape (c : Char) : List Char :=
  let n := c.toNat
  if n < 0x10000 then unitEscape n
  else unitEscape (0xD800 + (n - 0x10000) / 0x400) ++ unitEscape (0xDC00 + (n - 0x10000) % 0x400)

def escapeChar (c : Char) : List Char :=
  if c = '"' then ['\\', '"']
  else if c = '\\' then ['\\', '\\']
  else if c = '\n' then ['\\', 'n']
  else if c = '\r' then ['\\', 'r']
  else if c = '\t' then ['\\', 't']
  else if c.toNat = 12 then ['\\', 'f']
  else if c.toNat = 8 then ['\\', 'b']
  else if 32 ≤ c.toNat && c.toNat < 127 then [c]
  else unicodeEscape c

def writeText (cs : List Char) : List Char := '"' :: (cs.flatMap escapeChar ++ ['"'])

/-! ### Scalars -/

def writeInt (n : Int) : List Char :=
  if n < 0 then '-' :: Nat.toDigits 10 n.natAbs else Nat.toDigits 10 n.natAbs

/-- A double; the values that are no numbers are named. -/
def writeDouble : Double → List Char
  | .nan => "NaN".toList
  | .infinite s => if s then "-Infinity".toList else "Infinity".toList
  | d => d.textIn .real

def writeBool (b : Bool) : List Char := if b then "true".toList else "false".toList

/-- The object that stands for bytes. -/
def writeBytes (data : List UInt8) : List Char :=
  '\x7b' ::
    (writeText "_base64".toList ++
      ':' :: ' ' :: (writeText (Text.Base64.encode data) ++ ['\x7d']))

/-! ### Values -/

/-- A key that cannot be written: it is neither text nor another scalar. -/
structure KeyFault where
  key : Value
  deriving Repr

/-- The text that a key is written as. -/
def keyText : Value → Except KeyFault (List Char)
  | .text s => .ok s.toList
  | .int n => .ok (writeInt n)
  | .bool b => .ok (writeBool b)
  | .null => .ok "null".toList
  | .float d => .ok (writeDouble d)
  | key => .error ⟨key⟩

/-- Parts with a comma and a space between them. -/
def commaSeparated : List (List Char) → List Char
  | [] => []
  | [part] => part
  | part :: parts => part ++ ',' :: ' ' :: commaSeparated parts

mutual

def write : Value → Except KeyFault (List Char)
  | .null => .ok "null".toList
  | .bool b => .ok (writeBool b)
  | .int n => .ok (writeInt n)
  | .float d => .ok (writeDouble d)
  | .text s => .ok (writeText s.toList)
  | .bytes _ data => .ok (writeBytes data)
  | .seq _ xs => do
      let parts ← writeItems xs
      return '[' :: (commaSeparated parts ++ [']'])
  | .map _ es => do
      let parts ← writeEntries es
      return '\x7b' :: (commaSeparated parts ++ ['\x7d'])

def writeItems : List Value → Except KeyFault (List (List Char))
  | [] => .ok []
  | x :: xs => do
      let part ← write x
      let parts ← writeItems xs
      return part :: parts

def writeEntries : List (Value × Value) → Except KeyFault (List (List Char))
  | [] => .ok []
  | (k, x) :: es => do
      let key ← keyText k
      let part ← write x
      let parts ← writeEntries es
      return (writeText key ++ ':' :: ' ' :: part) :: parts

end

/-- `write` on strings. -/
def text (v : Value) : Except KeyFault String := (write v).map String.ofList

end Docsig.Json
