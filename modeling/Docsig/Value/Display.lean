import Docsig.Number.Shortest
import Docsig.Text.Quoted
import Docsig.Value.Basic

/-!
The text of a value in messages.

Texts and bytes are quoted, lists stand in brackets, tuples in parentheses with
a comma after a lone item, maps in braces.
-/

namespace Docsig.Value

/-- A map's braces cannot stand in interpolated text. -/
def openBrace : String := "\x7b"

def closeBrace : String := "\x7d"

/-- Texts with a separator between them. -/
def joined (separator : String) (parts : List String) : String :=
  String.intercalate separator parts

def displayBytes (kind : BytesKind) (data : List UInt8) : String :=
  let quotedBytes := String.ofList (Text.quoteBytes data)
  match kind with
  | .fixed => quotedBytes
  | .growable => "bytearray(" ++ quotedBytes ++ ")"

/-- The text of a sequence whose items have these texts. -/
def displaySeq (kind : SeqKind) (items : List String) : String :=
  match kind, items with
  | .list, _ => "[" ++ joined ", " items ++ "]"
  | .tuple, [item] => "(" ++ item ++ ",)"
  | .tuple, _ => "(" ++ joined ", " items ++ ")"

/-- The text of a map whose entries have these texts. -/
def displayMap (kind : MapKind) (entries : List String) : String :=
  let braces := openBrace ++ joined ", " entries ++ closeBrace
  match kind with
  | .dict => braces
  | .frozen => "mappingproxy(" ++ braces ++ ")"

mutual

def display : Value → String
  | null => "None"
  | bool b => if b then "True" else "False"
  | int n => toString n
  | float d => d.text
  | text s => Text.quoted s
  | bytes kind data => displayBytes kind data
  | seq kind xs => displaySeq kind (displayAll xs)
  | map kind es => displayMap kind (displayEntries es)

def displayAll : List Value → List String
  | [] => []
  | x :: xs => display x :: displayAll xs

def displayEntries : List (Value × Value) → List String
  | [] => []
  | (k, x) :: es => (display k ++ ": " ++ display x) :: displayEntries es

end

/-- The text of a list of texts, each quoted. -/
def displayTexts (texts : List String) : String :=
  displaySeq .list (texts.map Text.quoted)

end Docsig.Value
