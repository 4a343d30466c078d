import Docsig.Number.Rounding
import Docsig.Number.Numeral
import Docsig.Text.Digit
import Docsig.Value.Equality

/-!
Reading JSON text.

`read` gives the value of a document or the first fault. Numbers without a
fraction and an exponent are integers, all others doubles; the names of the
infinities and of "not a number" are numbers too. A repeated key keeps its first
place and takes its last value.

Halves of surrogate pairs that stand alone become the replacement character, so that keys
which only differ in them are one key here. There is no bound on the digits of an integer or
on how deep a document is nested.
-/

namespace Docsig.Json

/-! ### Faults -/

inductive Fault where
  | byteOrderMark
  | value
  | propertyName
  | colon
  | comma
  | extraData
  | unterminated
  | controlCharacter
  | escape
  | unicodeEscape
  deriving DecidableEq, Repr

def Fault.message : Fault → String
  | .byteOrderMark => "Unexpected UTF-8 BOM (decode using utf-8-sig)"
  | .value => "Expecting value"
  | .propertyName => "Expecting property name enclosed in double quotes"
  | .colon => "Expecting ':' delimiter"
  | .comma => "Expecting ',' delimiter"
  | .extraData => "Extra data"
  | .unterminated => "Unterminated string starting at"
  | .controlCharacter => "Invalid control character at"
  | .escape => "Invalid \\escape"
  | .unicodeEscape => "Invalid \\uXXXX escape"

/-! ### White space -/

def isSpace (c : Char) : Bool := c = ' ' || c = '\t' || c = '\n' || c = '\r'

/-- A text without the white space at its start. -/
def skipSpace (cs : List Char) : List Char := cs.dropWhile isSpace

/-! ### Texts -/

/-- The number that four hexadecimal digits write. -/
def fourHex? (a b c d : Char) : Option Nat := do
  let a ← Text.hexDigit? a
  let b ← Text.hexDigit? b
  let c ← Text.hexDigit? c
  let d ← Text.hexDigit? d
  return ((a * 16 + b) * 16 + c) * 16 + d

def isHighSurrogate (n : Nat) : Bool := 0xD800 ≤ n && n ≤ 0xDBFF

def isLowSurrogate (n : Nat) : Bool := 0xDC00 ≤ n && n ≤ 0xDFFF

/-- The character of a code point; a lone half of a pair is replaced. -/
def unitChar (n : Nat) : Char :=
  if isHighSurrogate n || isLowSurrogate n then Char.ofNat 0xFFFD else Char.ofNat n

def pairChar (high low : Nat) : Char :=
  Char.ofNat (0x10000 + (high - 0xD800) * 0x400 + (low - 0xDC00))

/-- The character that an escape with one letter stands for. -/
def simpleEscape? (c : Char) : Option Char :=
  if c = '"' || c = '\\' || c = '/' then some c
  else if c = 'b' then some (Char.ofNat 8)
  else if c = 'f' then some (Char.ofNat 12)
  else if c = 'n' then some '\n'
  else if c = 'r' then some '\r'
  else if c = 't' then some '\t'
  else none

/-- Reads a text after its opening mark as UTF-16 units and code points; `done`
holds them, last first. An escape by number needs a character after it. -/
def readUnits (done : List Nat) : List Char → Except Fault (List Nat × List Char)
  | [] => .error .unterminated
  | '"' :: cs => .ok (done.reverse, cs)
  | ['\\'] => .error .unterminated
  | '\\' :: 'u' :: a :: b :: c :: d :: cs =>
      if cs.isEmpty then .error .unicodeEscape
      else
        match fourHex? a b c d with
        | some n => readUnits (n :: done) cs
        | none => .error .unicodeEscape
  | '\\' :: 'u' :: _ => .error .unicodeEscape
  | '\\' :: c :: cs =>
      match simpleEscape? c with
      | some x => readUnits (x.toNat :: done) cs
      | none => .error .escape
  | c :: cs => if c.toNat < 32 then .error .controlCharacter else readUnits (c.toNat :: done) cs

/-- The characters of units and code points, surrogate pairs joined. -/
def joinUnits : List Nat → List Char
  | [] => []
  | [n] => [unitChar n]
  | n :: m :: rest =>
      if isHighSurrogate n && isLowSurrogate m then pairChar n m :: joinUnits rest
      else unitChar n :: joinUnits (m :: rest)

/-- Reads a text after its opening mark. -/
def readText (cs : List Char) : Except Fault (List Char × List Char) := do
  let (units, rest) ← readUnits [] cs
  return (joinUnits units, rest)

/-! ### Numbers -/

def spanDigits (cs : List Char) : List Nat × List Char :=
  (cs.takeWhile Char.isDigit |>.filterMap Text.asciiDigit?, cs.dropWhile Char.isDigit)

/-- The fraction at the start of a text, if a digit follows the point. -/
def takeFraction : List Char → List Nat × List Char
  | '.' :: cs =>
      let (ds, rest) := spanDigits cs
      if ds.isEmpty then ([], '.' :: cs) else (ds, rest)
  | cs => ([], cs)

/-- The exponent at the start of a text, if it has a digit. -/
def takeExponent : List Char → Option Int × List Char
  | c :: cs =>
      if c = 'e' || c = 'E' then
        let (negative, digits) := takeSign cs
        let (ds, rest) := spanDigits digits
        if ds.isEmpty then (none, c :: cs)
        else (some (Double.signed negative (ofDigits 10 ds)), rest)
      else (none, c :: cs)
  | [] => (none, [])

/-- The digits of a whole number: a lone zero or digits without a leading one. -/
def takeWhole? : List Char → Option (List Nat × List Char)
  | '0' :: cs => some ([0], cs)
  | cs =>
      let (ds, rest) := spanDigits cs
      if ds.isEmpty then none else some (ds, rest)

/-- The longest number at the start of a text. -/
def takeNumber? (negative : Bool) (cs : List Char) : Option (Value × List Char) := do
  let (whole, rest) ← takeWhole? cs
  let (fraction, rest) := takeFraction rest
  let (exponent, rest) := takeExponent rest
  if fraction.isEmpty && exponent.isNone then
    return (.int (Double.signed negative (ofDigits 10 whole)), rest)
  else
    let shift := exponent.getD 0 - fraction.length
    return (.float (.ofDecimal negative (ofDigits 10 (whole ++ fraction)) shift), rest)

/-- The words that stand for values, with those values. -/
def words : List (List Char × Value) :=
  [("null".toList, .null), ("true".toList, .bool true), ("false".toList, .bool false),
    ("NaN".toList, .float .nan), ("Infinity".toList, .float (.infinite false)),
    ("-Infinity".toList, .float (.infinite true))]

/-- A word at the start of a text. -/
def takeWord? (cs : List Char) : Option (Value × List Char) :=
  (words.find? fun w => w.1.isPrefixOf cs).map fun w => (w.2, cs.drop w.1.length)

/-- A scalar other than a text at the start of a text. -/
def takeScalar? (cs : List Char) : Option (Value × List Char) :=
  match takeWord? cs with
  | some found => some found
  | none =>
      match cs with
      | '-' :: digits => takeNumber? true digits
      | _ => takeNumber? false cs

/-! ### Documents

The readers descend with a bound on the number of values still to be opened,
which the length of the text provides. -/

mutual

/-- Reads a value at the start of a text. -/
def readValue : Nat → List Char → Except Fault (Value × List Char)
  | 0, _ => .error .value
  | fuel + 1, cs =>
      match cs with
      | '"' :: cs => do
          let (s, rest) ← readText cs
          return (.text (String.ofList s), rest)
      | '[' :: cs =>
          match skipSpace cs with
          | ']' :: rest => .ok (.list [], rest)
          | cs => do
              let (xs, rest) ← readItems fuel cs
              return (.list xs, rest)
      | '\x7b' :: cs =>
          match skipSpace cs with
          | '\x7d' :: rest => .ok (.dict [], rest)
          | cs => do
              let (es, rest) ← readEntries fuel cs
              return (.dict (Value.ofEntries es), rest)
      | _ =>
          match takeScalar? cs with
          | some found => .ok found
          | none => .error .value

/-- Reads the items of a list up to its closing bracket. -/
def readItems : Nat → List Char → Except Fault (List Value × List Char)
  | 0, _ => .error .value
  | fuel + 1, cs => do
      let (x, rest) ← readValue fuel cs
      match skipSpace rest with
      | ']' :: rest => return ([x], rest)
      | ',' :: rest =>
          let (xs, rest) ← readItems fuel (skipSpace rest)
          return (x :: xs, rest)
      | _ => throw .comma

/-- Reads the entries of an object up to its closing brace. -/
def readEntries : Nat → List Char → Except Fault (List (Value × Value) × List Char)
  | 0, _ => .error .value
  | fuel + 1, cs =>
      match cs with
      | '"' :: cs => do
          let (key, rest) ← readText cs
          match skipSpace rest with
          | ':' :: rest =>
              let (x, rest) ← readValue fuel (skipSpace rest)
              let entry := (Value.text (String.ofList key), x)
              match skipSpace rest with
              | '\x7d' :: rest => return ([entry], rest)
              | ',' :: rest =>
                  let (es, rest) ← readEntries fuel (skipSpace rest)
                  return (entry :: es, rest)
              | _ => throw .comma
          | _ => throw .colon
      | _ => .error .propertyName

end

/-- The value of a JSON document, or its first fault. -/
def read (cs : List Char) : Except Fault Value :=
  if cs.head? = some (Char.ofNat 0xFEFF) then .error .byteOrderMark
  else do
    let (v, rest) ← readValue (2 * cs.length + 1) (skipSpace cs)
    if (skipSpace rest).isEmpty then return v else throw .extraData

end Docsig.Json
