import Docsig.Text.Digit

/-!
Escapes in quoted texts of source files.

A backslash at a line's end joins the lines; with a letter or digits it stands
for a character; in front of anything else it stands for itself.

Two escapes of the language are malformed here: characters by name, of which there is no
table, and halves of surrogate pairs, which no text holds.
-/

namespace Docsig.Code.Escape

/-- The value of an octal digit. -/
def octalDigit? (c : Char) : Option Nat := (Text.hexDigit? c).filter (· < 8)

/-- The character that a backslash and one letter stand for. -/
def letter? (c : Char) : Option Char :=
  if c = '\\' || c = '"' || c.toNat = 0x27 then some c
  else if c = 'a' then some (Char.ofNat 7)
  else if c = 'b' then some (Char.ofNat 8)
  else if c = 'f' then some (Char.ofNat 12)
  else if c = 'n' then some '\n'
  else if c = 'r' then some '\r'
  else if c = 't' then some '\t'
  else if c = 'v' then some (Char.ofNat 11)
  else none

/-- The number of hexadecimal digits after a letter that takes some; `wide` if
code points beyond a byte can be written. -/
def hexWidth? (wide : Bool) (c : Char) : Option Nat :=
  if c = 'x' then some 2
  else if wide && c = 'u' then some 4
  else if wide && c = 'U' then some 8
  else none

/-- What is due to be read. -/
inductive Pending where
  | nothing
  /-- A backslash has been read. -/
  | escape
  /-- Octal digits: how many more there may be, and the number so far. -/
  | octal (more : Nat) (value : Nat)
  /-- Hexadecimal digits: how many more there have to be, and the number so far. -/
  | hex (more : Nat) (value : Nat)
  deriving Repr

/-- Whether a number is that of a character. -/
def isScalar (n : Nat) : Bool := n < 0xD800 || (0xDFFF < n && n < 0x110000)

/-- Decodes a body to code points; `wide` in texts, whose characters may lie beyond
a byte. None if digits are missing or a character is named. -/
def decodeFrom (wide : Bool) : Pending → List Char → Option (List Nat)
  | .nothing, [] => some []
  | .escape, [] => some ['\\'.toNat]
  | .octal _ value, [] => some [value]
  | .hex _ _, [] => none
  | .nothing, c :: cs =>
      if c = '\\' then decodeFrom wide .escape cs
      else (decodeFrom wide .nothing cs).map (c.toNat :: ·)
  | .escape, c :: cs =>
      if c = '\n' then decodeFrom wide .nothing cs
      else
        match letter? c, octalDigit? c, hexWidth? wide c with
        | some x, _, _ => (decodeFrom wide .nothing cs).map (x.toNat :: ·)
        | none, some d, _ => decodeFrom wide (.octal 2 d) cs
        | none, none, some count => decodeFrom wide (.hex count 0) cs
        | none, none, none =>
            if wide && c = 'N' then none
            else (decodeFrom wide .nothing cs).map fun ns => '\\'.toNat :: c.toNat :: ns
  | .octal more value, c :: cs =>
      match octalDigit? c with
      | some d =>
          if more ≤ 1 then (decodeFrom wide .nothing cs).map ((value * 8 + d) :: ·)
          else decodeFrom wide (.octal (more - 1) (value * 8 + d)) cs
      | none =>
          if c = '\\' then (decodeFrom wide .escape cs).map (value :: ·)
          else (decodeFrom wide .nothing cs).map fun ns => value :: c.toNat :: ns
  | .hex more value, c :: cs =>
      match Text.hexDigit? c with
      | some d =>
          if more ≤ 1 then
            if isScalar (value * 16 + d) then
              (decodeFrom wide .nothing cs).map ((value * 16 + d) :: ·)
            else none
          else decodeFrom wide (.hex (more - 1) (value * 16 + d)) cs
      | none => none

/-- The text that a body stands for. -/
def text? (raw : Bool) (body : List Char) : Option (List Char) :=
  if raw then some body else (decodeFrom true .nothing body).map (·.map Char.ofNat)

/-- The bytes that a body of ASCII characters stands for. -/
def bytes? (raw : Bool) (body : List Char) : Option (List UInt8) :=
  if raw then some (body.map fun c => UInt8.ofNat c.toNat)
  else (decodeFrom false .nothing body).map (·.map UInt8.ofNat)

end Docsig.Code.Escape
