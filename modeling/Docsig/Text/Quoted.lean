import Docsig.Text.Digit
import Docsig.Text.Printable

/-!
Quoted text, the form in which messages show texts and bytes.

The quotation mark is the single one, unless the text holds it and no double
one. The mark and the backslash are escaped; tab, line feed and carriage return
have escapes of their own; every other character that cannot be printed is
written by its code point.
-/

namespace Docsig.Text

def singleMark : Char := Char.ofNat 0x27

def doubleMark : Char := Char.ofNat 0x22

/-- The mark that encloses a text. -/
def quoteMark (cs : List Char) : Char :=
  if cs.contains singleMark && !cs.contains doubleMark then doubleMark else singleMark

/-- A code point by its number: two hexadecimal digits, four or eight. -/
def codeEscape (n : Nat) : List Char :=
  if n < 0x100 then '\\' :: 'x' :: hexDigits 2 n
  else if n < 0x10000 then '\\' :: 'u' :: hexDigits 4 n
  else '\\' :: 'U' :: hexDigits 8 n

/-- A character that is escaped in the same way inside every quotation. -/
def controlEscape? (c : Char) : Option (List Char) :=
  if c = '\t' then some ['\\', 't']
  else if c = '\n' then some ['\\', 'n']
  else if c = '\r' then some ['\\', 'r']
  else none

/-- A character inside a quotation with the given mark. -/
def quoteChar (mark c : Char) : List Char :=
  if c = mark || c = '\\' then ['\\', c]
  else (controlEscape? c).getD (if isPrintable c then [c] else codeEscape c.toNat)

def quote (cs : List Char) : List Char :=
  let mark := quoteMark cs
  mark :: (cs.flatMap (quoteChar mark) ++ [mark])

/-- `quote` on strings. -/
def quoted (s : String) : String := String.ofList (quote s.toList)

/-- A byte inside a quotation: like the character with its number, but nothing
beyond ASCII is printed. -/
def quoteByte (mark : Char) (b : UInt8) : List Char :=
  if 127 ≤ b.toNat then codeEscape b.toNat else quoteChar mark (Char.ofNat b.toNat)

/-- Bytes in quotation marks, after a letter that tells them from text. -/
def quoteBytes (bytes : List UInt8) : List Char :=
  let mark := quoteMark (bytes.map fun b => Char.ofNat b.toNat)
  'b' :: mark :: (bytes.flatMap (quoteByte mark) ++ [mark])

end Docsig.Text
