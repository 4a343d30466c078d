import Docsig.Code.Token

/-!
Quoted texts in source files.

A text stands between single or tripled marks, with letters in front that say
how to read it. A backslash keeps the character after it from ending the text,
in raw texts too. Only a text between tripled marks runs over several lines.
-/

namespace Docsig.Code.Lexer

def isQuote (c : Char) : Bool := c = '"' || c.toNat = 0x27

/-- The marks that a letter adds; none if the letter cannot stand there. -/
def addMark? (marks : TextMarks) (letter : Char) : Option TextMarks :=
  let c := letter.toLower
  if c = 'b' && !(marks.bytes || marks.unicode || marks.formatted) then
    some { marks with bytes := true }
  else if c = 'u' && !(marks.bytes || marks.unicode || marks.raw || marks.formatted) then
    some { marks with unicode := true }
  else if c = 'r' && !(marks.raw || marks.unicode) then some { marks with raw := true }
  else if c = 'f' && !(marks.formatted || marks.bytes || marks.unicode) then
    some { marks with formatted := true }
  else none

/-- The letters in front of a text that opens after them, with their number. -/
def textMarks? (cs : List Char) : Option (TextMarks × Nat) :=
  match cs with
  | a :: b :: c :: _ =>
      if isQuote a then some ({}, 0)
      else if isQuote b then (addMark? {} a).map fun m => (m, 1)
      else if isQuote c then ((addMark? {} a).bind fun m => addMark? m b).map fun m => (m, 2)
      else none
  | [a, b] =>
      if isQuote a then some ({}, 0)
      else if isQuote b then (addMark? {} a).map fun m => (m, 1)
      else none
  | [a] => if isQuote a then some ({}, 0) else none
  | [] => none

/-- The body of a text up to its closing mark, and the rest after it; none if
the mark is missing. -/
def bodyUpTo? (quote : Char) (triple : Bool) : List Char → Option (List Char × List Char)
  | [] => none
  | '\\' :: c :: cs => (bodyUpTo? quote triple cs).map fun (body, rest) => ('\\' :: c :: body, rest)
  | c :: cs =>
      if c = quote && (!triple || cs.take 2 = [quote, quote]) then
        some ([], if triple then cs.drop 2 else cs)
      else if c = '\n' && !triple then none
      else (bodyUpTo? quote triple cs).map fun (body, rest) => (c :: body, rest)

/-- A quoted text: its body, the width of its opening mark, and the rest. -/
def quotation? (cs : List Char) : Option (List Char × Nat × List Char) :=
  match cs with
  | quote :: rest =>
      if rest.take 2 = [quote, quote] then
        (bodyUpTo? quote true (rest.drop 2)).map fun (body, rest) => (body, 3, rest)
      else (bodyUpTo? quote false rest).map fun (body, rest) => (body, 1, rest)
  | [] => none

end Docsig.Code.Lexer
