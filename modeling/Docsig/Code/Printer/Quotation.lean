import Docsig.Text.Quoted

/-!
Quotation marks for texts that should hold few escapes.

Each literal part of a text narrows the marks that the whole text can stand
between: a mark that occurs inside cannot be used, and a line end asks for a
tripled one. Where no mark is left, the text is escaped as in messages.
-/

namespace Docsig.Code.Quotation

/-- The marks, the preferred ones first. -/
def allMarks : List (List Char) :=
  [[Text.singleMark], [Text.doubleMark], List.replicate 3 Text.doubleMark,
    List.replicate 3 Text.singleMark]

/-- A character by its escape: a backslash, or what cannot be printed. -/
def escaped (c : Char) : List Char :=
  if c = '\\' then ['\\', '\\'] else (Text.controlEscape? c).getD (Text.codeEscape c.toNat)

/-- A character of a text; line ends and tabs stay as they are unless `spaces`
are escaped too. -/
def writeChar (spaces : Bool) (c : Char) : List Char :=
  if !spaces && (c = '\n' || c = '\t') then [c]
  else if c = '\\' || !Text.isPrintable c then escaped c
  else [c]

/-- Whether a text occurs in another. -/
def occursIn (part : List Char) : List Char → Bool
  | [] => part.isEmpty
  | c :: cs => part.isPrefixOf (c :: cs) || occursIn part cs

/-- The first of some marks that starts with a character, or the lone character. -/
def markWith (marks : List (List Char)) (c : Char) : List Char :=
  (marks.find? fun m => m.contains c).getD [c]

/-- Marks that do not start with a text's last character, and then the others. -/
def preferred (last : Char) (marks : List (List Char)) : List (List Char) :=
  (marks.filter fun m => m.head? ≠ some last) ++ marks.filter fun m => m.head? = some last

/-- A text with a backslash in front of its last character. -/
def escapeLast (cs : List Char) : List Char :=
  match cs.getLast? with
  | some last => cs.dropLast ++ ['\\', last]
  | none => []

/-- The written form of a part of a text, and the marks of `marks` that it can
stand between. -/
def narrow (spaces : Bool) (marks : List (List Char)) (cs : List Char) :
    List Char × List (List Char) :=
  let written := cs.flatMap (writeChar spaces)
  let possible := if written.contains '\n' then marks.filter fun m => 3 ≤ m.length else marks
  let possible := possible.filter fun m => !occursIn m written
  match possible, written.getLast? with
  | [], _ =>
      let quoted := Text.quote cs
      ((quoted.drop 1).dropLast, [markWith marks (quoted.headD Text.singleMark)])
  | possible, none => (written, possible)
  | possible, some last =>
      let possible := preferred last possible
      if (possible.headD []).head? = some last then (escapeLast written, possible)
      else (written, possible)

/-- A text between the first of some marks. -/
def enclose (marks : List (List Char)) (cs : List Char) : List Char :=
  let mark := marks.headD [Text.singleMark]
  mark ++ cs ++ mark

/-- A text with as few escapes as can be. -/
def plain (cs : List Char) : List Char :=
  let (written, marks) := narrow false allMarks cs
  enclose marks written

/-- Parts of a text, each marked if it is a literal, narrowed one after the
other. -/
def narrowAll (marks : List (List Char)) : List (List Char × Bool) →
    List Char × List (List Char)
  | [] => ([], marks)
  | (part, isLiteral) :: rest =>
      let (written, marks) := narrow isLiteral marks part
      let (more, marks) := narrowAll marks rest
      (written ++ more, marks)

/-- A text of parts. In literal parts line ends and tabs are escaped. -/
def ofParts (parts : List (List Char × Bool)) : List Char :=
  let (written, marks) := narrowAll allMarks parts
  enclose marks written

end Docsig.Code.Quotation
