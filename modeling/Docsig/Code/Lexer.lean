import Docsig.Code.Lexer.Number
import Docsig.Code.Lexer.Quotation
import Docsig.Text.Identifier
import Docsig.Text.Printable
import Docsig.Text.Utf8

/-!
From text to tokens.

Layout counts outside brackets: a line end is a token, and so is every change of
the indentation. Blank lines and comments leave no token. Indentation is
measured twice, with tab stops of eight and of one column, and the two measures
have to agree. `tokens` reads a whole source, whose lines end with line feeds
alone.

A name is kept in the letters it is written in. Spellings of a name that are only equal in the
compatible forms of Unicode, such as one with a ligature, are names of their own here.
-/

namespace Docsig.Code.Lexer

/-! ### Places -/

def advance (p : Place) : List Char → Place
  | [] => p
  | c :: cs =>
      advance (if c = '\n' then ⟨p.line + 1, 0⟩ else ⟨p.line, p.column + Text.Utf8.width c⟩) cs

/-- Where reading stands. -/
structure Cursor where
  rest : List Char
  place : Place
  deriving Repr, Inhabited

/-- The cursor after some characters, where `rest` is left. -/
def Cursor.past (c : Cursor) (consumed rest : List Char) : Cursor :=
  ⟨rest, advance c.place consumed⟩

def Cursor.drop (c : Cursor) (count : Nat) : Cursor :=
  c.past (c.rest.take count) (c.rest.drop count)

/-- The line that the end of a source belongs to: an empty last line does not
count. -/
def Cursor.endLine (c : Cursor) : Nat :=
  if c.place.column = 0 then max 1 (c.place.line - 1) else c.place.line

/-! ### Layout -/

/-- The open indentations, each by its two measures, and the open brackets, each
with its line; innermost first. -/
structure Layout where
  indents : List (Nat × Nat)
  brackets : List (Char × Nat)
  deriving Repr, Inhabited

def maxIndents : Nat := 100

def maxBrackets : Nat := 200

/-- The innermost indentation. -/
def Layout.indent (l : Layout) : Nat × Nat := l.indents.headD (0, 0)

/-- Closes indentations down to a measure: how many, and what is left. -/
def closeIndents (width : Nat) : List (Nat × Nat) → Nat × List (Nat × Nat)
  | [] => (0, [])
  | top :: rest =>
      if width < top.1 then
        let (count, left) := closeIndents width rest
        (count + 1, left)
      else (0, top :: rest)

/-- The change of indentation at the start of a line. -/
inductive Shift where
  | stay
  | deeper
  | back (count : Nat)
  deriving DecidableEq, Repr

/-- The layout after the start of a line with two measures, and the change; none
if they fit no open indentation. -/
def Layout.shift? (l : Layout) (width narrow : Nat) : Option (Shift × Layout) :=
  let (top, topNarrow) := l.indent
  if width = top then if narrow = topNarrow then some (.stay, l) else none
  else if top < width then
    if maxIndents ≤ l.indents.length + 1 || narrow ≤ topNarrow then none
    else some (.deeper, { l with indents := (width, narrow) :: l.indents })
  else
    let (count, left) := closeIndents width l.indents
    let l := { l with indents := left }
    if l.indent = (width, narrow) then some (.back count, l) else none

def closing (c : Char) : Char := if c = '(' then ')' else if c = '[' then ']' else '\x7d'

def isOpening (c : Char) : Bool := c = '(' || c = '[' || c = '\x7b'

def isClosing (c : Char) : Bool := c = ')' || c = ']' || c = '\x7d'

/-- The layout after a character; none if a bracket does not match. -/
def Layout.bracket? (l : Layout) (c : Char) (line : Nat) : Option Layout :=
  if isOpening c then
    if maxBrackets ≤ l.brackets.length then none
    else some { l with brackets := (c, line) :: l.brackets }
  else if isClosing c then
    match l.brackets with
    | (opening, _) :: rest => if closing opening = c then some { l with brackets := rest } else none
    | [] => none
  else some l

/-! ### The start of a line -/

/-- Measures of an indentation; a continued line keeps those of its first part. -/
structure Measure where
  width : Nat := 0
  narrow : Nat := 0
  kept : Nat := 0
  deriving Repr

/-- Why a backslash does not join two lines. -/
inductive JoinFault where
  /-- Something other than a line end follows it. -/
  | stray (line : Nat)
  /-- The source ends after the line. -/
  | cut (line : Nat)
  deriving Repr

/-- Measures the indentation at the cursor. A backslash at a line's end joins the
next line. -/
def measure (m : Measure) (place : Place) : List Char → Except JoinFault (Measure × Cursor)
  | [] => .ok (m, ⟨[], place⟩)
  | '\\' :: cs =>
      match cs with
      | '\n' :: rest =>
          if rest.isEmpty then .error (.cut place.line)
          else measure { m with kept := if m.kept = 0 then m.width else m.kept }
            ⟨place.line + 1, 0⟩ rest
      | _ => .error (.stray place.line)
  | c :: cs =>
      let next : Place := ⟨place.line, place.column + 1⟩
      if c = ' ' then measure { m with width := m.width + 1, narrow := m.narrow + 1 } next cs
      else if c = '\t' then
        measure { m with width := (m.width / 8 + 1) * 8, narrow := m.narrow + 1 } next cs
      else if c.toNat = 12 then measure { m with width := 0, narrow := 0 } next cs
      else .ok (m, ⟨c :: cs, place⟩)

/-! ### Marks -/

def longMarks : List String := ["**=", "//=", ">>=", "<<=", "..."]

def shortMarks : List String :=
  ["!=", "%=", "&=", "**", "*=", "+=", "-=", "->", "//", "/=", ":=", "<<", "<=", "<>", "==", ">=",
    ">>", "@=", "^=", "|="]

/-- The mark at the start of a text. -/
def markAt (cs : List Char) : String :=
  let three := String.ofList (cs.take 3)
  let two := String.ofList (cs.take 2)
  if longMarks.contains three then three
  else if shortMarks.contains two then two
  else String.ofList (cs.take 1)

/-! ### Tokens -/

/-- What reading one token gives. -/
inductive Step where
  /-- A token, and where reading goes on. -/
  | token (kind : TokenKind) (place : Place) (after : Cursor) (layout : Layout)
  /-- A line end that is a token or not. -/
  | lineEnd (after : Cursor)
  | skip (after : Cursor)
  | done
  | broken (line : Nat)
  | unjoined (fault : JoinFault)

def startsNumber (cs : List Char) : Bool :=
  match cs with
  | '.' :: c :: _ => c.isDigit
  | c :: _ => c.isDigit
  | [] => false

/-- Reads a text, a number, a word or a mark at the cursor, where the character `c` stands. -/
def itemAt (l : Layout) (cur : Cursor) (c : Char) : Step :=
  match textMarks? cur.rest with
  | some (marks, letters) =>
      match quotation? (cur.rest.drop letters) with
      | some (body, width, rest) =>
          let consumed := cur.rest.take (cur.rest.length - rest.length)
          .token (.text marks body (letters + width)) cur.place (cur.past consumed rest) l
      | none => .broken cur.place.line
  | none =>
      if startsNumber cur.rest then
        match number? cur.rest with
        | some (value, rest) =>
            let consumed := cur.rest.take (cur.rest.length - rest.length)
            .token (.number value) cur.place (cur.past consumed rest) l
        | none => .broken cur.place.line
      else if isNameChar c then
        let word := cur.rest.takeWhile isNameChar
        if Text.isIdentifier word then
          .token (.name (String.ofList word)) cur.place
            (cur.past word (cur.rest.dropWhile isNameChar)) l
        else .broken cur.place.line
      else
        match l.bracket? c cur.place.line with
        | none => .broken cur.place.line
        | some l =>
            if Text.isPrintable c then
              let mark := markAt cur.rest
              .token (.mark mark) cur.place (cur.drop mark.length) l
            else .broken cur.place.line

/-- Reads the token at the cursor, where a token starts. -/
def tokenAt (l : Layout) (cur : Cursor) : Step :=
  match cur.rest with
  | [] => .done
  | c :: cs =>
      if c = '\n' then .lineEnd (cur.drop 1)
      else if c = '\\' then
        match cs with
        | '\n' :: rest =>
            if rest.isEmpty then .unjoined (.cut cur.place.line) else .skip (cur.drop 2)
        | _ => .unjoined (.stray cur.place.line)
      else itemAt l cur c

/-- The cursor past spaces and a comment. -/
def skipSpace (cur : Cursor) : Cursor :=
  let isSpace (c : Char) : Bool := c = ' ' || c = '\t' || c.toNat = 12
  let cur := cur.past (cur.rest.takeWhile isSpace) (cur.rest.dropWhile isSpace)
  match cur.rest with
  | '#' :: _ => cur.past (cur.rest.takeWhile (· ≠ '\n')) (cur.rest.dropWhile (· ≠ '\n'))
  | _ => cur

/-- The tokens of a change of indentation. -/
def shiftTokens (place : Place) : Shift → List Token
  | .stay => []
  | .deeper => [⟨.indent, place, 0⟩]
  | .back count => List.replicate count ⟨.dedent, place, 0⟩

/-- The place of a change of indentation in front of a cursor. -/
def Cursor.shiftPlace (c : Cursor) : Place :=
  if c.rest.isEmpty then endPlace else ⟨c.place.line, 0⟩

def lastToken (depth line : Nat) (ending : Ending) : Token :=
  if ending = .complete then ⟨.stop, endPlace, depth⟩ else ⟨.fault, ⟨line, 0⟩, depth⟩

def finish (done : List Token) (l : Layout) (line : Nat) (ending : Ending) : Tokens :=
  ⟨(lastToken l.brackets.length line ending :: done).reverse, ending, l.brackets.map Prod.snd, line⟩

/-- The ending where two lines are not joined. -/
def Layout.unjoined (l : Layout) : JoinFault → Ending
  | .stray line => .misplaced line
  | .cut line => if l.brackets.isEmpty then .misplaced line else .unclosed

def JoinFault.line : JoinFault → Nat
  | .stray line => line
  | .cut line => line

/-- The start of a line: its change of indentation, unless the line is blank or
stands inside brackets. -/
inductive LineStart where
  | ok (shift : Shift) (layout : Layout) (blank : Bool) (after : Cursor)
  | unjoined (fault : JoinFault)
  | misplaced (line : Nat)

/-- Reads the start of a line. -/
def lineStart (l : Layout) (cur : Cursor) : LineStart :=
  match measure {} cur.place cur.rest with
  | .error fault => .unjoined fault
  | .ok (m, after) =>
      let blank := after.rest.head? = some '#' || after.rest.head? = some '\n'
      if blank || !l.brackets.isEmpty then .ok .stay l blank after
      else
        let (width, narrow) := if m.kept = 0 then (m.width, m.narrow) else (m.kept, m.kept)
        match l.shift? width narrow with
        | some (shift, l) => .ok shift l false after
        | none => .misplaced (if after.rest.isEmpty then after.endLine else after.place.line)

/-- Reads tokens; `done` holds those before, last first. `fresh` at the start of a
line, `blank` on a line without tokens. -/
def run : Nat → Bool → Bool → Layout → List Token → Cursor → Tokens
  | 0, _, _, l, done, cur => finish done l cur.place.line (.broken cur.place.line)
  | fuel + 1, true, _, l, done, cur =>
      match lineStart l cur with
      | .misplaced line => finish done l line (.misplaced line)
      | .unjoined fault => finish done l fault.line (l.unjoined fault)
      | .ok shift l blank after =>
          run fuel false blank l ((shiftTokens after.shiftPlace shift).reverse ++ done) after
  | fuel + 1, false, blank, l, done, cur =>
      let cur := skipSpace cur
      match tokenAt l cur with
      | .done =>
          if l.brackets.isEmpty then finish done l cur.endLine .complete
          else finish done l cur.endLine .unclosed
      | .broken line => finish done l line (.broken line)
      | .unjoined fault => finish done l fault.line (l.unjoined fault)
      | .skip after => run fuel false blank l done after
      | .lineEnd after =>
          if blank || !l.brackets.isEmpty then run fuel true false l done after
          else run fuel true false l (⟨.newline, cur.place, 0⟩ :: done) after
      | .token kind place after l =>
          run fuel false false l (⟨kind, place, l.brackets.length⟩ :: done) after

/-- The tokens of a text that starts at a place. -/
def tokensFrom (place : Place) (cs : List Char) : Tokens :=
  run (2 * cs.length + 3) true false ⟨[], []⟩ [] ⟨cs, place⟩

def tokens (cs : List Char) : Tokens := tokensFrom ⟨1, 0⟩ cs

end Docsig.Code.Lexer
