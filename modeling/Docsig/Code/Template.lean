import Docsig.Code.Escape
import Docsig.Code.Lexer

/-!
Texts with fields, before the fields are read as expressions.

Outside fields a doubled brace stands for one. A field ends at its closing
brace, or where its conversion or its format starts, outside of brackets and
texts inside it. A format may hold fields too, but their formats may not.
-/

namespace Docsig.Code.Template

/-- A part of a text with fields. The source of a field is kept with the place
of its opening brace. -/
inductive Piece where
  | literal (cs : List Char)
  | field (place : Place) (source : List Char) (conversion? : Option Char)
      (format? : Option (List Piece))
  deriving Repr, Inhabited

/-! ### Literal parts -/

inductive LiteralEnd where
  /-- After a doubled brace, which the part keeps once. -/
  | doubled
  /-- At a brace or at the end. -/
  | brace
  deriving DecidableEq, Repr

/-- What is due to be read in a literal part. -/
inductive Mode where
  | plain
  /-- A backslash has been read. -/
  | escape
  /-- A backslash and the letter of a name have been read. -/
  | letter
  /-- Inside a name. -/
  | name
  deriving DecidableEq, Repr

def isBrace (c : Char) : Bool := c = '\x7b' || c = '\x7d'

/-- Puts a character in front of a literal part. -/
def keep (c : Char) : Option (List Char × LiteralEnd × List Char) →
    Option (List Char × LiteralEnd × List Char) :=
  Option.map fun (cs, ending, rest) => (c :: cs, ending, rest)

/-- What a brace does to a literal part: doubled at the top it stands for itself,
a closing one must not stand alone there, and otherwise the part ends. -/
def atBrace (top : Bool) (c : Char) (cs : List Char) :
    Option (List Char × LiteralEnd × List Char) :=
  if top && cs.head? = some c then some ([c], .doubled, cs.drop 1)
  else if top && c = '\x7d' then none
  else some ([], .brace, c :: cs)

/-- The literal part at the start of a text; `top` outside of all fields. -/
def literalPart? (raw top : Bool) : Mode → List Char →
    Option (List Char × LiteralEnd × List Char)
  | _, [] => some ([], .brace, [])
  | .name, c :: cs => keep c (literalPart? raw top (if c = '\x7d' then .plain else .name) cs)
  | .letter, c :: cs => keep c (literalPart? raw top (if c = '\x7b' then .name else .plain) cs)
  | .escape, c :: cs =>
      if isBrace c then atBrace top c cs
      else keep c (literalPart? raw top (if c = 'N' then .letter else .plain) cs)
  | .plain, c :: cs =>
      if isBrace c then atBrace top c cs
      else keep c (literalPart? raw top (if c = '\\' && !raw then .escape else .plain) cs)

/-! ### Sources of fields -/

/-- Where reading stands inside the source of a field. -/
structure Inside where
  /-- The mark of the open text, and whether it is tripled. -/
  quote? : Option (Char × Bool) := none
  /-- The open brackets, innermost first. -/
  brackets : List Char := []
  /-- The number of characters to take as they are. -/
  skip : Nat := 0
  deriving Repr

/-- Whether a character ends the source of a field outside of brackets. -/
def endsSource (c : Char) : Bool := c = '!' || c = ':' || c = '\x7d' || c = '='

def isComparison (c d : Char) : Bool :=
  d = '=' && (c = '!' || c = '=' || c = '<' || c = '>')

/-- What a character inside the source of a field leads to. -/
inductive Move where
  | on (inside : Inside)
  | ends
  | fault

/-- The move at a character inside a text. -/
def Inside.textMove (i : Inside) (quote : Char) (triple : Bool) (c : Char) (cs : List Char) :
    Move :=
  if c = quote then
    if !triple then .on { i with quote? := none }
    else if cs.take 2 = [quote, quote] then .on { i with quote? := none, skip := 2 }
    else .on i
  else .on i

/-- The move at a character outside of texts. -/
def Inside.codeMove (i : Inside) (c : Char) (cs : List Char) : Move :=
  if Lexer.isQuote c then
    if cs.take 2 = [c, c] then .on { i with quote? := some (c, true), skip := 2 }
    else .on { i with quote? := some (c, false) }
  else if Lexer.isOpening c then .on { i with brackets := c :: i.brackets }
  else if c = '#' then .fault
  else if i.brackets.isEmpty && cs.head?.any (isComparison c) then .on { i with skip := 1 }
  else if i.brackets.isEmpty && endsSource c then .ends
  else if Lexer.isClosing c then
    match i.brackets with
    | opening :: rest =>
        if Lexer.closing opening = c then .on { i with brackets := rest } else .fault
    | [] => .fault
  else .on i

def Inside.move (i : Inside) (c : Char) (cs : List Char) : Move :=
  if c = '\\' then .fault
  else if 0 < i.skip then .on { i with skip := i.skip - 1 }
  else
    match i.quote? with
    | some (quote, triple) => i.textMove quote triple c cs
    | none => i.codeMove c cs

/-- The source of a field at the start of a text, and the rest. -/
def source? (i : Inside) : List Char → Option (List Char × List Char)
  | [] => none
  | c :: cs =>
      match i.move c cs with
      | .on i => (source? i cs).map fun (source, rest) => (c :: source, rest)
      | .ends => some ([], c :: cs)
      | .fault => none

/-- Whether a source is no expression because it is blank. -/
def isBlankSource (cs : List Char) : Bool :=
  cs.all fun c => c = ' ' || c = '\t' || c = '\n' || c.toNat = 12

/-- The white space after a shown source. -/
def isShownSpace (c : Char) : Bool := c = ' ' || (9 ≤ c.toNat && c.toNat ≤ 13)

/-! ### Pieces -/

/-- The conversion at the start of a text. -/
def conversion? : List Char → Option (Option Char × List Char)
  | '!' :: c :: cs => if c = 's' || c = 'r' || c = 'a' then some (some c, cs) else none
  | ['!'] => none
  | cs => some (none, cs)

mutual

/-- The pieces of a text up to its end, or up to a closing brace inside a field.
`level` is the number of fields around. -/
def pieces? : Nat → Bool → Nat → Lexer.Cursor → Option (List Piece × Lexer.Cursor)
  | 0, _, _, _ => none
  | fuel + 1, raw, level, cur => do
      let (part, ending, rest) ← literalPart? raw (level = 0) .plain cur.rest
      let decoded ← Escape.text? raw part
      let after := cur.past (cur.rest.take (cur.rest.length - rest.length)) rest
      if ending = .brace && after.rest.head? ≠ some '\x7b' then return ([.literal decoded], after)
      else
        let (field, after) ←
          if ending = .brace then field? fuel raw level after else some ([], after)
        let (more, after) ← pieces? fuel raw level after
        return (.literal decoded :: (field ++ more), after)

/-- The field that opens at the cursor, after the text by which it shows its own
source. -/
def field? : Nat → Bool → Nat → Lexer.Cursor → Option (List Piece × Lexer.Cursor)
  | 0, _, _, _ => none
  | fuel + 1, raw, level, cur => do
      let inner := cur.drop 1
      let (source, rest) ← source? {} inner.rest
      if 2 ≤ level || isBlankSource source then none
      else
        let after := inner.past source rest
        let shown := after.rest.head? = some '='
        let space := (after.rest.drop 1).takeWhile isShownSpace
        let after := if shown then after.drop (space.length + 1) else after
        let (conversion?, rest) ← conversion? after.rest
        let after := after.past (after.rest.take (after.rest.length - rest.length)) rest
        let (format?, after) ←
          if after.rest.head? = some ':' then
            (pieces? fuel raw (level + 1) (after.drop 1)).map fun (ps, after) => (some ps, after)
          else some (none, after)
        if after.rest.head? ≠ some '\x7d' then none
        else
          let conversion? :=
            if shown && format?.isNone && conversion?.isNone then some 'r' else conversion?
          let field := Piece.field cur.place source conversion? format?
          return (if shown then [.literal (source ++ '=' :: space), field] else [field], after.drop 1)

end

/-- The pieces of the body of a text that starts at a place. -/
def ofBody? (raw : Bool) (place : Place) (body : List Char) : Option (List Piece) :=
  (pieces? (2 * body.length + 2) raw 0 ⟨body, place⟩).map Prod.fst

end Docsig.Code.Template
