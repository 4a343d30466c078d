import Docsig.Text.Basic

/-!
A place in a YAML text.

A cursor has the rest of the text and says where it starts: at which character,
on which line and in which column. Lines end at line feeds, next-line characters
and the separators of lines and paragraphs.
-/

namespace Docsig.Yaml

inductive Fault where
  | malformed
  /-- An escape names a number beyond the characters. -/
  | noCharacter (code : Nat)
  /-- A number without digits after its base. -/
  | noDigits
  /-- A date, which no value stands for. -/
  | date
  deriving DecidableEq, Repr

/-! ### Characters -/

/-- A character that may stand in a text. -/
def isPrintable (c : Char) : Bool :=
  let n := c.toNat
  n == 9 || n == 10 || n == 13 || (0x20 ≤ n && n ≤ 0x7E) || n == 0x85 ||
    (0xA0 ≤ n && n ≤ 0xD7FF) || (0xE000 ≤ n && n ≤ 0xFFFD) || 0x10000 ≤ n

/-- A character that ends a line, once carriage returns are gone. -/
def isBreak (c : Char) : Bool :=
  c == '\n' || c == '\u0085' || c == '\u2028' || c == '\u2029'

/-- A space or a tab. -/
def isSpace (c : Char) : Bool := c == ' ' || c == '\t'

/-- The end of the text, white space or the end of a line. -/
def isGap : Option Char → Bool
  | none => true
  | some c => isSpace c || isBreak c

/-- The mark that a text may start with. -/
def byteOrderMark : Char := '\ufeff'

/-! ### Cursors -/

/-- A place in a text. -/
structure Cursor where
  rest : List Char
  index : Nat
  line : Nat
  column : Nat
  deriving Repr, Inhabited

namespace Cursor

def start (cs : List Char) : Cursor := ⟨cs, 0, 0, 0⟩

def peek (c : Cursor) (distance : Nat) : Option Char := c.rest[distance]?

def sees (c : Cursor) (ch : Char) : Bool := c.peek 0 == some ch

def step (c : Cursor) : Cursor :=
  match c.rest with
  | [] => c
  | ch :: cs =>
      if isBreak ch then ⟨cs, c.index + 1, c.line + 1, 0⟩
      else if ch = byteOrderMark then ⟨cs, c.index + 1, c.line, c.column⟩
      else ⟨cs, c.index + 1, c.line, c.column + 1⟩

def advance (c : Cursor) : Nat → Cursor
  | 0 => c
  | n + 1 => advance c.step n

/-- The cursor behind the characters that satisfy a predicate. -/
def skipWhile (p : Char → Bool) (c : Cursor) : Cursor := c.advance (c.rest.takeWhile p).length

def atBreak (c : Cursor) : Bool :=
  match c.peek 0 with
  | some ch => isBreak ch
  | none => false

/-- What the end of a line counts as: the separators of Unicode are kept, the
others are line feeds. -/
def breakText (ch : Char) : Char := if ch = '\u0085' then '\n' else ch

/-- Whether three characters come next, with a gap behind them. -/
def atMarker (c : Cursor) (ch : Char) : Bool :=
  c.rest.take 3 == [ch, ch, ch] && isGap (c.peek 3)

/-- Whether a line comes next that parts documents. -/
def atSeparator (c : Cursor) : Bool := c.atMarker '-' || c.atMarker '.'

end Cursor

end Docsig.Yaml
