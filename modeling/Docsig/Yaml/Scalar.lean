import Docsig.Text.Digit
import Docsig.Yaml.Cursor

/-!
Scalars of a YAML text.

A quoted scalar ends at its quotation mark, a plain one before a comment, a
colon with a gap behind it, or a line that is indented less. Within both, the
end of a line counts as a space, and further ends of lines as themselves.

The functions with a number as their first argument take it as a bound on the
characters left; the length of the rest is enough.
-/

namespace Docsig.Yaml

/-- A scalar, its characters last first, and the cursor behind it. -/
abbrev Scanned := Except Fault (List Char × Cursor)

/-! ### Quoted scalars -/

/-- What a letter after a backslash stands for. -/
def escapes : List (Char × Char) :=
  [('0', '\x00'), ('a', '\x07'), ('b', '\x08'), ('t', '\t'), ('\t', '\t'), ('n', '\n'),
    ('v', '\x0b'), ('f', '\x0c'), ('r', '\r'), ('e', '\x1b'), (' ', ' '), ('"', '"'),
    ('\\', '\\'), ('/', '/'), ('N', '\u0085'), ('_', '\u00a0'), ('L', '\u2028'),
    ('P', '\u2029')]

/-- How many hexadecimal digits follow a letter after a backslash. -/
def escapeLength? (ch : Char) : Option Nat :=
  if ch = 'x' then some 2 else if ch = 'u' then some 4 else if ch = 'U' then some 8 else none

/-- The number that hexadecimal digits write. -/
def hexNumber? : List Char → Nat → Option Nat
  | [], n => some n
  | ch :: cs, n => (Text.hexDigit? ch).bind fun d => hexNumber? cs (n * 16 + d)

/-- The character of a number that an escape names. -/
def escapedChar (count : Nat) (digits : List Char) : Except Fault Char :=
  if digits.length < count then .error .malformed
  else
    match hexNumber? digits 0 with
    | none => .error .malformed
    | some n => if 0x10FFFF < n then .error (.noCharacter n) else .ok (Char.ofNat n)

/-- The ends of lines that come next, with the white space before them and
behind. No line among them may part documents. -/
def scanBreaks : Nat → List Char → Cursor → Scanned
  | 0, acc, c => .ok (acc, c)
  | n + 1, acc, c =>
      if c.atSeparator then .error .malformed
      else
        let c := c.skipWhile isSpace
        match c.peek 0 with
        | some ch =>
            if isBreak ch then scanBreaks n (Cursor.breakText ch :: acc) c.step else .ok (acc, c)
        | none => .ok (acc, c)

/-- What an escape stands for; the cursor is behind the backslash. -/
def scanEscape (acc : List Char) (c : Cursor) : Scanned :=
  match c.peek 0 with
  | none => .error .malformed
  | some ch =>
      match escapes.find? fun e => e.1 == ch with
      | some (_, meant) => .ok (meant :: acc, c.step)
      | none =>
          match escapeLength? ch with
          | some count => do
              let c := c.step
              let meant ← escapedChar count (c.rest.take count)
              return (meant :: acc, c.advance count)
          | none =>
              if isBreak ch then scanBreaks (c.rest.length + 1) acc c.step else .error .malformed

/-- Whether a character in a quoted scalar means itself. -/
def isQuotedWord (ch : Char) : Bool :=
  !(ch == '\'' || ch == '"' || ch == '\\' || isSpace ch || isBreak ch)

/-- The text up to white space or to the quotation mark. -/
def scanQuotedWord (double : Bool) : Nat → List Char → Cursor → Scanned
  | 0, acc, c => .ok (acc, c)
  | n + 1, acc, c =>
      match c.peek 0 with
      | none => .ok (acc, c)
      | some ch =>
          if isQuotedWord ch then scanQuotedWord double n (ch :: acc) c.step
          else if !double && ch == '\'' && c.peek 1 == some '\'' then
            scanQuotedWord double n ('\'' :: acc) (c.advance 2)
          else if (double && ch == '\'') || (!double && (ch == '"' || ch == '\\')) then
            scanQuotedWord double n (ch :: acc) c.step
          else if double && ch == '\\' then do
            let (acc, c) ← scanEscape acc c.step
            scanQuotedWord double n acc c
          else .ok (acc, c)

/-- The end of a line and the ones right behind it, as they count within a
scalar: a lone line feed is a space, the first of several is dropped. -/
def foldBreaks (first : Char) (further : List Char) (acc : List Char) : List Char :=
  if first ≠ '\n' then further ++ first :: acc
  else if further.isEmpty then ' ' :: acc
  else further ++ acc

def scanQuotedGap (acc : List Char) (c : Cursor) : Scanned :=
  let spaces := c.rest.takeWhile isSpace
  let c := c.skipWhile isSpace
  match c.peek 0 with
  | none => .error .malformed
  | some ch =>
      if isBreak ch then do
        let (further, c) ← scanBreaks (c.rest.length + 1) [] c.step
        return (foldBreaks (Cursor.breakText ch) further acc, c)
      else .ok (spaces.reverse ++ acc, c)

/-- The rest of a quoted scalar, with the quotation mark behind it. -/
def scanQuotedRest (double : Bool) : Nat → List Char → Cursor → Scanned
  | 0, _, _ => .error .malformed
  | n + 1, acc, c => do
      let (acc, c) ← scanQuotedWord double (c.rest.length + 1) acc c
      if c.sees (if double then '"' else '\'') then return (acc, c.step)
      let (acc, c) ← scanQuotedGap acc c
      scanQuotedRest double n acc c

/-- A quoted scalar; the cursor is before the quotation mark. -/
def scanQuoted (double : Bool) (c : Cursor) : Except Fault (String × Cursor) := do
  let (acc, c) ← scanQuotedRest double (c.rest.length + 1) [] c.step
  return (String.ofList acc.reverse, c)

/-! ### Plain scalars -/

/-- A character that ends a plain scalar between brackets. -/
def endsFlowWord (ch : Char) : Bool :=
  ch == ',' || ch == '?' || ch == '[' || ch == ']' || ch == '\x7b' || ch == '\x7d'

/-- Whether a colon with this behind it ends a plain scalar. -/
def endsAfterColon (flow : Bool) (next : Option Char) : Bool :=
  isGap next || (flow && next.any fun ch => ch != '?' && endsFlowWord ch)

/-- The number of characters of a plain scalar up to white space or to its
end. -/
def plainWordLength (flow : Bool) : List Char → Nat
  | [] => 0
  | ch :: cs =>
      if isSpace ch || isBreak ch then 0
      else if ch == ':' && endsAfterColon flow cs.head? then 0
      else if flow && endsFlowWord ch then 0
      else plainWordLength flow cs + 1

/-- The ends of lines and the spaces behind the first end of a line in a plain
scalar; none if a line comes that parts documents. -/
def scanPlainBreaks : Nat → List Char → Cursor → Option (List Char) × Cursor
  | 0, acc, c => (some acc, c)
  | n + 1, acc, c =>
      match c.peek 0 with
      | none => (some acc, c)
      | some ch =>
          if ch = ' ' then scanPlainBreaks n acc c.step
          else if isBreak ch then
            let c := c.step
            if c.atSeparator then (none, c) else scanPlainBreaks n (Cursor.breakText ch :: acc) c
          else (some acc, c)

/-- White space within a plain scalar: what it counts as, last first, whether it
holds the end of a line, and the cursor behind it. -/
structure PlainGap where
  text : List Char
  hasBreak : Bool
  cursor : Cursor

/-- The white space after a word of a plain scalar. Only spaces are such white
space, tabs are not. -/
def scanPlainGap (c : Cursor) : PlainGap :=
  let spaces := c.rest.takeWhile (· == ' ')
  let c := c.skipWhile (· == ' ')
  match c.peek 0 with
  | none => ⟨spaces, false, c⟩
  | some ch =>
      if isBreak ch then
        let c := c.step
        if c.atSeparator then ⟨[], true, c⟩
        else
          match scanPlainBreaks (c.rest.length + 1) [] c with
          | (some further, c) => ⟨foldBreaks (Cursor.breakText ch) further [], true, c⟩
          | (none, c) => ⟨[], true, c⟩
      else ⟨spaces, false, c⟩

/-- A plain scalar: its text, whether the white space behind it holds the end of
a line, and the cursor. -/
structure Plain where
  text : List Char
  endsLine : Bool
  cursor : Cursor

/-- The words of a plain scalar; `gap` is the white space before the next
one. -/
def scanPlainWords (flow : Bool) (indent : Int) :
    Nat → List Char → PlainGap → Plain
  | 0, acc, gap => ⟨acc, gap.hasBreak, gap.cursor⟩
  | n + 1, acc, gap =>
      let c := gap.cursor
      let length := plainWordLength flow c.rest
      if c.sees '#' || length = 0 then ⟨acc, gap.hasBreak, c⟩
      else
        let acc := (c.rest.take length).reverse ++ (gap.text ++ acc)
        let next := scanPlainGap (c.advance length)
        if next.text.isEmpty || (!flow && (next.cursor.column : Int) < indent) then
          ⟨acc, next.hasBreak, next.cursor⟩
        else scanPlainWords flow indent n acc next

/-- A plain scalar whose further lines are indented by `indent` at least. -/
def scanPlain (flow : Bool) (indent : Int) (c : Cursor) : Plain :=
  let p := scanPlainWords flow indent (c.rest.length + 1) [] ⟨[], false, c⟩
  ⟨p.text.reverse, p.endsLine, p.cursor⟩

end Docsig.Yaml
