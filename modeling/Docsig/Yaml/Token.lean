import Docsig.Yaml.Scalar

/-!
Tokens of a YAML text.

Besides the marks that are written there are tokens for what indentation means:
the starts and the ends of block collections. A key in block style is not marked
either; it shows as one when a colon follows on its line. Until then it is a
possible key, and its token goes to where it started.

Anchors, tags, directives and block scalars are not read.
-/

namespace Docsig.Yaml

inductive Token where
  | documentStart
  | documentEnd
  | blockSequenceStart
  | blockMappingStart
  | blockEnd
  | flowSequenceStart
  | flowSequenceEnd
  | flowMappingStart
  | flowMappingEnd
  | blockEntry
  | flowEntry
  | key
  | value
  | scalar (plain : Bool) (text : String)
  deriving DecidableEq, Repr

/-- A place where a key may have started. -/
structure PossibleKey where
  /-- The number of tokens before it. -/
  number : Nat
  /-- Whether a text without a colon there is a fault. -/
  isRequired : Bool
  index : Nat
  line : Nat
  column : Nat
  deriving Repr

/-- The state of a scan. -/
structure Scan where
  cursor : Cursor
  tokens : List Token
  /-- How many brackets are open. -/
  flow : Nat
  /-- The column of the innermost block collection; -1 if there is none. -/
  indent : Int
  /-- The columns of the block collections around it, innermost first. -/
  indents : List Int
  allowKey : Bool
  /-- The possible keys by the number of open brackets. -/
  keys : List (Nat × PossibleKey)
  deriving Repr

namespace Scan

def start (cs : List Char) : Scan := ⟨Cursor.start cs, [], 0, -1, [], true, []⟩

def push (s : Scan) (t : Token) : Scan := { s with tokens := s.tokens ++ [t] }

/-- The scan with a token at an earlier place. -/
def insert (s : Scan) (place : Nat) (t : Token) : Scan :=
  { s with tokens := s.tokens.take place ++ t :: s.tokens.drop place }

/-- The scan with one more token, which takes up some characters. -/
def take (s : Scan) (length : Nat) (t : Token) : Scan :=
  { s.push t with cursor := s.cursor.advance length }

/-! ### Possible keys -/

/-- How far from its start a key may reach. -/
def keyReach : Nat := 1024

/-- Whether a possible key cannot become one any more. -/
def isStale (s : Scan) (k : PossibleKey) : Bool :=
  k.line != s.cursor.line || keyReach < s.cursor.index - k.index

/-- The scan without stale keys. -/
def dropStale (s : Scan) : Except Fault Scan :=
  if s.keys.any fun (_, k) => s.isStale k && k.isRequired then .error .malformed
  else .ok { s with keys := s.keys.filter fun (_, k) => !s.isStale k }

/-- The possible key of the innermost bracket. -/
def key? (s : Scan) : Option PossibleKey :=
  (s.keys.find? fun (flow, _) => flow == s.flow).map Prod.snd

/-- The scan without the possible key of the innermost bracket. -/
def forgetKey (s : Scan) : Scan :=
  { s with keys := s.keys.filter fun (flow, _) => flow != s.flow }

/-- `forgetKey`, where a required key is a fault. -/
def removeKey (s : Scan) : Except Fault Scan :=
  match s.key? with
  | some k => if k.isRequired then .error .malformed else .ok s.forgetKey
  | none => .ok s

/-- The scan with a possible key here, if one may start. -/
def saveKey (s : Scan) : Except Fault Scan :=
  if !s.allowKey then .ok s
  else do
    let isRequired := s.flow == 0 && s.indent == s.cursor.column
    let s ← s.removeKey
    let k : PossibleKey :=
      ⟨s.tokens.length, isRequired, s.cursor.index, s.cursor.line, s.cursor.column⟩
    return { s with keys := (s.flow, k) :: s.keys }

/-! ### Indentation -/

/-- The number of block collections that end at a column, and what is left of
them. -/
def unwound (column indent : Int) : List Int → Nat × Int × List Int
  | [] => (0, indent, [])
  | around :: indents =>
      if column < indent then
        let (count, rest) := unwound column around indents
        (count + 1, rest)
      else (0, indent, around :: indents)

/-- The scan with the ends of the block collections that a column ends. Within
brackets there are none. -/
def unwind (s : Scan) (column : Int) : Scan :=
  if s.flow != 0 then s
  else
    let (count, indent, indents) := unwound column s.indent s.indents
    { s with
      tokens := s.tokens ++ List.replicate count .blockEnd
      indent := indent
      indents := indents }

/-- The scan in a new block collection, if the column starts one. The token goes
to a place among the others. -/
def openBlock (s : Scan) (column : Nat) (place : Nat) (t : Token) : Scan :=
  if s.indent < column then
    { s.insert place t with indent := column, indents := s.indent :: s.indents }
  else s

/-! ### White space -/

/-- The scan before the next token, behind spaces, comments and the ends of
lines. Outside of brackets a key may start on a new line. -/
def skipGaps : Nat → Scan → Scan
  | 0, s => s
  | n + 1, s =>
      let c := s.cursor.skipWhile (· == ' ')
      let c := if c.sees '#' then c.skipWhile (!isBreak ·) else c
      if c.atBreak then
        skipGaps n { s with cursor := c.step, allowKey := s.allowKey || s.flow == 0 }
      else { s with cursor := c }

/-- The scan behind a byte order mark at the very start. -/
def skipMark (s : Scan) : Scan :=
  if s.cursor.index = 0 && s.cursor.sees byteOrderMark then { s with cursor := s.cursor.step }
  else s

/-! ### Single tokens -/

/-- The scan behind a line that parts documents. -/
def fetchSeparator (s : Scan) (t : Token) : Except Fault Scan := do
  let s ← (s.unwind (-1)).removeKey
  return { s with allowKey := false }.take 3 t

def fetchOpening (s : Scan) (t : Token) : Except Fault Scan := do
  let s ← s.saveKey
  return { s with flow := s.flow + 1, allowKey := true }.take 1 t

def fetchClosing (s : Scan) (t : Token) : Except Fault Scan := do
  let s ← s.removeKey
  return { s with flow := s.flow - 1, allowKey := false }.take 1 t

/-- The scan behind a comma. -/
def fetchComma (s : Scan) : Except Fault Scan := do
  let s ← { s with allowKey := true }.removeKey
  return s.take 1 .flowEntry

def fetchItem (s : Scan) : Except Fault Scan := do
  if s.flow = 0 && !s.allowKey then throw .malformed
  let s :=
    if s.flow = 0 then s.openBlock s.cursor.column s.tokens.length .blockSequenceStart else s
  let s ← { s with allowKey := true }.removeKey
  return s.take 1 .blockEntry

def fetchKey (s : Scan) : Except Fault Scan := do
  if s.flow = 0 && !s.allowKey then throw .malformed
  let s :=
    if s.flow = 0 then s.openBlock s.cursor.column s.tokens.length .blockMappingStart else s
  let s ← { s with allowKey := s.flow == 0 }.removeKey
  return s.take 1 .key

/-- The scan behind a colon. The possible key before it is one now. -/
def fetchValue (s : Scan) : Except Fault Scan :=
  match s.key? with
  | some k =>
      let s := s.forgetKey.insert k.number .key
      let s := if s.flow = 0 then s.openBlock k.column k.number .blockMappingStart else s
      .ok ({ s with allowKey := false }.take 1 .value)
  | none =>
      if s.flow = 0 then
        if !s.allowKey then .error .malformed
        else
          let s := s.openBlock s.cursor.column s.tokens.length .blockMappingStart
          .ok ({ s with allowKey := true }.take 1 .value)
      else .ok ({ s with allowKey := false }.take 1 .value)

def fetchQuoted (s : Scan) (double : Bool) : Except Fault Scan := do
  let s ← s.saveKey
  let (text, c) ← scanQuoted double s.cursor
  return { s.push (.scalar false text) with cursor := c, allowKey := false }

def fetchPlain (s : Scan) : Except Fault Scan := do
  let s ← s.saveKey
  let p := scanPlain (s.flow != 0) (s.indent + 1) s.cursor
  return { s.push (.scalar true (String.ofList p.text)) with
    cursor := p.cursor, allowKey := p.endsLine }

/-- A character that starts no plain scalar by itself. -/
def isIndicator (ch : Char) : Bool :=
  "-?:,[]\x7b\x7d#&*!|>'\"%@\x60".toList.contains ch

def startsPlain (s : Scan) (ch : Char) : Bool :=
  !(isIndicator ch || isGap (some ch)) ||
    (!isGap (s.cursor.peek 1) && (ch == '-' || (s.flow == 0 && (ch == '?' || ch == ':'))))

/-- Whether a mark counts here: a gap follows, or for some marks there are
brackets. -/
def isMark (s : Scan) (inBrackets : Bool) : Bool :=
  (inBrackets && s.flow != 0) || isGap (s.cursor.peek 1)

/-- The scan behind the token that starts with a character. -/
def fetch (s : Scan) (ch : Char) : Except Fault Scan :=
  let atMargin := s.cursor.column == 0
  if ch == '%' && atMargin then .error .malformed
  else if atMargin && s.cursor.atMarker '-' then s.fetchSeparator .documentStart
  else if atMargin && s.cursor.atMarker '.' then s.fetchSeparator .documentEnd
  else if ch == '[' then s.fetchOpening .flowSequenceStart
  else if ch == '\x7b' then s.fetchOpening .flowMappingStart
  else if ch == ']' then s.fetchClosing .flowSequenceEnd
  else if ch == '\x7d' then s.fetchClosing .flowMappingEnd
  else if ch == ',' then s.fetchComma
  else if ch == '-' && s.isMark false then s.fetchItem
  else if ch == '?' && s.isMark true then s.fetchKey
  else if ch == ':' && s.isMark true then s.fetchValue
  else if ch == '\'' then s.fetchQuoted false
  else if ch == '"' then s.fetchQuoted true
  else if s.startsPlain ch then s.fetchPlain
  else .error .malformed

def finish (s : Scan) : Except Fault Scan := (s.unwind (-1)).removeKey

/-- The scan of the rest of the text; `n` bounds the number of tokens. -/
def run : Nat → Scan → Except Fault Scan
  | 0, _ => .error .malformed
  | n + 1, s => do
      let s := (skipMark s)
      let s ← (skipGaps (s.cursor.rest.length + 1) s).dropStale
      let s := s.unwind s.cursor.column
      match s.cursor.peek 0 with
      | none => s.finish
      | some ch => do
          let s ← s.fetch ch
          run n s

end Scan

def tokens (cs : List Char) : Except Fault (List Token) := do
  let cs := Text.unifyNewlines cs
  if !cs.all isPrintable then throw .malformed
  let s ← (Scan.start cs).run (cs.length + 1)
  return s.tokens

end Docsig.Yaml
