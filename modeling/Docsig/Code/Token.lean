import Docsig.Code.Syntax

/-!
The tokens of source files.

Line ends and changes of indentation are tokens of their own. A text token keeps
its body as it is written; its escapes are read when the texts next to each
other are joined.
-/

namespace Docsig.Code

/-- The marks in front of a text. -/
structure TextMarks where
  raw : Bool := false
  bytes : Bool := false
  unicode : Bool := false
  formatted : Bool := false
  deriving DecidableEq, Repr, Inhabited

inductive TokenKind where
  | name (id : String)
  /-- A number, by its value. -/
  | number (value : Constant)
  /-- A text: its marks, its body, and the width of what stands before it. -/
  | text (marks : TextMarks) (body : List Char) (lead : Nat)
  /-- An operator, a bracket or another mark. -/
  | mark (s : String)
  | newline
  | indent
  | dedent
  /-- The end of a source that was read to its end. -/
  | stop
  /-- The end of what can be read of a source. -/
  | fault
  deriving DecidableEq, Repr, Inhabited

/-- The place of what stands at the end of a source, on no line of its own. -/
def endPlace : Place := ⟨0, 0⟩

/-- A token with its place and the number of brackets that are open after it. -/
structure Token where
  kind : TokenKind
  place : Place
  depth : Nat
  deriving DecidableEq, Repr, Inhabited

/-- The words that are no names. -/
def reservedWords : List String :=
  ["False", "None", "True", "and", "as", "assert", "async", "await", "break", "class", "continue",
    "def", "del", "elif", "else", "except", "finally", "for", "from", "global", "if", "import",
    "in", "is", "lambda", "nonlocal", "not", "or", "pass", "raise", "return", "try", "while",
    "with", "yield"]

namespace Token

/-- The name that a token is, unless the word is reserved. -/
def name? (t : Token) : Option String :=
  match t.kind with
  | .name id => if reservedWords.contains id then none else some id
  | _ => none

/-- Whether a token is a word, reserved or not. -/
def isWord (t : Token) (word : String) : Bool :=
  match t.kind with
  | .name id => id == word
  | _ => false

def isMark (t : Token) (s : String) : Bool :=
  match t.kind with
  | .mark m => m == s
  | _ => false

end Token

/-! ### How tokens end -/

/-- How the tokens of a source end. -/
inductive Ending where
  /-- The whole source was read. -/
  | complete
  /-- A character cannot be read at all, on this line. -/
  | broken (line : Nat)
  /-- The layout is wrong, on this line: indentation, or the end after a
  continued line. -/
  | misplaced (line : Nat)
  /-- The source ends inside brackets. -/
  | unclosed
  deriving DecidableEq, Repr, Inhabited

/-- The tokens of a source. The last one marks the ending: `stop` if it is complete,
and else `fault`. -/
structure Tokens where
  items : List Token
  ending : Ending
  /-- The lines of the brackets still open at the ending, innermost first. -/
  openLines : List Nat
  lastLine : Nat
  deriving Repr, Inhabited

/-- The line that a fault is reported on: at the end of a source, that of the ending. -/
def Tokens.reported (ts : Tokens) (line : Nat) : Nat :=
  if line = endPlace.line then ts.lastLine else line

end Docsig.Code
