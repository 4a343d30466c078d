import Docsig.Code.Parser.Statement
import Docsig.Text.Basic

/-!
From text to syntax.

`file` reads a source file, `expression` a text with one expression. Line ends of
every kind count alike, but for a pair of a return and a line feed at the end of a
file, which counts for two. A text that cannot be read has the line of its fault;
the null character stands in no source.
-/

namespace Docsig.Code

/-- Why a source has no syntax. -/
inductive SyntaxFault where
  | nullCharacter
  /-- The rules do not apply, on a line. -/
  | invalid (line : Nat)
  deriving DecidableEq, Repr

/-- How deep rules nest in a text: no deeper than it has characters on its lines. -/
def nesting (cs : List Char) : Nat := cs.countP (· ≠ '\n') + 3

/-- Reads the tokens of a text with rules that nest deep enough for it. -/
def readTokens {α : Type} (cs : List Char) (p : Parser.Rules → Nat → Parser.Reader α) :
    Except SyntaxFault α :=
  let depth := nesting cs
  let ts := Lexer.tokens cs
  match Parser.parse ts (p (Parser.Rules.upTo depth) depth) with
  | .ok a => .ok a
  | .error line => .error (.invalid line)

/-- Reads a text, unless it holds a null character. -/
def readSource {α : Type} (cs : List Char) (p : Parser.Rules → Nat → Parser.Reader α) :
    Except SyntaxFault α :=
  if Text.HasNull cs then .error .nullCharacter else readTokens cs p

/-- A text whose last line is ended. -/
def endLastLine (cs : List Char) : List Char :=
  if cs.getLast? = some '\n' then cs else cs ++ ['\n']

/-- The text that the tokens of a source file are read from. -/
def sourceText (cs : List Char) : List Char :=
  let text := endLastLine (Text.unifyNewlines cs)
  if ['\r', '\n'].isSuffixOf cs then text ++ ['\n'] else text

def file (cs : List Char) : Except SyntaxFault (List Statement) :=
  readSource (sourceText cs) Parser.fileStatements

def expression (cs : List Char) : Except SyntaxFault Expr :=
  readSource (Text.unifyNewlines cs) fun r _ => Parser.wholeExpression r

end Docsig.Code
