import Docsig.Code.Parser.Expression

/-!
Reading the patterns of cases.

A pattern is reduced to the expressions that it compares with: constants, and
names with members. Names that a pattern binds leave nothing.
-/

namespace Docsig.Code.Parser.Pattern

/-- A name that a pattern binds: not the wildcard, and not part of an expression. -/
def capture : Reader Unit := do
  let id ← ident
  if id == "_" then fail
  else if (← atMark ".") || (← atMark "(") || (← atMark "=") then fail
  else return

/-- A name or the wildcard. -/
def captureOrWildcard : Reader Unit := do
  let _ ← ident
  return

/-- A name with any number of members. -/
def dotted : Reader Expr := do
  let start ← place
  let id ← ident
  extend (fun e => do
    if ← takeMark "." then return some (.access start e (← ident)) else return none)
    (.name start id)

/-- A number, by its value. -/
def number : Reader Expr := do
  let t ← peek
  match t.kind with
  | .number value =>
      advance
      return .constant t.place value
  | _ => fail

def isImaginary : Expr → Bool
  | .constant _ (.imaginary _) => true
  | _ => false

/-- A number with a sign, or the sum of a real and an imaginary number. -/
def signedNumber : Reader Expr := do
  let start ← place
  let negative ← takeMark "-"
  let value ← number
  let real := if negative then Expr.unary start .minus value else value
  let op? ← Rules.operator? [("+", BinaryOp.add), ("-", BinaryOp.sub)]
  match op? with
  | some op =>
      let imaginary ← number
      if isImaginary imaginary && !isImaginary value then
        return .binary start real op imaginary
      else fail
  | none => return real

def constant (r : Rules) : Reader Expr := do
  let t ← peek
  match t.kind with
  | .number _ => signedNumber
  | .mark "-" => signedNumber
  | .text _ _ _ => texts r.field
  | .name w =>
      match Rules.constantWord? w with
      | some c =>
          advance
          return .constant t.place c
      | none => fail
  | _ => fail

section

variable (r : Rules) (pattern : Reader (List Expr))

/-- A pattern that may be starred. -/
def maybeStarred : Reader (List Expr) := do
  if ← takeMark "*" then
    captureOrWildcard
    return []
  else pattern

/-- Patterns with commas between them; also whether there is any comma. -/
def sequence : Reader (List Expr × Bool) := do
  let (items, comma) ← commaList (maybeStarred pattern)
  return (items.flatten, comma)

/-- A sequence or a pattern in parentheses. -/
def parenthesised : Reader (List Expr) := do
  mark "("
  if ← takeMark ")" then return []
  let starred ← atMark "*"
  let (es, comma) ← sequence pattern
  if starred && !comma then fail
  else
    mark ")"
    return es

/-- A sequence in brackets. -/
def bracketed : Reader (List Expr) := do
  mark "["
  if ← takeMark "]" then return []
  let (es, _) ← sequence pattern
  mark "]"
  return es

/-- An item of a map: a key and a pattern, or a name for the rest. -/
def mapItem : Reader (List Expr × Bool) := do
  if ← takeMark "**" then
    capture
    return ([], true)
  else
    let key ← orElse (constant r) dotted
    let isName := match key with | .name _ _ => true | _ => false
    if isName then fail
    else
      mark ":"
      return (key :: (← pattern), false)

/-- A map. Only its last item may name the rest. -/
def braced : Reader (List Expr) := do
  mark "\x7b"
  if ← takeMark "\x7d" then return []
  let (items, _) ← commaList (mapItem r pattern)
  if items.dropLast.any Prod.snd then fail
  else
    mark "\x7d"
    return (items.map Prod.fst).flatten

/-- An argument of a class pattern; also whether it has a name. -/
def classItem : Reader (List Expr × Bool) := do
  if ← Rules.nameBefore "=" then
    let _ ← ident
    mark "="
    return (← pattern, true)
  else return (← pattern, false)

/-- Whether no item without a name follows one with a name. -/
def namedLast : List (List Expr × Bool) → Bool
  | [] => true
  | (_, true) :: items => items.all Prod.snd
  | (_, false) :: items => namedLast items

/-- A class with its arguments, or a name with members. -/
def classOrValue : Reader (List Expr) := do
  let e ← dotted
  if ← takeMark "(" then
    if ← takeMark ")" then return [e]
    let (items, _) ← commaList (classItem pattern)
    if namedLast items then
      mark ")"
      return e :: (items.map Prod.fst).flatten
    else fail
  else
    match e with
    | .name _ _ => return []
    | _ => if ← atMark "=" then fail else return [e]

/-- A pattern without alternatives. -/
def closed : Reader (List Expr) := do
  let t ← peek
  match t.kind with
  | .mark "(" => parenthesised pattern
  | .mark "[" => bracketed pattern
  | .mark "\x7b" => braced r pattern
  | _ =>
      match t.name? with
      | some _ => classOrValue pattern
      | none => return [← constant r]

/-- Alternatives, and a name for what matches. -/
def alternatives : Reader (List Expr) := do
  let first ← closed r pattern
  let rest ← many do
    if ← takeMark "|" then return some (← closed r pattern) else return none
  if ← takeWord "as" then capture
  return first ++ rest.flatten

end

/-- Patterns that nest at most so deep. -/
def upTo (r : Rules) : Nat → Reader (List Expr)
  | 0 => fail
  | n + 1 => alternatives r (upTo r n)

/-- The pattern of a case; several are a sequence. -/
def top (r : Rules) (depth : Nat) : Reader (List Expr) := do
  let starred ← atMark "*"
  let (es, comma) ← sequence (upTo r depth)
  if starred && !comma then fail else return es

end Docsig.Code.Parser.Pattern
