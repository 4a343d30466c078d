import Docsig.Code.Parser.Pattern

/-!
Reading statements.

A block is either the simple statements on the rest of a line or indented
statements on lines of their own. `blocks` repeats the rules for statements as
often as blocks can nest.
-/

namespace Docsig.Code.Parser

/-! ### Simple statements -/

namespace Simple

variable (r : Rules)

/-- The marks of assignments that change their target. -/
def changes : List (String × BinaryOp) :=
  [("+=", .add), ("-=", .sub), ("*=", .mul), ("@=", .matMul), ("/=", .div), ("%=", .mod),
    ("&=", .bitAnd), ("|=", .bitOr), ("^=", .bitXor), ("<<=", .shiftLeft), (">>=", .shiftRight),
    ("**=", .pow), ("//=", .floorDiv)]

/-- The value of an assignment. -/
def value : Reader Expr := do
  if ← atWord "yield" then r.yieldExpression else r.starExpressions

/-- Raises the fault of what cannot be assigned to. -/
def checkTarget (e : Expr) : Reader Unit :=
  match invalidTarget? e with
  | some part => raise part.place.line
  | none => if isTarget e then pure () else
      match e with
      | .starred _ t => if isTarget t then pure () else fail
      | _ => fail

/-- An assignment after its first target, or what it turns out to be. -/
def assignment (first : Expr) : Reader Statement := do
  checkTarget first
  mark "="
  let second ← value r
  let more ← many do
    if ← takeMark "=" then return some (← value r) else return none
  let all := first :: second :: more
  all.dropLast.forM checkTarget
  return .assign all.dropLast (all.getLastD second)

def expressionStatement : Reader Statement := do
  let first ← r.starExpressions
  if ← atMark ":" then
    if isSingleTarget first then
      mark ":"
      let annotation ← r.expression
      let value? ← if ← takeMark "=" then some <$> value r else pure none
      return .annotated first annotation value?
    else fail
  else if ← atMark "=" then assignment r first
  else
    match ← Rules.operator? changes with
    | some op =>
        if isSingleTarget first then return .augmented first op (← value r)
        else raise first.place.line
    | none => return .expression first

def dottedName : Reader Unit := do
  let _ ← ident
  let _ ← many do
    if ← takeMark "." then return some (← ident) else return none

/-- A new name for what is imported. -/
def newName : Reader Unit := do
  if ← takeWord "as" then
    let _ ← ident

/-- A name to import, perhaps under a new name. -/
def importedName : Reader Unit := do
  let _ ← ident
  newName

def importedNames : Reader Unit := do
  if ← takeMark "*" then return
  else if ← takeMark "(" then
    let _ ← commaList importedName
    mark ")"
  else
    let _ ← commaSeparated importedName

/-- The points in front of a module. -/
def points : Reader Bool := do
  let ps ← many do
    if (← takeMark ".") || (← takeMark "...") then return some () else return none
  return !ps.isEmpty

def importFrom : Reader Unit := do
  let relative ← points
  if relative && (← atWord "import") then pure () else dottedName
  word "import"
  importedNames

def importModules : Reader Unit := do
  let _ ← commaSeparated do
    dottedName
    newName

def deletion : Reader Statement := do
  let (targets, _) ← commaList do
    let e ← r.primary
    if isDeletable e then return e else fail
  if (← atMark ";") || (← atKind .newline) then return .delete targets else fail

/-- The exception that is raised, and its cause. -/
def raising : Reader Statement := do
  match ← attempt r.expression with
  | none => return .leave []
  | some e =>
      if ← takeWord "from" then return .leave [e, ← r.expression] else return .leave [e]

/-- An assertion, and its message. -/
def assertion : Reader Statement := do
  let test ← r.expression
  if ← takeMark "," then return .leave [test, ← r.expression] else return .leave [test]

/-- A simple statement. -/
def statement : Reader Statement := do
  if (← takeWord "pass") || (← takeWord "break") || (← takeWord "continue") then return .plain
  else if ← takeWord "return" then return .leave (← attempt r.starExpressions).toList
  else if ← takeWord "raise" then raising r
  else if ← takeWord "assert" then assertion r
  else if ← takeWord "del" then deletion r
  else if ← takeWord "import" then
    importModules
    return .plain
  else if ← takeWord "from" then
    importFrom
    return .plain
  else if (← takeWord "global") || (← takeWord "nonlocal") then
    let _ ← commaSeparated ident
    return .plain
  else if ← atWord "yield" then return .expression (← r.yieldExpression)
  else expressionStatement r

/-- The simple statements after the first on a line. -/
def following : Nat → Reader (List Statement)
  | 0 => fail
  | n + 1 => do
      if ← takeKind .newline then return []
      else
        mark ";"
        if ← takeKind .newline then return []
        else return (← statement r) :: (← following n)

/-- The simple statements of a line. -/
def line : Reader (List Statement) := do
  let first ← statement r
  return first :: (← following r (← bound))

end Simple

/-! ### Compound statements -/

namespace Compound

variable (r : Rules) (block : Reader (List Statement))

/-- A block after its colon. -/
def body : Reader (List Statement) := do
  mark ":"
  block

/-- The alternative after a word, or nothing. -/
def bodyAfter (w : String) : Reader (List Statement) := do
  if ← takeWord w then body block else return []

/-- A condition, its block and the branches after it, at most so many. -/
def branches : Nat → Reader Statement
  | 0 => fail
  | n + 1 => do
      let test ← r.namedExpression
      let then? ← body block
      if ← takeWord "elif" then return .branch test then? [← branches n]
      else return .branch test then? (← bodyAfter block "else")

/-- A loop with a condition. -/
def loop : Reader Statement := do
  let test ← r.namedExpression
  let inner ← body block
  return .loop test inner (← bodyAfter block "else")

/-- A loop over items. -/
def iterate : Reader Statement := do
  let target ← r.starTargets
  word "in"
  let iterable ← r.starExpressions
  let inner ← body block
  return .iterate target iterable inner (← bodyAfter block "else")

def withItem : Reader (Expr × Option Expr) := do
  let e ← r.expression
  if ← takeWord "as" then return (e, some (← r.starTarget)) else return (e, none)

/-- The items of a "with" statement in parentheses, in front of a colon. -/
def parenthesisedItems : Reader (List (Expr × Option Expr)) := do
  mark "("
  let (items, _) ← commaList (withItem r)
  mark ")"
  if ← atMark ":" then return items else fail

def withStatement : Reader Statement := do
  let items ← orElse (parenthesisedItems r) (commaSeparated (withItem r))
  return .withItems items (← body block)

/-- A handler, if one follows; `group` if handlers are marked with a star. -/
def handler? (group : Bool) : Reader (Option Handler) := do
  if ← takeWord "except" then
    if group then mark "*"
    let bare ← atMark ":"
    if bare && !group then return some (.mk none (← body block))
    else
      let type ← r.expression
      if ← takeWord "as" then
        let _ ← ident
      return some (.mk (some type) (← body block))
  else return none

/-- A statement whose block is guarded by handlers. -/
def guarded : Reader Statement := do
  let inner ← body block
  let group ← ahead do
    word "except"
    mark "*"
  let handlers ← many (handler? r block group)
  let otherwise ← if handlers.isEmpty then pure [] else bodyAfter block "else"
  let hasFinal ← atWord "finally"
  let final ← bodyAfter block "finally"
  if handlers.isEmpty && !hasFinal then fail
  else return .guarded inner handlers otherwise final

def classDef (decorators : List Expr) : Reader Statement := do
  let name ← ident
  let (args, keywords) ← if ← takeMark "(" then r.arguments else pure ([], [])
  return .classDef decorators name args keywords (← body block)

/-- A function, after its word; it starts at a place. -/
def function (start : Place) (decorators : List Expr) : Reader Statement := do
  let name ← ident
  mark "("
  let ps ← r.parameters true ")"
  mark ")"
  let returns? ← if ← takeMark "->" then some <$> r.expression else pure none
  return .define (.mk start decorators name ps returns? (← body block))

def decorators : Reader (List Expr) := many do
  if ← takeMark "@" then
    let e ← r.namedExpression
    kind .newline
    return some e
  else return none

def decorated : Reader Statement := do
  let ds ← decorators r
  let start ← place
  if ← takeWord "class" then classDef r block ds
  else
    let _ ← takeWord "async"
    word "def"
    function r block start ds

/-- A statement after the word that makes it asynchronous. -/
def asynchronous (start : Place) : Reader Statement := do
  if ← takeWord "def" then function r block start []
  else if ← takeWord "for" then iterate r block
  else
    word "with"
    withStatement r block

/-- The head of a selection, up to its first case. -/
def selectionHead : Reader Expr := do
  word "match"
  let start ← place
  let (items, comma) ← commaList r.starNamed
  mark ":"
  kind .newline
  kind .indent
  match items, comma with
  | [.starred _ _], false => fail
  | [e], false => return e
  | es, _ => return .tuple start es

def case? : Reader (Option Case) := do
  if ← takeWord "case" then
    let pattern ← Pattern.top r (← bound)
    let guard? ← if ← takeWord "if" then some <$> r.namedExpression else pure none
    return some (.mk pattern guard? (← body block))
  else return none

def selection (subject : Expr) : Reader Statement := do
  let cases ← many (case? r block)
  if cases.isEmpty then fail
  else
    kind .dedent
    return .select subject cases

def statement? : Reader (Option Statement) := do
  let start ← place
  if ← takeWord "if" then return some (← branches r block (← bound))
  else if ← takeWord "while" then return some (← loop r block)
  else if ← takeWord "for" then return some (← iterate r block)
  else if ← takeWord "with" then return some (← withStatement r block)
  else if ← takeWord "try" then return some (← guarded r block)
  else if ← takeWord "class" then return some (← classDef r block [])
  else if ← takeWord "def" then return some (← function r block start [])
  else if ← takeWord "async" then return some (← asynchronous r block start)
  else if ← atMark "@" then return some (← decorated r block)
  else if ← atWord "match" then
    match ← attempt (selectionHead r) with
    | some subject => return some (← selection r block subject)
    | none => return none
  else return none

/-- The statements on a line: a compound one, or simple ones. -/
def line : Reader (List Statement) := do
  match ← statement? r block with
  | some s => return [s]
  | none => Simple.line r

end Compound

/-! ### Blocks -/

/-- Statements up to a token of a kind, which stays. -/
def statementsUpTo (r : Rules) (block : Reader (List Statement)) (last : TokenKind) :
    Reader (List Statement) := do
  let lines ← many do
    if ← atKind last then return none else return some (← Compound.line r block)
  return lines.flatten

/-- A block whose blocks are read by `inner`. -/
def blockWith (r : Rules) (inner : Reader (List Statement)) : Reader (List Statement) := do
  if ← takeKind .newline then
    kind .indent
    let ss ← statementsUpTo r inner .dedent
    kind .dedent
    return ss
  else Simple.line r

/-- Blocks that nest at most so deep. -/
def blocks (r : Rules) : Nat → Reader (List Statement)
  | 0 => fail
  | n + 1 => blockWith r (blocks r n)

def fileStatements (r : Rules) (depth : Nat) : Reader (List Statement) := do
  let ss ← statementsUpTo r (blocks r depth) .stop
  kind .stop
  return ss

/-- One expression that makes up a whole text. -/
def wholeExpression (r : Rules) : Reader Expr := do
  let e ← r.expressions
  let _ ← many do
    if ← takeKind .newline then return some () else return none
  kind .stop
  return e

end Docsig.Code.Parser
