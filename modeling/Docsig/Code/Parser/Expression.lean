import Docsig.Code.Parser.Text

/-!
Reading expressions.

The rules refer to each other through `Rules`: `Rules.next` builds each rule from
the rules for what stands inside brackets or behind an operator. `Rules.upTo`
repeats that as often as a source can nest.
-/

namespace Docsig.Code.Parser

/-- The rules that others need for what is nested in them. -/
structure Rules where
  expression : Reader Expr
  disjunction : Reader Expr
  inversion : Reader Expr
  bitOr : Reader Expr
  factor : Reader Expr
  primary : Reader Expr

/-! ### Targets -/

mutual

/-- Whether an expression can be assigned to. -/
def isTarget : Expr → Bool
  | .name _ _ | .access _ _ _ | .subscript _ _ _ => true
  | .list _ items | .tuple _ items => areTargets items
  | _ => false

/-- Whether the items of a list can be assigned to; they may be starred. -/
def areTargets : List Expr → Bool
  | [] => true
  | .starred _ e :: es => isTarget e && areTargets es
  | e :: es => isTarget e && areTargets es

end

/-- Whether an expression can be assigned to as a whole. -/
def isSingleTarget : Expr → Bool
  | .name _ _ | .access _ _ _ | .subscript _ _ _ => true
  | _ => false

mutual

def isDeletable : Expr → Bool
  | .name _ _ | .access _ _ _ | .subscript _ _ _ => true
  | .list _ items | .tuple _ items => areDeletable items
  | _ => false

def areDeletable : List Expr → Bool
  | [] => true
  | e :: es => isDeletable e && areDeletable es

end

mutual

/-- The first part of an expression that cannot be assigned to. -/
def invalidTarget? : Expr → Option Expr
  | .name _ _ | .access _ _ _ | .subscript _ _ _ => none
  | .list _ items | .tuple _ items => firstInvalid? items
  | .starred _ e => invalidTarget? e
  | e => some e

/-- The first part of some expressions that cannot be assigned to. -/
def firstInvalid? : List Expr → Option Expr
  | [] => none
  | e :: es => (invalidTarget? e).or (firstInvalid? es)

end

namespace Rules

variable (r : Rules)

/-! ### Lists of expressions -/

/-- A starred expression, or what another rule reads. -/
def starredOr (operand other : Reader Expr) : Reader Expr := do
  let start ← place
  if ← takeMark "*" then return .starred start (← operand) else other

/-- One expression, or a tuple of several without parentheses. -/
def tupleOf (item : Reader Expr) : Reader Expr := do
  let start ← place
  let (items, comma) ← commaList item
  match items, comma with
  | [e], false => return e
  | es, _ => return .tuple start es

def starExpression : Reader Expr := starredOr r.bitOr r.expression

/-- Expressions that may be starred; several are a tuple. -/
def starExpressions : Reader Expr := tupleOf r.starExpression

/-- Expressions; several are a tuple. -/
def expressions : Reader Expr := tupleOf r.expression

/-- Whether a name and a mark follow. -/
def nameBefore (s : String) : Reader Bool := ahead do
  let _ ← ident
  mark s

def namedExpression : Reader Expr := do
  if ← nameBefore ":=" then
    let start ← place
    let id ← ident
    mark ":="
    return .named start (.name start id) (← r.expression)
  else
    let e ← r.expression
    if ← atMark ":=" then fail else return e

def starNamed : Reader Expr := starredOr r.bitOr r.namedExpression

def target : Reader Expr := do
  let e ← r.primary
  if isTarget e then return e else fail

def starTarget : Reader Expr := starredOr r.target r.target

/-- Targets; several are a tuple. -/
def starTargets : Reader Expr := tupleOf r.starTarget

/-- A value that is handed out. -/
def yieldExpression : Reader Expr := do
  let start ← place
  word "yield"
  if ← takeWord "from" then return .yieldFrom start (← r.expression)
  else return .yield start (← attempt r.starExpressions)

/-! ### Comprehensions -/

/-- One clause of a comprehension, if it follows. -/
def clause? : Reader (Option Clause) := do
  let async ← takeWord "async"
  if ← takeWord "for" then
    let target ← r.starTargets
    word "in"
    let iterable ← r.disjunction
    let conditions ← many do
      if ← takeWord "if" then return some (← r.disjunction) else return none
    return some (.mk async target iterable conditions)
  else if async then fail
  else return none

def clauses : Reader (List Clause) := many r.clause?

def atClauses : Reader Bool := do return (← atWord "for") || (← atWord "async")

/-- A comprehension over an element that has been read. -/
def comprehension (start : Place) (kind : ComprehensionKind) (element : Expr) : Reader Expr := do
  match element with
  | .starred _ _ => fail
  | _ => return .comprehension start kind element (← r.clauses)

/-! ### Brackets -/

/-- A tuple, a generator, or an expression in parentheses. -/
def parenthesised : Reader Expr := do
  let start ← place
  mark "("
  if ← takeMark ")" then return .tuple start []
  if ← atWord "yield" then
    let e ← r.yieldExpression
    mark ")"
    return e
  let first ← r.starNamed
  if ← atClauses then
    let e ← r.comprehension start .generator first
    mark ")"
    return e
  let (rest, trailing) ← commaTail r.starNamed (← bound)
  if trailing || !rest.isEmpty then
    mark ")"
    return .tuple start (first :: rest)
  match first with
  | .starred _ _ => fail
  | e =>
      mark ")"
      return e

/-- A list. -/
def bracketed : Reader Expr := do
  let start ← place
  mark "["
  if ← takeMark "]" then return .list start []
  let first ← r.starNamed
  if ← atClauses then
    let e ← r.comprehension start .list first
    mark "]"
    return e
  let (rest, _) ← commaTail r.starNamed (← bound)
  mark "]"
  return .list start (first :: rest)

/-- The value after the colon of an entry. -/
def entryValue : Reader Expr := do
  let colon ← place
  mark ":"
  if ← explaining then
    if (← atMark "\x7d") || (← atMark ",") then raise colon.line
  r.expression

def entry : Reader (Option Expr × Expr) := do
  if ← takeMark "**" then return (none, ← r.bitOr)
  let key ← r.expression
  if (← explaining) && !(← atMark ":") then raise key.place.line
  return (some key, ← r.entryValue)

/-- The entries of a map after the first. -/
def entries (start : Place) (first : Option Expr × Expr) : Reader Expr := do
  let (rest, _) ← commaTail r.entry (← bound)
  mark "\x7d"
  return .dict start (first :: rest)

/-- A map or a set. -/
def braced : Reader Expr := do
  let start ← place
  mark "\x7b"
  if ← takeMark "\x7d" then return .dict start []
  if ← takeMark "**" then
    let spread ← r.bitOr
    return ← r.entries start (none, spread)
  let isNamed ← nameBefore ":="
  let first ← r.starNamed
  let isStarred := match first with | .starred _ _ => true | _ => false
  if !isNamed && !isStarred && (← atMark ":") then
    let value ← r.entryValue
    if ← atClauses then
      let e := Expr.dictComprehension start first value (← r.clauses)
      mark "\x7d"
      return e
    r.entries start (some first, value)
  else if ← atClauses then
    let e ← r.comprehension start .set first
    mark "\x7d"
    return e
  else
    let (rest, _) ← commaTail r.starNamed (← bound)
    mark "\x7d"
    return .set start (first :: rest)

/-! ### Atoms -/

/-- Reads the source of a field as an expression in parentheses. -/
def field : FieldReader := fun place source =>
  parse (Lexer.tokensFrom place ('(' :: (source ++ [')']))) r.starExpressions

def constantWord? (w : String) : Option Constant :=
  if w == "None" then some .none
  else if w == "True" then some (.bool true)
  else if w == "False" then some (.bool false)
  else none

def atom : Reader Expr := do
  let t ← peek
  match t.kind with
  | .name w =>
      match constantWord? w with
      | some c =>
          advance
          return .constant t.place c
      | none => return .name t.place (← ident)
  | .number value =>
      advance
      return .constant t.place value
  | .text _ _ _ => texts r.field
  | .mark "(" => r.parenthesised
  | .mark "[" => r.bracketed
  | .mark "\x7b" => r.braced
  | .mark "..." =>
      advance
      return .constant t.place .ellipsis
  | _ => fail

/-! ### Calls and subscripts -/

/-- One argument of a call. -/
inductive Argument where
  | positional (e : Expr)
  | starred (e : Expr)
  | keyword (name : String) (e : Expr)
  | spread (e : Expr)
  deriving Inhabited

/-- How far the arguments of a call have come: keyword arguments end the
positional ones, and a spread map ends the starred ones too. -/
inductive Stage where
  | positional | keyword | spread
  deriving DecidableEq

def argument : Reader Argument := do
  let start ← place
  if ← takeMark "**" then return .spread (← r.expression)
  else if ← takeMark "*" then return .starred (.starred start (← r.expression))
  else if ← nameBefore "=" then
    let id ← ident
    mark "="
    return .keyword id (← r.expression)
  else
    let e ← r.namedExpression
    if ← atMark "=" then fail else return .positional e

/-- The stage after an argument; none if it cannot stand at its stage. -/
def Stage.next? : Stage → Argument → Option Stage
  | .positional, .positional _ => some .positional
  | .positional, .starred _ => some .positional
  | .keyword, .starred _ => some .keyword
  | .positional, .keyword _ _ => some .keyword
  | s, .keyword _ _ => some s
  | _, .spread _ => some .spread
  | _, _ => none

/-- Whether arguments stand in an order that calls allow. -/
def inOrder : Stage → List Argument → Bool
  | _, [] => true
  | s, a :: as =>
      match s.next? a with
      | some s => inOrder s as
      | none => false

/-- The expression of an argument without a name. -/
def Argument.plain? : Argument → Option Expr
  | positional e => some e
  | starred e => some e
  | _ => none

/-- A keyword argument, or a spread map. -/
def Argument.keyword? : Argument → Option (Option String × Expr)
  | keyword name e => some (some name, e)
  | spread e => some (none, e)
  | _ => none

/-- The arguments after the first, up to the closing parenthesis. -/
def argumentsFrom (first : Argument) : Reader (List Expr × List (Option String × Expr)) := do
  let (rest, _) ← commaTail r.argument (← bound)
  let args := first :: rest
  if inOrder .positional args then
    mark ")"
    return (args.filterMap Argument.plain?, args.filterMap Argument.keyword?)
  else fail

/-- The arguments of a class, after the opening parenthesis and up to the closing
one. -/
def arguments : Reader (List Expr × List (Option String × Expr)) := do
  if ← takeMark ")" then return ([], []) else r.argumentsFrom (← r.argument)

/-- The end of a call after its opening parenthesis. A generator that is the only
argument needs no parentheses of its own. -/
def callEnd (start opening : Place) (callee : Expr) : Reader Expr := do
  if ← takeMark ")" then return .call start callee [] []
  let first ← r.argument
  match first, ← atClauses with
  | .positional element, true =>
      let e ← r.comprehension opening .generator element
      mark ")"
      return .call start callee [e] []
  | _, _ =>
      let (args, keywords) ← r.argumentsFrom first
      return .call start callee args keywords

/-- An optional expression between colons. -/
def sliceEnd? : Reader (Option Expr) := attempt r.expression

/-- A slice or an index. -/
def slice : Reader Expr := do
  let start ← place
  let isNamed ← nameBefore ":="
  let lower? ← if ← atMark ":" then pure none else some <$> r.namedExpression
  if !isNamed && (← takeMark ":") then
    let upper? ← r.sliceEnd?
    let step? ← if ← takeMark ":" then r.sliceEnd? else pure none
    return .slice start lower? upper? step?
  else
    match lower? with
    | some e => return e
    | none => fail

/-- What stands inside the brackets of a subscript. -/
def slices : Reader Expr := do
  let start ← place
  let (items, comma) ← commaList (starredOr r.expression r.slice)
  match items, comma with
  | [.starred p e], _ => return .tuple start [.starred p e]
  | [e], false => return e
  | es, _ => return .tuple start es

/-- What may follow an atom: a member, a call or a subscript. -/
def trailer? (start : Place) (e : Expr) : Reader (Option Expr) := do
  let here ← place
  if ← takeMark "." then return some (.access start e (← ident))
  else if ← takeMark "(" then return some (← r.callEnd start here e)
  else if ← takeMark "[" then
    let index ← r.slices
    mark "]"
    return some (.subscript start e index)
  else return none

/-! ### Operators -/

/-- An atom with what follows it. -/
def primaryRule : Reader Expr := do
  let start ← place
  let e ← r.atom
  extend (r.trailer? start) e

/-- A primary expression that may be waited for. -/
def awaited : Reader Expr := do
  let start ← place
  if ← takeWord "await" then return .await start (← r.primaryRule) else r.primaryRule

/-- A power, whose exponent may have a sign. -/
def power : Reader Expr := do
  let start ← place
  let base ← r.awaited
  if ← takeMark "**" then return .binary start base .pow (← r.factor) else return base

def signs : List (String × UnaryOp) := [("+", .plus), ("-", .minus), ("~", .invert)]

/-- The operator among some whose mark is next. -/
def operator? {α : Type} (ops : List (String × α)) : Reader (Option α) := do
  let t ← peek
  match ops.find? fun op => t.isMark op.1 with
  | some (_, op) =>
      advance
      return some op
  | none => return none

/-- A power with any number of signs. -/
def factorRule : Reader Expr := do
  let start ← place
  match ← operator? signs with
  | some op => return .unary start op (← r.factor)
  | none => r.power

/-- Operands with operators between them that group to the left. -/
def leftGrouped (ops : List (String × BinaryOp)) (operand : Reader Expr) : Reader Expr := do
  let start ← place
  let first ← operand
  extend (fun left => do
    match ← operator? ops with
    | some op => return some (.binary start left op (← operand))
    | none => return none) first

/-- A bitwise "or" and everything that binds closer. -/
def bitOrRule : Reader Expr :=
  leftGrouped [("|", .bitOr)] <|
    leftGrouped [("^", .bitXor)] <|
      leftGrouped [("&", .bitAnd)] <|
        leftGrouped [("<<", .shiftLeft), (">>", .shiftRight)] <|
          leftGrouped [("+", .add), ("-", .sub)] <|
            leftGrouped
              [("*", .mul), ("/", .div), ("//", .floorDiv), ("%", .mod), ("@", .matMul)]
              r.factorRule

/-- The comparisons that are marks. -/
def comparisons : List (String × CompareOp) :=
  [("==", .equal), ("!=", .notEqual), ("<=", .lessEqual), ("<", .less), (">=", .greaterEqual),
    (">", .greater)]

/-- A comparison operator, if one follows. -/
def comparison? : Reader (Option CompareOp) := do
  match ← operator? comparisons with
  | some op => return some op
  | none =>
      if ← takeWord "in" then return some .member
      else if ← takeWord "is" then
        if ← takeWord "not" then return some .notSame else return some .same
      else
        attempt do
          word "not"
          word "in"
          return .notMember

/-- A chain of comparisons. -/
def comparison : Reader Expr := do
  let start ← place
  let left ← r.bitOrRule
  let rest ← many do
    match ← comparison? with
    | some op => return some (op, ← r.bitOrRule)
    | none => return none
  return if rest.isEmpty then left else .compare start left rest

/-- A negation. -/
def inversionRule : Reader Expr := do
  let start ← place
  if ← takeWord "not" then return .unary start .not (← r.inversion) else r.comparison

/-- Operands with one word between them. -/
def worded (w : String) (op : BoolOp) (operand : Reader Expr) : Reader Expr := do
  let start ← place
  let first ← operand
  let rest ← many do
    if ← takeWord w then return some (← operand) else return none
  return if rest.isEmpty then first else .boolean start op (first :: rest)

/-- A disjunction and everything that binds closer. -/
def disjunctionRule : Reader Expr := worded "or" .or (worded "and" .and r.inversionRule)

/-! ### Functions without a name -/

inductive ParamItem where
  | plain (place : Place) (name : String) (annotation? default? : Option Expr)
  /-- A lone star, or one with a name. -/
  | star (param? : Option (Place × String × Option Expr))
  | doubleStar (place : Place) (name : String) (annotation? : Option Expr)
  | slash
  deriving Inhabited

/-- Where the items of a list of parameters stand. -/
inductive ParamStage where
  /-- Before any star; whether a default was given, and whether a slash was seen. -/
  | before (defaulted slashed : Bool)
  /-- After a lone star, which a name has to follow. -/
  | lone
  | keywordOnly
  | closed
  deriving DecidableEq

/-- Marks parameters as positional only. -/
def beforeSlash : Param → Param
  | .mk p _ name annotation? default? => .mk p .positionalOnly name annotation? default?

/-- The parameters of a list of items, last first in `done`; none if the items
are out of order. -/
def arrange? : ParamStage → List Param → List ParamItem → Option (List Param)
  | .lone, _, [] => none
  | _, done, [] => some done.reverse
  | .before defaulted slashed, done, .plain p name annotation? default? :: items =>
      if defaulted && default?.isNone then none
      else arrange? (.before (defaulted || default?.isSome) slashed)
        (.mk p .regular name annotation? default? :: done) items
  | .before defaulted slashed, done, .slash :: items =>
      if slashed || done.isEmpty then none
      else arrange? (.before defaulted true) (done.map beforeSlash) items
  | .before _ _, done, .star none :: items => arrange? .lone done items
  | .before _ _, done, .star (some (p, name, annotation?)) :: items =>
      arrange? .keywordOnly (.mk p .variadic name annotation? none :: done) items
  | .lone, done, .plain p name annotation? default? :: items =>
      arrange? .keywordOnly (.mk p .keywordOnly name annotation? default? :: done) items
  | .keywordOnly, done, .plain p name annotation? default? :: items =>
      arrange? .keywordOnly (.mk p .keywordOnly name annotation? default? :: done) items
  | .before _ _, done, .doubleStar p name annotation? :: items =>
      arrange? .closed (.mk p .keywords name annotation? none :: done) items
  | .keywordOnly, done, .doubleStar p name annotation? :: items =>
      arrange? .closed (.mk p .keywords name annotation? none :: done) items
  | _, _, _ :: _ => none

/-- The annotation of a parameter, where annotations are allowed. -/
def annotation? (annotated : Bool) (rule : Reader Expr) : Reader (Option Expr) := do
  if annotated then
    if ← takeMark ":" then return some (← rule) else return none
  else return none

def paramItem (annotated : Bool) : Reader ParamItem := do
  if ← takeMark "/" then return .slash
  else if ← takeMark "**" then
    let p ← place
    let name ← ident
    return .doubleStar p name (← annotation? annotated r.expression)
  else if ← takeMark "*" then
    if ← atMark "," then return .star none
    else
      let p ← place
      let name ← ident
      return .star (some (p, name, ← annotation? annotated r.starExpression))
  else
    let p ← place
    let name ← ident
    let note? ← annotation? annotated r.expression
    let default? ← if ← takeMark "=" then some <$> r.expression else pure none
    return .plain p name note? default?

/-- The first parameter without a default after one with a default. -/
def missingDefault? : Bool → List ParamItem → Option Place
  | true, .plain p _ _ none :: _ => some p
  | seen, .plain _ _ _ default? :: items => missingDefault? (seen || default?.isSome) items
  | seen, .slash :: items => missingDefault? seen items
  | _, _ => none

/-- A list of parameters up to a mark, which stays. -/
def parameters (annotated : Bool) (close : String) : Reader (List Param) := do
  if ← atMark close then return []
  let (items, _) ← commaList (r.paramItem annotated)
  match arrange? (.before false false) [] items with
  | some ps => if ← atMark close then return ps else fail
  | none =>
      match missingDefault? false items with
      | some p => raise p.line
      | none => fail

/-- A function without a name. -/
def lambdaRule : Reader Expr := do
  let start ← place
  word "lambda"
  let ps ← r.parameters false ":"
  mark ":"
  return .lambda start ps (← r.expression)

/-! ### Expressions -/

/-- Whether two expressions next to each other are no sign of a missing comma:
after a name that may open a statement, or in front of a text. -/
def excusesNeighbour : Reader Bool := do
  let t ← peek
  match t.name? with
  | some id =>
      if id == "match" || id == "case" || id == "_" then return true
      else ahead do
        advance
        match (← peek).kind with
        | .text _ _ _ => pure ()
        | _ => fail
  | none => return false

/-- Whether an expression is the name of a statement of old. -/
def isOldStatement : Expr → Bool
  | .name _ id => id == "print" || id == "exec"
  | _ => false

/-- Raises the fault of an operand in front of what cannot follow it: a further
expression inside brackets, or a condition without its alternative. -/
def explainNeighbour (operand : Expr) : Reader Unit := do
  match ← depthAhead (quietly r.expression) with
  | some depth => if depth ≠ 0 && !isOldStatement operand then raise operand.place.line
  | none => pure ()
  let lacksElse ← ahead <| quietly do
    word "if"
    let _ ← r.disjunctionRule
    if (← atWord "else") || (← atMark ":") then fail
  if lacksElse then raise operand.place.line

/-- A condition and its alternative, after the value it decides about. -/
def conditional (start : Place) (body : Expr) : Reader Expr := do
  word "if"
  let test ← r.disjunctionRule
  word "else"
  return .conditional start test body (← r.expression)

def expressionRule : Reader Expr := do
  let start ← place
  if ← atWord "lambda" then r.lambdaRule
  else
    let excused ← if ← explaining then excusesNeighbour else pure true
    let body ← r.disjunctionRule
    if !excused then r.explainNeighbour body
    if ← atWord "if" then
      match ← attempt (r.conditional start body) with
      | some e => return e
      | none => return body
    else return body

/-! ### The knot -/

/-- The rules whose nested parts are read by these rules. -/
def next : Rules :=
  { expression := r.expressionRule, disjunction := r.disjunctionRule,
    inversion := r.inversionRule, bitOr := r.bitOrRule, factor := r.factorRule,
    primary := r.primaryRule }

end Rules

/-- Rules for expressions that nest at most so deep. -/
def Rules.upTo : Nat → Rules
  | 0 => ⟨fail, fail, fail, fail, fail, fail⟩
  | n + 1 => (Rules.upTo n).next

end Docsig.Code.Parser
