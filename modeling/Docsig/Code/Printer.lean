import Docsig.Code.Printer.Quotation
import Docsig.Code.Syntax
import Docsig.Number.Shortest

/-!
Expressions as text, with as few parentheses as their meaning allows.

Every operator has a level; an operand stands in parentheses if its level is
below what its place asks for. Texts with fields keep backslashes out of their
fields; where that is impossible the expression has no text.
-/

namespace Docsig.Code.Printer

/-! ### Levels -/

/-- How close an expression binds. -/
inductive Level where
  | named | tuple | yield | test | or | and | not | comparison | bitOr | bitXor | bitAnd | shift
  | sum | term | factor | power | await | atom
  deriving DecidableEq, Repr

def Level.rank : Level → Nat
  | named => 0 | tuple => 1 | yield => 2 | test => 3 | or => 4 | and => 5 | not => 6
  | comparison => 7 | bitOr => 8 | bitXor => 9 | bitAnd => 10 | shift => 11 | sum => 12
  | term => 13 | factor => 14 | power => 15 | await => 16 | atom => 17

/-- The next closer level. -/
def Level.next : Level → Level
  | named => tuple | tuple => yield | yield => test | test => or | or => and | and => not
  | not => comparison | comparison => bitOr | bitOr => bitXor | bitXor => bitAnd
  | bitAnd => shift | shift => sum | sum => term | term => factor | factor => power
  | power => await | await => atom | atom => atom

/-- The text of an expression of a level where another is asked for. -/
def enclose (asked own : Level) (s : String) : String :=
  if own.rank < asked.rank then "(" ++ s ++ ")" else s

/-! ### Operators -/

def binaryText : BinaryOp → String
  | .add => "+" | .sub => "-" | .mul => "*" | .matMul => "@" | .div => "/" | .mod => "%"
  | .pow => "**" | .shiftLeft => "<<" | .shiftRight => ">>" | .bitOr => "|" | .bitXor => "^"
  | .bitAnd => "&" | .floorDiv => "//"

def binaryLevel : BinaryOp → Level
  | .add | .sub => .sum
  | .mul | .matMul | .div | .mod | .floorDiv => .term
  | .pow => .power
  | .shiftLeft | .shiftRight => .shift
  | .bitOr => .bitOr
  | .bitXor => .bitXor
  | .bitAnd => .bitAnd

/-- The levels of the operands: a power groups to the right, all others to the
left. -/
def operandLevels (op : BinaryOp) : Level × Level :=
  let own := binaryLevel op
  if op = .pow then (own.next, own) else (own, own.next)

/-- The text of an operator in front of its operand. -/
def unaryText : UnaryOp → String
  | .plus => "+" | .minus => "-" | .invert => "~" | .not => "not "

/-- The level of an operator in front of its operand. -/
def unaryLevel : UnaryOp → Level
  | .not => .not
  | _ => .factor

/-- The text of an operator that decides by truth. -/
def booleanText : BoolOp → String
  | .and => "and" | .or => "or"

def booleanLevel : BoolOp → Level
  | .and => .and
  | .or => .or

def compareText : CompareOp → String
  | .equal => "==" | .notEqual => "!=" | .less => "<" | .lessEqual => "<=" | .greater => ">"
  | .greaterEqual => ">=" | .same => "is" | .notSame => "is not" | .member => "in"
  | .notMember => "not in"

/-! ### Constants -/

/-- A number beyond all doubles, which reads back as infinity. -/
def infinityText : String := "1e309"

/-- The text of a double as a number. -/
def doubleText (layout : Double.Layout) (d : Double) : String :=
  match d with
  | .infinite _ => infinityText
  | d => String.ofList (d.textIn layout)

/-- The text of a text constant; `sparing` where backslashes are avoided. -/
def textConstant (sparing : Bool) (s : String) : String :=
  if sparing then String.ofList (Quotation.plain s.toList) else Text.quoted s

def constantText (sparing : Bool) : Constant → String
  | .none => "None"
  | .bool b => if b then "True" else "False"
  | .int n => toString n
  | .float d => doubleText .real d
  | .imaginary d => doubleText .imaginary d ++ "j"
  | .text s marked => (if marked then "u" else "") ++ textConstant sparing s
  | .bytes data => String.ofList (Text.quoteBytes data)
  | .ellipsis => "..."

/-- Whether a constant is an integer, after which a point needs a space. -/
def isWhole : Expr → Bool
  | .constant _ (.int _) => true
  | .constant _ (.bool _) => true
  | _ => false

/-! ### Joining -/

def commas (parts : List String) : String := String.intercalate ", " parts

/-- The items of a tuple; a lone one has a comma after it. -/
def tupleItems : List String → String
  | [item] => item ++ ","
  | items => commas items

/-- The items between the brackets of a comprehension. -/
def comprehensionText (kind : ComprehensionKind) (inner : String) : String :=
  match kind with
  | .list => "[" ++ inner ++ "]"
  | .set => "\x7b" ++ inner ++ "\x7d"
  | .generator => "(" ++ inner ++ ")"

/-- A slice of its parts; a missing step has no colon. -/
def sliceText (lower upper : String) (step? : Option String) : String :=
  lower ++ ":" ++ upper ++
    match step? with
    | some step => ":" ++ step
    | none => ""

/-- The texts of parameters, with the marks between their kinds. -/
def paramTexts : Option ParamKind → List (ParamKind × String) → List String
  | before, [] => if before = some .positionalOnly then ["/"] else []
  | before, (kind, s) :: rest =>
      (if before = some .positionalOnly && kind ≠ .positionalOnly then ["/"] else []) ++
        (if kind = .keywordOnly && before ≠ some .keywordOnly && before ≠ some .variadic then ["*"]
          else []) ++
        s :: paramTexts (some kind) rest

/-- A parameter's name, with the stars of its kind. -/
def paramName (kind : ParamKind) (name : String) : String :=
  match kind with
  | .variadic => "*" ++ name
  | .keywords => "**" ++ name
  | _ => name

/-- The text of a function without a name. -/
def lambdaText (params : List (ParamKind × String)) (body : String) : String :=
  match paramTexts none params with
  | [] => "lambda: " ++ body
  | parts => "lambda " ++ commas parts ++ ": " ++ body

/-! ### Fields -/

/-- A literal part, its braces doubled. -/
def doubleBraces (s : String) : List Char :=
  s.toList.flatMap fun c => if c = '\x7b' || c = '\x7d' then [c, c] else [c]

/-- The text of a field; none if its expression holds a backslash. -/
def fieldText? (value : String) (conversion? : Option Char) (format? : Option (List Char)) :
    Option (List Char) :=
  if value.toList.contains '\\' then none
  else
    let space := if value.toList.head? = some '\x7b' then [' '] else []
    let conversion := match conversion? with | some c => ['!', c] | none => []
    let format := match format? with | some cs => ':' :: cs | none => []
    some ('\x7b' :: (space ++ value.toList ++ conversion ++ format ++ ['\x7d']))

def joinedText (sparing : Bool) (parts : List (List Char × Bool)) : String :=
  String.ofList <|
    'f' :: if sparing then Quotation.plain (parts.flatMap Prod.fst) else Quotation.ofParts parts

/-! ### Expressions -/

mutual

/-- The text of an expression where a level is asked for; `sparing` inside a
field. -/
def print (sparing : Bool) (asked : Level) : Expr → Option String
  | .constant _ c => some (constantText sparing c)
  | .name _ id => some id
  | .joined _ parts => do return joinedText sparing (← printParts parts)
  | .list _ items => do return "[" ++ commas (← printAll sparing .test items) ++ "]"
  | .tuple _ items => do
      let inner := tupleItems (← printAll sparing .test items)
      return if items.isEmpty || Level.tuple.rank < asked.rank then "(" ++ inner ++ ")" else inner
  | .set _ items => do return "\x7b" ++ commas (← printAll sparing .test items) ++ "\x7d"
  | .dict _ entries => do return "\x7b" ++ commas (← printEntries sparing entries) ++ "\x7d"
  | .comprehension _ kind element clauses => do
      let inner ← print sparing .test element
      return comprehensionText kind (inner ++ (← printClauses sparing clauses))
  | .dictComprehension _ key value clauses => do
      let key ← print sparing .test key
      let value ← print sparing .test value
      return "\x7b" ++ key ++ ": " ++ value ++ (← printClauses sparing clauses) ++ "\x7d"
  | .unary _ op operand => do
      let inner ← print sparing (unaryLevel op) operand
      return enclose asked (unaryLevel op) (unaryText op ++ inner)
  | .binary _ left op right => do
      let left ← print sparing (operandLevels op).1 left
      let right ← print sparing (operandLevels op).2 right
      return enclose asked (binaryLevel op) (left ++ " " ++ binaryText op ++ " " ++ right)
  | .boolean _ op operands => do
      let parts ← printOperands sparing (booleanLevel op).next operands
      return enclose asked (booleanLevel op)
        (String.intercalate (" " ++ booleanText op ++ " ") parts)
  | .compare _ left rest => do
      let left ← print sparing Level.comparison.next left
      return enclose asked .comparison (left ++ (← printComparisons sparing rest))
  | .conditional _ test body otherwise => do
      let body ← print sparing Level.test.next body
      let test ← print sparing Level.test.next test
      let otherwise ← print sparing .test otherwise
      return enclose asked .test (body ++ " if " ++ test ++ " else " ++ otherwise)
  | .lambda _ params body => do
      let params ← printParams sparing params
      return enclose asked .test (lambdaText params (← print sparing .test body))
  | .named _ target value => do
      let target ← print sparing .atom target
      return enclose asked .named (target ++ " := " ++ (← print sparing .atom value))
  | .starred _ value => do return "*" ++ (← print sparing .bitOr value)
  | .await _ value => do return enclose asked .await ("await " ++ (← print sparing .atom value))
  | .yield _ value? => do
      match ← printOptional sparing .atom value? with
      | some value => return enclose asked .yield ("yield " ++ value)
      | none => return enclose asked .yield "yield"
  | .yieldFrom _ value => do
      return enclose asked .yield ("yield from " ++ (← print sparing .atom value))
  | .access _ value id => do
      let inner ← print sparing .atom value
      return inner ++ (if isWhole value then " ." else ".") ++ id
  | .subscript _ value (.tuple _ (e :: es)) => do
      let value ← print sparing .atom value
      let first ← print sparing .test e
      return value ++ "[" ++ tupleItems (first :: (← printAll sparing .test es)) ++ "]"
  | .subscript _ value index => do
      let value ← print sparing .atom value
      return value ++ "[" ++ (← print sparing .test index) ++ "]"
  | .slice _ lower? upper? step? => do
      let lower ← printOptional sparing .test lower?
      let upper ← printOptional sparing .test upper?
      return sliceText (lower.getD "") (upper.getD "") (← printOptional sparing .test step?)
  | .call _ callee args keywords => do
      let callee ← print sparing .atom callee
      let args ← printAll sparing .test args
      return callee ++ "(" ++ commas (args ++ (← printKeywords sparing keywords)) ++ ")"

def printAll (sparing : Bool) (asked : Level) : List Expr → Option (List String)
  | [] => some []
  | e :: es => do
      let s ← print sparing asked e
      return s :: (← printAll sparing asked es)

def printOptional (sparing : Bool) (asked : Level) : Option Expr → Option (Option String)
  | some e => do return some (← print sparing asked e)
  | none => some none

/-- The texts of operands, each of which is asked for a closer level than the one
before. -/
def printOperands (sparing : Bool) (asked : Level) : List Expr → Option (List String)
  | [] => some []
  | e :: es => do
      let s ← print sparing asked e
      return s :: (← printOperands sparing asked.next es)

def printEntries (sparing : Bool) : List (Option Expr × Expr) → Option (List String)
  | [] => some []
  | (none, value) :: es => do
      let value ← print sparing .bitOr value
      return ("**" ++ value) :: (← printEntries sparing es)
  | (some key, value) :: es => do
      let key ← print sparing .test key
      let value ← print sparing .test value
      return (key ++ ": " ++ value) :: (← printEntries sparing es)

/-- The text of a chain of comparisons after its first operand. -/
def printComparisons (sparing : Bool) : List (CompareOp × Expr) → Option String
  | [] => some ""
  | (op, e) :: es => do
      let s ← print sparing Level.comparison.next e
      return " " ++ compareText op ++ " " ++ s ++ (← printComparisons sparing es)

def printKeywords (sparing : Bool) : List (Option String × Expr) → Option (List String)
  | [] => some []
  | (name?, e) :: es => do
      let s ← print sparing .test e
      let lead := match name? with | some name => name ++ "=" | none => "**"
      return (lead ++ s) :: (← printKeywords sparing es)

def printClauses (sparing : Bool) : List Clause → Option String
  | [] => some ""
  | .mk async target iterable conditions :: cs => do
      let target ← print sparing .tuple target
      let iterable ← print sparing Level.test.next iterable
      let conditions ← printAll sparing Level.test.next conditions
      let text := (if async then " async for " else " for ") ++ target ++ " in " ++ iterable ++
        String.join (conditions.map fun c => " if " ++ c)
      return text ++ (← printClauses sparing cs)

/-- The texts of parameters, with their kinds. -/
def printParams (sparing : Bool) : List Param → Option (List (ParamKind × String))
  | [] => some []
  | .mk _ kind name _ default? :: ps => do
      let value? ← printOptional sparing .test default?
      let value := match value? with | some s => "=" ++ s | none => ""
      return (kind, paramName kind name ++ value) :: (← printParams sparing ps)

/-- The texts of the parts of a text with fields, literals marked. -/
def printParts : List TextPart → Option (List (List Char × Bool))
  | [] => some []
  | .literal s :: ps => do return (doubleBraces s, true) :: (← printParts ps)
  | .field value conversion? format? :: ps => do
      let value ← print true Level.test.next value
      let format? ← printFormat format?
      let field ← fieldText? value conversion? format?
      return (field, false) :: (← printParts ps)

def printFormat : Option (List TextPart) → Option (Option (List Char))
  | some ps => do return some ((← printParts ps).flatMap Prod.fst)
  | none => some none

end

/-- The text of an expression that stands alone; none if a field of it would need
a backslash. -/
def text? (e : Expr) : Option String := print false .test e

end Docsig.Code.Printer
