import Docsig.Number.Double

/-!
The syntax of source files: expressions and statements.

Every expression carries the place where it starts. Statements keep what the
library looks at: functions with their signatures, and the expressions and
statements inside everything else.
-/

namespace Docsig.Code

/-- A place in a source: the line, counted from one, and the bytes before it in
that line. -/
structure Place where
  line : Nat
  column : Nat
  deriving DecidableEq, Repr, Inhabited

/-! ### Constants and operators -/

inductive Constant where
  | none
  | bool (b : Bool)
  | int (n : Nat)
  | float (d : Double)
  | imaginary (d : Double)
  /-- A text; `marked` if its first part is marked as Unicode. -/
  | text (s : String) (marked : Bool)
  | bytes (data : List UInt8)
  | ellipsis
  deriving DecidableEq, Repr, Inhabited

inductive BinaryOp where
  | add | sub | mul | matMul | div | mod | pow | shiftLeft | shiftRight | bitOr | bitXor | bitAnd
  | floorDiv
  deriving DecidableEq, Repr, Inhabited

inductive UnaryOp where
  | plus | minus | invert | not
  deriving DecidableEq, Repr, Inhabited

/-- An operator that decides by the truth of its operands. -/
inductive BoolOp where
  | and | or
  deriving DecidableEq, Repr, Inhabited

inductive CompareOp where
  | equal | notEqual | less | lessEqual | greater | greaterEqual | same | notSame | member
  | notMember
  deriving DecidableEq, Repr, Inhabited

/-- What a comprehension builds. -/
inductive ComprehensionKind where
  | list | set | generator
  deriving DecidableEq, Repr, Inhabited

/-- How a parameter takes its argument. -/
inductive ParamKind where
  | positionalOnly
  | regular
  /-- All further positional arguments. -/
  | variadic
  | keywordOnly
  /-- All further keyword arguments. -/
  | keywords
  deriving DecidableEq, Repr, Inhabited

/-! ### Expressions -/

mutual

inductive Expr where
  | constant (place : Place) (value : Constant)
  | name (place : Place) (id : String)
  | joined (place : Place) (parts : List TextPart)
  | list (place : Place) (items : List Expr)
  | tuple (place : Place) (items : List Expr)
  | set (place : Place) (items : List Expr)
  /-- Entries; one without a key spreads a map. -/
  | dict (place : Place) (entries : List (Option Expr × Expr))
  | comprehension (place : Place) (kind : ComprehensionKind) (element : Expr)
      (clauses : List Clause)
  | dictComprehension (place : Place) (key value : Expr) (clauses : List Clause)
  | unary (place : Place) (op : UnaryOp) (operand : Expr)
  | binary (place : Place) (left : Expr) (op : BinaryOp) (right : Expr)
  | boolean (place : Place) (op : BoolOp) (operands : List Expr)
  | compare (place : Place) (left : Expr) (rest : List (CompareOp × Expr))
  | conditional (place : Place) (test body otherwise : Expr)
  | lambda (place : Place) (params : List Param) (body : Expr)
  | named (place : Place) (target value : Expr)
  | starred (place : Place) (value : Expr)
  | await (place : Place) (value : Expr)
  | yield (place : Place) (value? : Option Expr)
  | yieldFrom (place : Place) (value : Expr)
  | access (place : Place) (value : Expr) (id : String)
  | subscript (place : Place) (value index : Expr)
  | slice (place : Place) (lower? upper? step? : Option Expr)
  /-- A call; a keyword argument without a name spreads a map. -/
  | call (place : Place) (callee : Expr) (args : List Expr)
      (keywords : List (Option String × Expr))

/-- A part of a text with fields. -/
inductive TextPart where
  | literal (s : String)
  /-- A field with its conversion and the parts of its format. -/
  | field (value : Expr) (conversion? : Option Char) (format? : Option (List TextPart))

inductive Clause where
  | mk (async : Bool) (target iterable : Expr) (conditions : List Expr)

/-- A parameter of a signature. -/
inductive Param where
  | mk (place : Place) (kind : ParamKind) (name : String) (annotation? default? : Option Expr)

end

instance : Inhabited Expr := ⟨.constant default default⟩

instance : Inhabited Param := ⟨.mk default default default none none⟩

def Expr.place : Expr → Place
  | constant p _ | name p _ | joined p _ | list p _ | tuple p _ | set p _ | dict p _
  | comprehension p _ _ _ | dictComprehension p _ _ _ | unary p _ _ | binary p _ _ _
  | boolean p _ _ | compare p _ _ | conditional p _ _ _ | lambda p _ _ | named p _ _
  | starred p _ | await p _ | yield p _ | yieldFrom p _ | access p _ _ | subscript p _ _
  | slice p _ _ _ | call p _ _ _ => p

namespace Param

def place : Param → Place
  | mk p _ _ _ _ => p

def kind : Param → ParamKind
  | mk _ k _ _ _ => k

def name : Param → String
  | mk _ _ n _ _ => n

def default? : Param → Option Expr
  | mk _ _ _ _ d => d

end Param

/-! ### Statements -/

mutual

inductive Statement where
  | define (f : Function)
  | classDef (decorators : List Expr) (name : String) (args : List Expr)
      (keywords : List (Option String × Expr)) (body : List Statement)
  | expression (e : Expr)
  | assign (targets : List Expr) (value : Expr)
  | annotated (target annotation : Expr) (value? : Option Expr)
  | augmented (target : Expr) (op : BinaryOp) (value : Expr)
  | delete (targets : List Expr)
  /-- A return, an assertion or the raising of an exception, by its parts. -/
  | leave (parts : List Expr)
  /-- A statement without expressions. -/
  | plain
  | branch (test : Expr) (body otherwise : List Statement)
  | loop (test : Expr) (body otherwise : List Statement)
  | iterate (target iterable : Expr) (body otherwise : List Statement)
  | withItems (items : List (Expr × Option Expr)) (body : List Statement)
  | guarded (body : List Statement) (handlers : List Handler) (otherwise final : List Statement)
  | select (subject : Expr) (cases : List Case)

/-- A function with its signature. -/
inductive Function where
  | mk (place : Place) (decorators : List Expr) (name : String) (params : List Param)
      (returns? : Option Expr) (body : List Statement)

inductive Handler where
  | mk (type? : Option Expr) (body : List Statement)

/-- A case of a selection: the expressions that its pattern compares with, its
condition and its body. -/
inductive Case where
  | mk (pattern : List Expr) (guard? : Option Expr) (body : List Statement)

end

instance : Inhabited Function := ⟨.mk default [] default [] none []⟩

namespace Function

/-- The place where the function starts, below its decorators. -/
def place : Function → Place
  | mk p _ _ _ _ _ => p

def decorators : Function → List Expr
  | mk _ ds _ _ _ _ => ds

def params : Function → List Param
  | mk _ _ _ ps _ _ => ps

end Function

end Docsig.Code
