import Docsig.Code.Syntax

/-!
The environment variables that a function names.

A variable is named by a constant text: as the index of the environment, as the
first argument of its getter, or as the first argument of the getter function.
`Function.environmentKeys` lists the names by their first place.
-/

namespace Docsig.Code

/-- The name of a variable and the place where it stands. -/
structure KeyUse where
  place : Place
  name : String
  deriving DecidableEq, Repr

/-! ### Single expressions -/

/-- Whether an expression is a name, or a member of the system module with that
name. -/
def isSystemName (id : String) : Expr → Bool
  | .access _ (.name _ module) member => module == "os" && member == id
  | .name _ name => name == id
  | _ => false

/-- The use of a constant text as a key. -/
def keyUse : Expr → List KeyUse
  | .constant place (.text s _) => [⟨place, s⟩]
  | _ => []

/-- Whether the first argument of a call names a variable. -/
def isGetter : Expr → Bool
  | .access p value member =>
      (member == "get" && isSystemName "environ" value) ||
        isSystemName "getenv" (.access p value member)
  | e => isSystemName "getenv" e

/-- The use of a key in the first argument of a call. -/
def firstKeyUse : List Expr → List KeyUse
  | e :: _ => keyUse e
  | [] => []

/-! ### Everything inside an expression -/

mutual

/-- The uses of keys inside an expression. -/
def Expr.keyUses : Expr → List KeyUse
  | .constant _ _ => []
  | .name _ _ => []
  | .joined _ parts => partUses parts
  | .list _ items => allUses items
  | .tuple _ items => allUses items
  | .set _ items => allUses items
  | .dict _ entries => entryUses entries
  | .comprehension _ _ element clauses => element.keyUses ++ clauseUses clauses
  | .dictComprehension _ key value clauses => key.keyUses ++ value.keyUses ++ clauseUses clauses
  | .unary _ _ operand => operand.keyUses
  | .binary _ left _ right => left.keyUses ++ right.keyUses
  | .boolean _ _ operands => allUses operands
  | .compare _ left rest => left.keyUses ++ comparisonUses rest
  | .conditional _ test body otherwise => test.keyUses ++ body.keyUses ++ otherwise.keyUses
  | .lambda _ params body => paramUses params ++ body.keyUses
  | .named _ target value => target.keyUses ++ value.keyUses
  | .starred _ value => value.keyUses
  | .await _ value => value.keyUses
  | .yield _ value? => optionUses value?
  | .yieldFrom _ value => value.keyUses
  | .access _ value _ => value.keyUses
  | .subscript _ value index =>
      (if isSystemName "environ" value then keyUse index else []) ++ value.keyUses ++ index.keyUses
  | .slice _ lower? upper? step? => optionUses lower? ++ optionUses upper? ++ optionUses step?
  | .call _ callee args keywords =>
      (if isGetter callee then firstKeyUse args else []) ++ callee.keyUses ++ allUses args ++
        keywordUses keywords

def allUses : List Expr → List KeyUse
  | [] => []
  | e :: es => e.keyUses ++ allUses es

def optionUses : Option Expr → List KeyUse
  | some e => e.keyUses
  | none => []

/-- The uses of keys inside the entries of a map. -/
def entryUses : List (Option Expr × Expr) → List KeyUse
  | [] => []
  | (some key, value) :: es => key.keyUses ++ value.keyUses ++ entryUses es
  | (none, value) :: es => value.keyUses ++ entryUses es

def comparisonUses : List (CompareOp × Expr) → List KeyUse
  | [] => []
  | (_, e) :: es => e.keyUses ++ comparisonUses es

def keywordUses : List (Option String × Expr) → List KeyUse
  | [] => []
  | (_, e) :: es => e.keyUses ++ keywordUses es

/-- The uses of keys inside the clauses of a comprehension. -/
def clauseUses : List Clause → List KeyUse
  | [] => []
  | .mk _ target iterable conditions :: cs =>
      target.keyUses ++ iterable.keyUses ++ allUses conditions ++ clauseUses cs

def paramUses : List Param → List KeyUse
  | [] => []
  | .mk _ _ _ annotation? default? :: ps =>
      optionUses annotation? ++ optionUses default? ++ paramUses ps

def partUses : List TextPart → List KeyUse
  | [] => []
  | .literal _ :: ps => partUses ps
  | .field value _ format? :: ps => value.keyUses ++ formatUses format? ++ partUses ps

def formatUses : Option (List TextPart) → List KeyUse
  | some ps => partUses ps
  | none => []

end

/-! ### Everything inside a statement -/

/-- The uses of keys inside the items of a "with" statement. -/
def itemUses : List (Expr × Option Expr) → List KeyUse
  | [] => []
  | (e, target?) :: items => e.keyUses ++ optionUses target? ++ itemUses items

mutual

/-- The uses of keys inside a statement. -/
def Statement.keyUses : Statement → List KeyUse
  | .define f => f.keyUses
  | .classDef decorators _ args keywords body =>
      allUses decorators ++ allUses args ++ keywordUses keywords ++ blockUses body
  | .expression e => e.keyUses
  | .assign targets value => allUses targets ++ value.keyUses
  | .annotated target annotation value? =>
      target.keyUses ++ annotation.keyUses ++ optionUses value?
  | .augmented target _ value => target.keyUses ++ value.keyUses
  | .delete targets => allUses targets
  | .leave parts => allUses parts
  | .plain => []
  | .branch test body otherwise => test.keyUses ++ blockUses body ++ blockUses otherwise
  | .loop test body otherwise => test.keyUses ++ blockUses body ++ blockUses otherwise
  | .iterate target iterable body otherwise =>
      target.keyUses ++ iterable.keyUses ++ blockUses body ++ blockUses otherwise
  | .withItems items body => itemUses items ++ blockUses body
  | .guarded body handlers otherwise final =>
      blockUses body ++ handlerUses handlers ++ blockUses otherwise ++ blockUses final
  | .select subject cases => subject.keyUses ++ caseUses cases

/-- The uses of keys inside a function, its decorators and its signature
included. -/
def Function.keyUses : Function → List KeyUse
  | .mk _ decorators _ params returns? body =>
      allUses decorators ++ paramUses params ++ optionUses returns? ++ blockUses body

def blockUses : List Statement → List KeyUse
  | [] => []
  | s :: ss => s.keyUses ++ blockUses ss

def handlerUses : List Handler → List KeyUse
  | [] => []
  | .mk type? body :: hs => optionUses type? ++ blockUses body ++ handlerUses hs

def caseUses : List Case → List KeyUse
  | [] => []
  | .mk pattern guard? body :: cs =>
      allUses pattern ++ optionUses guard? ++ blockUses body ++ caseUses cs

end

/-! ### Order -/

/-- Whether a use stands before another, or in the same place and not after it by
name. -/
def KeyUse.before (a b : KeyUse) : Bool :=
  if a.place.line ≠ b.place.line then a.place.line < b.place.line
  else if a.place.column ≠ b.place.column then a.place.column < b.place.column
  else !(b.name < a.name)

/-- The texts of a list without repetitions, each at its first place. -/
def distinct : List String → List String
  | [] => []
  | s :: ss => s :: (distinct ss).filter (· ≠ s)

/-- The environment variables that a function names, by their first place. -/
def Function.environmentKeys (f : Function) : List String :=
  distinct ((f.keyUses.mergeSort KeyUse.before).map KeyUse.name)

end Docsig.Code
