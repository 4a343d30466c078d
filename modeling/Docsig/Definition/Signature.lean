import Docsig.Code.Syntax
import Docsig.Definition.Basic
import Docsig.Definition.Fault

/-!
Signatures: the parameters of an entry function.

Only plain parameters are allowed, with names of their own. A last parameter with
the name of the context is no parameter of the definition; its place is kept.
-/

namespace Docsig.Definition

structure Formal where
  name : String
  place : Code.Place
  default? : Option Code.Expr

structure Signature where
  formals : List Formal
  context? : Option Context

namespace Signature

def formalOf (p : Code.Param) : Formal := ⟨p.name, p.place, p.default?⟩

/-- Whether a parameter takes all further arguments. -/
def isVariadic (p : Code.Param) : Bool := p.kind = .variadic || p.kind = .keywords

/-- Checks that names differ; `seen` are those so far. -/
def checkNames (seen : List String) : List Formal → Except LocalFault Unit
  | [] => .ok ()
  | f :: fs =>
      if seen.contains f.name then .error ((Cause.duplicateParameter f.name).at f.place.line)
      else checkNames (f.name :: seen) fs

def contextOf (pathname : String) (f : Formal) : Context :=
  ⟨pathname, f.place.line, f.place.column + 1⟩

/-- Splits off a last context parameter. -/
def splitContext (formals : List Formal) : List Formal × Option Formal :=
  match formals.getLast? with
  | some last => if last.name = contextName then (formals.dropLast, some last) else (formals, none)
  | none => (formals, none)

/-- Checks that no parameter has the name of the context. -/
def checkContext : List Formal → Except LocalFault Unit
  | [] => .ok ()
  | f :: fs =>
      if f.name = contextName then .error (Cause.contextNotLast.at f.place.line) else checkContext fs

def ofFunction (pathname : String) (f : Code.Function) : Except LocalFault Signature := do
  if f.params.any isVariadic then throw (Cause.variadic.at f.place.line)
  if f.params.any fun p => p.kind ≠ .regular then throw (Cause.keywordOnly.at f.place.line)
  let formals := f.params.map formalOf
  checkNames [] formals
  let (formals, context?) := splitContext formals
  checkContext formals
  return ⟨formals, context?.map (contextOf pathname)⟩

end Signature

end Docsig.Definition
