import Docsig.Comment.Line

/-!
Declarations in a comment block.

A line that starts with an at sign declares something: a parameter, what is
returned, a field of a schema, or a charge. The type stands in braces, with a
question mark in front if null is allowed. `Heading.read` reads such a line.
-/

namespace Docsig.Comment

/-- A type as it is written in a declaration. -/
structure TypeMark where
  name : String
  nullable : Bool
  deriving DecidableEq, Repr, Inhabited

/-- What the first line of a declaration says. -/
inductive Heading where
  | param (type : TypeMark) (name : String) (text : String)
  | returns (type : TypeMark) (text : String)
  /-- A field of the schema above it, by its indentation. -/
  | field (indent : Nat) (type : TypeMark) (name : String) (text : String)
  | charge (amount : String)
  deriving DecidableEq, Repr, Inhabited

/-- A declaration: its first line and the lines that continue it. -/
structure Declaration where
  heading : Heading
  line : Nat
  extra : List String
  deriving DecidableEq, Repr, Inhabited

/-- Why a line declares nothing. -/
inductive Fault where
  | malformedParam (line : String)
  | malformedReturns (line : String)
  | malformedCharge (line : String)
  | malformedField (line : String)
  | unknownTag (tag : String)
  deriving DecidableEq, Repr

def Fault.message : Fault → String
  | malformedParam line =>
      "Malformed @param line, expected '@param \x7btype\x7d name description': '" ++ line ++ "'"
  | malformedReturns line =>
      "Malformed @returns line, expected '@returns \x7btype\x7d description': '" ++ line ++ "'"
  | malformedCharge line => "Malformed @charge line: '" ++ line ++ "'"
  | malformedField line =>
      "Malformed schema line, expected '@ \x7btype\x7d name description': '" ++ line ++ "'"
  | unknownTag tag => "Unknown tag '@" ++ tag ++ "'"

/-! ### Parts of a line -/

/-- The run of white space at the start of a text, if there is one, and the
rest. -/
def takeBlank? (cs : List Char) : Option (List Char × List Char) :=
  match cs.takeWhile Text.isBlank with
  | [] => none
  | blank => some (blank, cs.dropWhile Text.isBlank)

/-- The word at the start of a text, if there is one, and the rest. -/
def takeWord? (cs : List Char) : Option (List Char × List Char) :=
  match cs.takeWhile fun c => !Text.isBlank c with
  | [] => none
  | word => some (word, cs.dropWhile fun c => !Text.isBlank c)

def isTypeChar (c : Char) : Bool := c ≠ '\x7d' && !Text.isBlank c

/-- The type in braces at the start of a text, and the rest. -/
def takeType? (cs : List Char) : Option (TypeMark × List Char) :=
  match cs with
  | '\x7b' :: cs =>
      let cs := Text.trimStart cs
      let nullable := cs.head? = some '?'
      let cs := if nullable then Text.trimStart (cs.drop 1) else cs
      let name := cs.takeWhile isTypeChar
      match Text.trimStart (cs.dropWhile isTypeChar) with
      | '\x7d' :: rest => some (⟨String.ofList name, nullable⟩, rest)
      | _ => none
  | _ => none

/-- The description after a type or a name: nothing, or white space and text. -/
def takeText? (cs : List Char) : Option String :=
  match cs with
  | [] => some ""
  | c :: _ => if Text.isBlank c then some (String.ofList (Text.trim cs)) else none

/-- A type, a name and a description. -/
def takeNamed? (cs : List Char) : Option (TypeMark × String × String) := do
  let (type, rest) ← takeType? cs
  let (_, rest) ← takeBlank? rest
  let (name, rest) ← takeWord? rest
  let text ← takeText? rest
  return (type, String.ofList name, text)

/-! ### Headings -/

def paramHeading? (cs : List Char) : Option Heading := do
  let (_, rest) ← takeBlank? cs
  let (type, name, text) ← takeNamed? rest
  return .param type name text

/-- The heading of a return value, after its tag. -/
def returnsHeading? (cs : List Char) : Option Heading := do
  let (_, rest) ← takeBlank? cs
  let (type, rest) ← takeType? rest
  let text ← takeText? rest
  return .returns type text

/-- The heading of a schema field, after the at sign. -/
def fieldHeading? (cs : List Char) : Option Heading := do
  let (blank, rest) ← takeBlank? cs
  let (type, name, text) ← takeNamed? rest
  return .field (Text.indentWidth blank) type name text

def chargeHeading? (cs : List Char) : Option Heading := do
  let (_, rest) ← takeBlank? cs
  let (amount, rest) ← takeWord? rest
  if rest.isEmpty then return .charge (String.ofList amount) else none

/-- A heading, or the fault of a line that has none. -/
def orFault (fault : Fault) : Option Heading → Except Fault Heading
  | some h => .ok h
  | none => .error fault

/-- Reads a line after its at sign; `line` is the whole line. -/
def readHeading (line : String) (cs : List Char) : Except Fault Heading :=
  let tag := String.ofList (cs.takeWhile fun c => !Text.isBlank c)
  let rest := cs.dropWhile fun c => !Text.isBlank c
  if tag = "" then orFault (.malformedField line) (fieldHeading? cs)
  else if tag = "param" then orFault (.malformedParam line) (paramHeading? rest)
  else if tag = "returns" || tag = "return" then
    orFault (.malformedReturns line) (returnsHeading? rest)
  else if tag = "charge" then orFault (.malformedCharge line) (chargeHeading? rest)
  else .error (.unknownTag tag)

end Docsig.Comment
