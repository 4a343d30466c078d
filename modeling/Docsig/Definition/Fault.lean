import Docsig.Code.Literal
import Docsig.Comment.Block
import Docsig.Text.Utf8
import Docsig.Types.Tag

/-!
Faults of definitions.

A fault names the file, the line if there is one, and the cause. `Fault.message`
is the full wording; it always starts with the path.
-/

namespace Docsig

namespace Definition

inductive Cause where
  /-- The bytes of the file are no text. -/
  | encoding (fault : Text.Utf8.Fault)
  /-- The source or its path holds a null character. -/
  | nullCharacter
  | invalidSyntax
  | noFunction
  | comment (fault : Comment.Fault)
  | invalidName (name : String)
  | unknownType (type label : String)
  | invalidMember (fault : Code.Literal.TextFault)
  | memberShape (text : String)
  | duplicateLabel (label : String)
  | noMembers (label : String)
  | duplicateName (name scope : String)
  | duplicateReturns
  /-- A schema field with nothing above it. -/
  | orphanField (name : String)
  | parentType (name parent type : String)
  | secondElement (parent : String)
  | duplicateCharge
  | chargeText
  | chargeAmount (text : String)
  | variadic
  | keywordOnly
  | duplicateParameter (name : String)
  | contextNotLast
  | invalidDefault (name : String) (cause : Code.Literal.Cause)
  | parameterCount (declared found : Nat)
  | parameterName (position : Nat) (found declared : String)
  | defaultType (default : Value) (name type : String)
  | undeclared (name : String)
  deriving Repr

/-- The name of the parameter that holds the context. -/
def contextName : String := "context"

def Cause.message : Cause → String
  | encoding fault => "File is not valid UTF-8: " ++ fault.message
  | nullCharacter => "Source holds a null character"
  | invalidSyntax => "Invalid Python syntax"
  | noFunction => "No top-level function definition found"
  | comment fault => fault.message
  | invalidName name => "Invalid parameter name '" ++ name ++ "'"
  | unknownType type label =>
      "Unknown type '" ++ type ++ "' for '" ++ label ++ "'. Valid types: " ++
        Value.displayTexts (Tag.all.map Tag.name)
  | invalidMember fault => "Invalid enum member: " ++ fault.message
  | memberShape text =>
      "Enum member must be a [label, value] pair with a string label, got " ++ text
  | duplicateLabel label => "Duplicate enum label '" ++ label ++ "'"
  | noMembers label => "Enum '" ++ label ++ "' must list at least one member"
  | duplicateName name scope => "Duplicate name '" ++ name ++ "' in " ++ scope
  | duplicateReturns => "Duplicate @returns declaration"
  | orphanField name =>
      "Schema entry '" ++ name ++ "' has no @param or @returns to belong to"
  | parentType name parent type =>
      "Schema entry '" ++ name ++ "' is nested under '" ++ parent ++ "' of type '" ++ type ++
        "', expected object or array"
  | secondElement parent => "Array '" ++ parent ++ "' accepts exactly one schema entry"
  | duplicateCharge => "Duplicate @charge declaration"
  | chargeText => "Unexpected text after @charge"
  | chargeAmount text => "Charge must be a positive integer, got '" ++ text ++ "'"
  | variadic => "Variadic parameters (*args, **kwargs) are not supported"
  | keywordOnly => "Keyword-only and positional-only parameters are not supported"
  | duplicateParameter name => "Duplicate parameter name '" ++ name ++ "'"
  | contextNotLast => "'" ++ contextName ++ "' must be the last parameter"
  | invalidDefault name cause =>
      "Invalid default value for parameter '" ++ name ++ "': " ++ cause.message
  | parameterCount declared found =>
      "Comment declares " ++ toString declared ++ " parameter(s) but the signature has " ++
        toString found
  | parameterName position found declared =>
      "Parameter #" ++ toString position ++ " is named '" ++ found ++
        "' in the signature but '" ++ declared ++ "' in the comment"
  | defaultType default name type =>
      "Default value " ++ default.display ++ " for parameter '" ++ name ++
        "' does not match type '" ++ type ++ "'"
  | undeclared name =>
      "Parameter '" ++ name ++ "' is not declared in the comment " ++
        "and has no default value to infer its type from"

/-- Whether a cause is raised as the fault of a definition. A null character and a part of
a literal that has no text come up as they are met, without the file. -/
def Cause.isReported : Cause → Bool
  | nullCharacter => false
  | invalidMember .nullCharacter => false
  | invalidMember (.fault ⟨.unprintable, _⟩) => false
  | invalidDefault _ .unprintable => false
  | _ => true

/-- Why a file gives no definition, and where. -/
structure Fault where
  pathname : String
  line? : Option Nat
  cause : Cause
  deriving Repr

/-- The wording of a fault, after its place. -/
def Fault.placed (pathname : String) (line? : Option Nat) (message : String) : String :=
  match line? with
  | some line => pathname ++ ":" ++ toString line ++ ": " ++ message
  | none => pathname ++ ": " ++ message

def Fault.message (f : Fault) : String := Fault.placed f.pathname f.line? f.cause.message

/-- A cause and its line, before the file is known. -/
structure LocalFault where
  line? : Option Nat
  cause : Cause
  deriving Repr

/-- The fault in a file. -/
def LocalFault.inFile (pathname : String) (f : LocalFault) : Fault := ⟨pathname, f.line?, f.cause⟩

/-- A cause on a line. -/
def Cause.at (cause : Cause) (line : Nat) : LocalFault := ⟨some line, cause⟩

end Definition

end Docsig
