import Docsig.Value.Freeze

/-!
Definitions: what the comment block and the signature of a function declare.

A parameter has a type name, a description, and optionally a default, a schema
of nested parameters and enumeration members. `toValue` gives the exported form
of each part, with its fields in a fixed order; optional parts that are missing
have no field.
-/

namespace Docsig

structure Parameter where
  name : String
  type : String := "any"
  description : String := ""
  /-- The default; none if a value has to be given. -/
  default? : Option Value := none
  /-- The fields of an object, or the one element of an array. -/
  schema? : Option (List Parameter) := none
  /-- The members of an enumeration: labels and values. -/
  members? : Option (List (String × Value)) := none
  deriving Repr, Inhabited

structure ReturnSpec where
  type : String := "any"
  description : String := ""
  name? : Option String := none
  default? : Option Value := none
  schema? : Option (List Parameter) := none
  members? : Option (List (String × Value)) := none
  deriving Repr, Inhabited

structure Context where
  file : String
  line : Int
  column : Int
  deriving DecidableEq, Repr

structure Definition where
  pathname : String
  description : String := ""
  context? : Option Context := none
  returns : ReturnSpec := {}
  charge : Int := 1
  /-- The environment variables that the function reads. -/
  keys : List String := []
  params : List Parameter := []
  deriving Repr, Inhabited

/-! ### Look-up -/

/-- Whether a value may be left out. -/
def Parameter.hasDefault (p : Parameter) : Bool := p.default?.isSome

def Definition.param? (d : Definition) (name : String) : Option Parameter :=
  d.params.find? fun p => p.name == name

/-! ### Export -/

/-- The open form of enumeration members: pairs as lists. -/
def membersValue (members : List (String × Value)) : Value :=
  .list (members.map fun (label, value) => .list [.text label, value.thaw])

def optionalField (name : String) : Option Value → List (String × Value)
  | some v => [(name, v)]
  | none => []

mutual

/-- The exported form of a parameter. -/
def Parameter.toValue : Parameter → Value
  | ⟨name, type, description, default?, schema?, members?⟩ =>
      .record ([("name", .text name), ("type", .text type), ("description", .text description)] ++
        optionalField "defaultValue" (default?.map Value.thaw) ++
        optionalField "schema" (schemaValue? schema?) ++
        optionalField "members" (members?.map membersValue))

def schemaValue? : Option (List Parameter) → Option Value
  | some ps => some (.list (parameterValues ps))
  | none => none

def parameterValues : List Parameter → List Value
  | [] => []
  | p :: ps => Parameter.toValue p :: parameterValues ps

end

def ReturnSpec.toValue (r : ReturnSpec) : Value :=
  .record ([("type", .text r.type), ("description", .text r.description)] ++
    optionalField "name" (r.name?.map .text) ++
    optionalField "defaultValue" (r.default?.map Value.thaw) ++
    optionalField "schema" (schemaValue? r.schema?) ++
    optionalField "members" (r.members?.map membersValue))

def Context.toValue (c : Context) : Value :=
  .record [("file", .text c.file), ("line", .int c.line), ("column", .int c.column)]

/-- The exported form of a definition. -/
def Definition.toValue (d : Definition) : Value :=
  .record [("pathname", .text d.pathname), ("description", .text d.description),
    ("context", (d.context?.map Context.toValue).getD .null), ("returns", d.returns.toValue),
    ("charge", .int d.charge), ("keys", .list (d.keys.map .text)),
    ("params", .list (parameterValues d.params))]

end Docsig
