import Docsig.Definition.Basic
import Docsig.JsonSchema.Check
import Docsig.Types.Classify

/-!
The JSON Schemas of parameters and definitions.

A parameter's type gives the keywords, its description is added, and a default
makes null an alternative. The schema of a definition describes the object of
its arguments.
-/

namespace Docsig

namespace Schema

def dialect : String := "http://json-schema.org/draft-07/schema#"

inductive Fault where
  | unknownType (name : String)
  | repeatedRequired
  deriving DecidableEq, Repr

/-! ### Fixed schemas -/

/-- A count from zero. -/
def count : Schema := [.kind .integer, .minimum 0]

def byteList : Schema :=
  [.kind .object,
    .properties [("_bytes",
      [.kind .array, .items [.kind .integer, .minimum 0, .maximum 255]])],
    .required ["_bytes"], .closed]

/-- Bytes as base64 text. -/
def byteText : Schema :=
  [.kind .object, .properties [("_base64", [.kind .string])], .required ["_base64"], .closed]

/-- A pagination object. -/
def limit : Schema :=
  [.kind .object, .properties [("count", count), ("offset", count)], .closed]

/-! ### Schemas of parameters -/

/-- Fields with a schema under a name; a repeated name keeps its place. -/
def putField (name : String) (schema : Schema) :
    List (String × Schema) → List (String × Schema)
  | [] => [(name, schema)]
  | (other, old) :: fields =>
      if other == name then (other, schema) :: fields
      else (other, old) :: putField name schema fields

/-- The schema of an object with named fields. -/
def ofFields (fields : List (String × Schema)) (required : List String) : Schema :=
  [.kind .object, .properties (fields.foldl (fun fs (name, schema) => putField name schema fs) []),
    .required required]

/-- A schema with a description, if there is one. -/
def described (schema : Schema) (description : String) : Schema :=
  if description.isEmpty then schema else schema ++ [.description description]

/-- A schema with null as an alternative. -/
def orNull (schema : Schema) : Schema := [.anyOf [schema, [.kind .null]]]

/-- The keywords of a type, given the schemas of its fields, of its element and
the labels of its members. -/
def ofTag (fields : Option Schema) (element : Option Schema) (labels : List String) :
    Tag → Schema
  | .string => [.kind .string]
  | .number => [.kind .number]
  | .float => [.kind .number]
  | .integer => [.kind .integer, .minimum (-maxSafeInteger), .maximum maxSafeInteger]
  | .boolean => [.kind .boolean]
  | .object => fields.getD [.kind .object]
  | .array => .kind .array :: (element.map Keyword.items).toList
  | .buffer => [.oneOf [byteList, byteText]]
  | .enum => [.enum labels]
  | .any => []
  | .query => [.kind .object]
  | .limit => limit

/-- A schema with the description, and with null where a default is given. Any
value includes null already. -/
def finish (p : Parameter) (tag : Tag) (schema : Schema) : Schema :=
  let schema := described schema p.description
  if p.hasDefault && tag != .any then orNull schema else schema

/-- The names of the parameters without a default. -/
def requiredNames (ps : List Parameter) : List String :=
  (ps.filter fun p => !p.hasDefault).map Parameter.name

mutual

def ofParameter : Parameter → Except Fault Schema
  | ⟨name, type, description, default?, schema?, members?⟩ =>
      let p : Parameter := ⟨name, type, description, default?, schema?, members?⟩
      match Tag.ofName? type with
      | none => .error (.unknownType type)
      | some .object => do
          let fields ← fieldsOf schema?
          return finish p .object (ofTag fields none [] .object)
      | some .array => do
          let element ← elementOf schema?
          return finish p .array (ofTag none element [] .array)
      | some tag =>
          return finish p tag (ofTag none none ((members?.getD []).map Prod.fst) tag)

/-- The schema of an object with the fields of a schema; none if it has no
fields. -/
def fieldsOf : Option (List Parameter) → Except Fault (Option Schema)
  | none => .ok none
  | some [] => .ok none
  | some (p :: ps) => do
      let schema ← ofParameter p
      let rest ← ofParameters ps
      return some (ofFields ((p.name, schema) :: rest) (requiredNames (p :: ps)))

/-- The schema of the first entry. -/
def elementOf : Option (List Parameter) → Except Fault (Option Schema)
  | none => .ok none
  | some [] => .ok none
  | some (p :: _) => do
      let schema ← ofParameter p
      return some schema

def ofParameters : List Parameter → Except Fault (List (String × Schema))
  | [] => .ok []
  | p :: ps => do
      let schema ← ofParameter p
      let rest ← ofParameters ps
      return (p.name, schema) :: rest

end

def ofDefinition (d : Definition) : Except Fault Schema := do
  let fields ← ofParameters d.params
  let object := ofFields fields (requiredNames d.params)
  let schema := described (.dialect dialect :: object) d.description
  if isWellFormed schema then return schema else .error .repeatedRequired

end Schema

/-- The violations of a definition's schema by some arguments. -/
def Definition.issues (d : Definition) (arguments : Value) :
    Except Schema.Fault (List SchemaIssue) := do
  let schema ← Schema.ofDefinition d
  return schema.issues arguments

end Docsig
