import Docsig.Value.Display
import Docsig.Value.Equality

/-!
JSON Schemas, as far as descriptions of parameters need them.

A schema is a list of keywords, in the order in which they are tried and
exported. `Schema.toValue` gives the exported form; `Schema.isWellFormed` is the
one demand on a schema that its shape does not already meet: no name is required
twice.
-/

namespace Docsig

/-- The kinds of values that the keyword for kinds can ask for. -/
inductive JsonKind where
  | object
  | array
  | string
  | number
  | integer
  | boolean
  | null
  deriving DecidableEq, Repr

def JsonKind.name : JsonKind → String
  | object => "object"
  | array => "array"
  | string => "string"
  | number => "number"
  | integer => "integer"
  | boolean => "boolean"
  | null => "null"

/-- A keyword of a schema with its argument. -/
inductive Keyword where
  /-- The dialect of the schema. -/
  | dialect (url : String)
  | kind (kind : JsonKind)
  /-- The schemas of the named fields of an object. -/
  | properties (fields : List (String × List Keyword))
  | required (names : List String)
  /-- The schema of every item of an array. -/
  | items (item : List Keyword)
  | enum (labels : List String)
  | minimum (bound : Int)
  | maximum (bound : Int)
  | anyOf (alternatives : List (List Keyword))
  | oneOf (alternatives : List (List Keyword))
  /-- No fields besides the named ones. -/
  | closed
  | description (text : String)
  deriving Repr, Inhabited

abbrev Schema := List Keyword

namespace Schema

/-! ### Parts -/

/-- The names of the fields that a schema describes. -/
def fieldNames : Schema → List String
  | [] => []
  | .properties fields :: _ => fields.map Prod.fst
  | _ :: keywords => fieldNames keywords

/-! ### Export -/

def textsValue (texts : List String) : Value := .list (texts.map .text)

mutual

/-- The exported form of a keyword: its name and its argument. -/
def keywordValue : Keyword → Value × Value
  | .dialect url => (.text "$schema", .text url)
  | .kind kind => (.text "type", .text kind.name)
  | .properties fields => (.text "properties", .dict (fieldValues fields))
  | .required names => (.text "required", textsValue names)
  | .items item => (.text "items", .dict (keywordValues item))
  | .enum labels => (.text "enum", textsValue labels)
  | .minimum bound => (.text "minimum", .int bound)
  | .maximum bound => (.text "maximum", .int bound)
  | .anyOf alternatives => (.text "anyOf", .list (schemaValues alternatives))
  | .oneOf alternatives => (.text "oneOf", .list (schemaValues alternatives))
  | .closed => (.text "additionalProperties", .bool false)
  | .description text => (.text "description", .text text)

def keywordValues : List Keyword → List (Value × Value)
  | [] => []
  | k :: ks => keywordValue k :: keywordValues ks

def fieldValues : List (String × List Keyword) → List (Value × Value)
  | [] => []
  | (name, schema) :: fields => (.text name, .dict (keywordValues schema)) :: fieldValues fields

def schemaValues : List (List Keyword) → List Value
  | [] => []
  | schema :: schemas => .dict (keywordValues schema) :: schemaValues schemas

end

/-- The exported form of a schema. -/
def toValue (schema : Schema) : Value := .dict (keywordValues schema)

/-! ### Well-formedness -/

/-- Whether no text stands twice in a list. -/
def distinct : List String → Bool
  | [] => true
  | name :: names => !names.contains name && distinct names

mutual

/-- Whether no name is required twice, here or below. -/
def keywordOk : Keyword → Bool
  | .properties fields => fieldsOk fields
  | .required names => distinct names
  | .items item => isWellFormed item
  | .anyOf alternatives => allOk alternatives
  | .oneOf alternatives => allOk alternatives
  | _ => true

def isWellFormed : List Keyword → Bool
  | [] => true
  | k :: ks => keywordOk k && isWellFormed ks

def fieldsOk : List (String × List Keyword) → Bool
  | [] => true
  | (_, schema) :: fields => isWellFormed schema && fieldsOk fields

def allOk : List (List Keyword) → Bool
  | [] => true
  | schema :: schemas => isWellFormed schema && allOk schemas

end

end Schema

end Docsig
