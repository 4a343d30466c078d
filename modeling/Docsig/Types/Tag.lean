import Docsig.Value.Display

/-!
Type tags: the names by which declarations speak of kinds of values.

The list of tags is closed. `Tag.ofName?` reads a name, `Tag.name` writes it, and
`Tag.all` fixes the order in which tags are listed.
-/

namespace Docsig

inductive Tag where
  | string
  | number
  | float
  | integer
  | boolean
  | object
  | array
  | buffer
  | enum
  | any
  /-- A query object with free field names. -/
  | query
  /-- A pagination object with the fields count and offset. -/
  | limit
  deriving DecidableEq, Repr, Inhabited

namespace Tag

/-- The tags, in the order in which they are listed. -/
def all : List Tag :=
  [string, number, float, integer, boolean, object, array, buffer, enum, any, query, limit]

def name : Tag → String
  | string => "string"
  | number => "number"
  | float => "float"
  | integer => "integer"
  | boolean => "boolean"
  | object => "object"
  | array => "array"
  | buffer => "buffer"
  | enum => "enum"
  | any => "any"
  | query => "object.keyql.query"
  | limit => "object.keyql.limit"

/-- The tag with a name. -/
def ofName? (s : String) : Option Tag := all.find? fun t => t.name == s

/-- Whether a name is that of a tag. -/
def isName (s : String) : Bool := (ofName? s).isSome

/-- What the values of a tag are. -/
def description : Tag → String
  | string => "Basic text or character strings"
  | number => "Any double-precision floating point value"
  | float => "Alias for number"
  | integer => "Subset of number, integers between -(2^53 - 1) and +(2^53 - 1)"
  | boolean => "True or False"
  | object => "Any JSON-compatible object"
  | array => "Any JSON-compatible array"
  | buffer => "Raw binary data, encoded as \x7b\"_bytes\": []\x7d or \x7b\"_base64\": \"\"\x7d in text"
  | enum => "One label out of a fixed list of (label, value) members"
  | any => "Any value mentioned above"
  | query =>
      "A query object: each field name is a filter, optionally suffixed with an operator (e.g. name__in)"
  | limit => "A pagination object with optional integer fields count and offset"

/-- Whether values of the tag carry a nested field schema. -/
def hasSchema (t : Tag) : Bool := t == object || t == array

/-- Whether values of the tag are shown as samples. -/
def isLeaf (t : Tag) : Bool := t == string || t == number || t == boolean || t == buffer

/-! ### Look-up by name -/

/-- A name that no tag has; null stands for a missing name. -/
structure Unknown where
  name : Option String
  deriving DecidableEq, Repr

/-- The wording for an unknown name. -/
def Unknown.message (u : Unknown) : String :=
  "Unknown type: '" ++ u.name.getD "None" ++ "'. Valid types: " ++
    Value.displayTexts (all.map Tag.name)

/-- The description of the tag with a name. -/
def describe (s : Option String) : Except Unknown String :=
  match s.bind ofName? with
  | some t => .ok t.description
  | none => .error ⟨s⟩

end Tag

end Docsig
