import Docsig.JsonSchema.Basic

/-!
Checking a value against a schema.

`Schema.violations` lists what is wrong with a value, keyword by keyword, each
with the path of the place. Keywords about objects say nothing about other
values, and the same holds for arrays and numbers. Only open maps are objects
and only open lists are arrays: a checked value has the shape that JSON text
decodes to.
-/

namespace Docsig

/-- A step into a value: the name of a field or the index of an item. -/
inductive Step where
  | field (name : String)
  | item (index : Nat)
  deriving DecidableEq, Repr

def Step.text : Step → String
  | field name => name
  | item index => toString index

/-- A violation of a schema, at a path from the root. -/
structure SchemaIssue where
  path : List Step
  message : String
  deriving DecidableEq, Repr

namespace SchemaIssue

/-- The same violation as seen from one step above. -/
def under (step : Step) (issue : SchemaIssue) : SchemaIssue :=
  ⟨step :: issue.path, issue.message⟩

/-- The path as a pointer: every step after a slash. -/
def pointer (issue : SchemaIssue) : String :=
  String.join (issue.path.map fun step => "/" ++ step.text)

/-- The order of lists of texts, by their first difference. -/
def textsAtMost : List String → List String → Bool
  | [], _ => true
  | _ :: _, [] => false
  | a :: as, b :: bs => if a = b then textsAtMost as bs else decide (a < b)

/-- Order by the texts of the steps, so that the item 10 comes before the
item 2. -/
def atMost (a b : SchemaIssue) : Bool :=
  textsAtMost (a.path.map Step.text) (b.path.map Step.text)

end SchemaIssue

namespace JsonKind

/-- Whether a value has a kind. Truth values are no numbers, and a double
without a fraction is an integer. -/
def has : JsonKind → Value → Bool
  | object, .map .dict _ => true
  | array, .seq .list _ => true
  | string, .text _ => true
  | number, .int _ => true
  | number, .float _ => true
  | integer, .int _ => true
  | integer, .float d => d.integer?.isSome
  | boolean, .bool _ => true
  | null, .null => true
  | _, _ => false

end JsonKind

namespace Schema

/-- A violation at the root. -/
def issue (v : Value) (message : String) : SchemaIssue := ⟨[], v.display ++ message⟩

/-- The text by which fields without a description are ordered. -/
def sortText : Value → String
  | .text s => s
  | key => key.display

/-- The violation of having fields beyond the named ones. -/
def extraIssue (extra : List Value) : SchemaIssue :=
  let sorted := extra.mergeSort fun a b => decide (sortText a ≤ sortText b)
  let keys := String.intercalate ", " (sorted.map Value.display)
  let verb := if extra.length = 1 then "was" else "were"
  ⟨[], s!"Additional properties are not allowed ({keys} {verb} unexpected)"⟩

/-- The violations of the keyword that closes an object. -/
def closedIssues (names : List String) : Value → List SchemaIssue
  | .map .dict fields =>
      let extra := (fields.map Prod.fst).filter fun key =>
        !names.any fun name => Value.same key (.text name)
      if extra.isEmpty then [] else [extraIssue extra]
  | _ => []

/-- The violations of the keyword that requires fields. -/
def requiredIssues (names : List String) : Value → List SchemaIssue
  | .map .dict fields =>
      (names.filter fun name => !Value.hasKey (.text name) fields).map fun name =>
        ⟨[], Text.quoted name ++ " is a required property"⟩
  | _ => []

def isBelow (bound : Int) : Value → Bool
  | .int n => n < bound
  | .float d => d.ltInt bound
  | _ => false

def isAbove (bound : Int) : Value → Bool
  | .int n => bound < n
  | .float d => d.gtInt bound
  | _ => false

/-- The violations of a keyword that wants exactly one alternative, given the
alternatives that hold. -/
def oneOfIssues (holding : List Schema) (v : Value) : List SchemaIssue :=
  match holding with
  | [] => [issue v " is not valid under any of the given schemas"]
  | [_] => []
  | first :: more =>
      let shown := (more ++ [first]).map fun schema => schema.toValue.display
      [issue v (" is valid under each of " ++ String.intercalate ", " shown)]

mutual

/-- The violations of one keyword; `names` are the fields that its schema
describes. -/
def keywordIssues (names : List String) : Keyword → Value → List SchemaIssue
  | .dialect _, _ => []
  | .kind kind, v =>
      if kind.has v then [] else [issue v s!" is not of type '{kind.name}'"]
  | .properties fields, v =>
      match v with
      | .map .dict entries => fieldIssues fields entries
      | _ => []
  | .required required, v => requiredIssues required v
  | .items item, v =>
      match v with
      | .seq .list vs =>
          vs.zipIdx.flatMap fun (x, index) =>
            (keywordsIssues (fieldNames item) item x).map (SchemaIssue.under (.item index))
      | _ => []
  | .enum labels, v =>
      if labels.any fun label => Value.same v (.text label) then []
      else [issue v (" is not one of " ++ Value.displayTexts labels)]
  | .minimum bound, v =>
      if isBelow bound v then [issue v s!" is less than the minimum of {bound}"] else []
  | .maximum bound, v =>
      if isAbove bound v then [issue v s!" is greater than the maximum of {bound}"] else []
  | .anyOf alternatives, v =>
      if (holding alternatives v).isEmpty then
        [issue v " is not valid under any of the given schemas"]
      else []
  | .oneOf alternatives, v => oneOfIssues (holding alternatives v) v
  | .closed, v => closedIssues names v
  | .description _, _ => []

/-- The violations of some keywords, in their order. -/
def keywordsIssues (names : List String) : List Keyword → Value → List SchemaIssue
  | [], _ => []
  | k :: ks, v => keywordIssues names k v ++ keywordsIssues names ks v

/-- The violations of the schemas of named fields; a missing field violates
none. -/
def fieldIssues : List (String × List Keyword) → List (Value × Value) → List SchemaIssue
  | [], _ => []
  | (name, schema) :: fields, entries =>
      (match Value.field? name entries with
        | some x =>
            (keywordsIssues (fieldNames schema) schema x).map (SchemaIssue.under (.field name))
        | none => []) ++ fieldIssues fields entries

/-- The schemas that a value does not violate. -/
def holding : List (List Keyword) → Value → List (List Keyword)
  | [], _ => []
  | schema :: schemas, v =>
      if (keywordsIssues (fieldNames schema) schema v).isEmpty then
        schema :: holding schemas v
      else holding schemas v

end

/-- The violations of a schema, in the order of its keywords. -/
def violations (schema : Schema) (v : Value) : List SchemaIssue :=
  keywordsIssues schema.fieldNames schema v

/-- The violations of a schema, ordered by path; those of one place keep the
order of the keywords. -/
def issues (schema : Schema) (v : Value) : List SchemaIssue :=
  (schema.violations v).mergeSort SchemaIssue.atMost

end Schema

end Docsig
