import Docsig.Definition.Basic
import Docsig.Types.Tag
import Docsig.Value.Equality

/-!
Schema entries, the form in which the type engine sees a schema.

An entry comes from a parameter or from a free value: a map is read by its
fields, anything else has none. Entries also serve as the members of an
enumeration, and then only their label counts: the first item of a pair, or the
value itself.
-/

namespace Docsig

structure Entry where
  /-- The tag of its type; none if the type is missing or unknown. -/
  type : Option Tag
  /-- The key of the field; null if it is missing. -/
  name : Value
  /-- Whether a default is given, so that null is allowed. -/
  hasDefault : Bool
  schema : List Entry
  members : List Entry
  /-- The label that the entry is as a member of an enumeration. -/
  label : Option Value
  deriving Repr, Inhabited

namespace Entry

/-- An entry that only counts as a member. -/
def ofLabel (label : Value) : Entry := ⟨none, .null, false, [], [], some label⟩

/-- The nested entries: the schema, or the members if the schema is empty. -/
def nested (e : Entry) : List Entry := if e.schema.isEmpty then e.members else e.schema

/-! ### Entries of parameters -/

mutual

def ofParameter : Parameter → Entry
  | ⟨name, type, _, default?, schema?, members?⟩ =>
      ⟨Tag.ofName? type, .text name, default?.isSome, ofSchema schema?,
        (members?.getD []).map fun member => ofLabel (.text member.1), none⟩

def ofSchema : Option (List Parameter) → List Entry
  | some ps => ofParameters ps
  | none => []

def ofParameters : List Parameter → List Entry
  | [] => []
  | p :: ps => ofParameter p :: ofParameters ps

end

/-- The nested entries of a return specification or a parameter: its schema, or
its members. -/
def ofNested (schema? : Option (List Parameter)) (members? : Option (List (String × Value))) :
    List Entry :=
  let schema := ofSchema schema?
  if schema.isEmpty then (members?.getD []).map fun member => ofLabel (.text member.1) else schema

/-! ### Entries of values -/

/-- The label that a value is as a member. -/
def labelOf : Value → Value
  | .seq _ [label, _] => label
  | v => v

def tagOf? (v : Value) : Option Tag := v.text?.bind Tag.ofName?

mutual

/-- The entry that a value describes. -/
def ofValue : Value → Entry
  | .map kind fields =>
      ⟨(Value.field? "type" fields).bind tagOf?, (Value.field? "name" fields).getD .null,
        (Value.field? "defaultValue" fields).isSome, ofField "schema" fields,
        ofField "members" fields, some (.map kind fields)⟩
  | v => ofLabel (labelOf v)

/-- The entries that stand in a field. -/
def ofField (name : String) : List (Value × Value) → List Entry
  | [] => []
  | (key, .seq _ items) :: fields =>
      if Value.same key (.text name) then ofValues items else ofField name fields
  | (key, _) :: fields => if Value.same key (.text name) then [] else ofField name fields

def ofValues : List Value → List Entry
  | [] => []
  | v :: vs => ofValue v :: ofValues vs

end

end Entry

end Docsig
