import Docsig.Types.Classify
import Docsig.Types.Entry

/-!
Membership of values in types.

`Entry.accepts` decides whether a value belongs to an entry: null wherever a
default is given, and otherwise by the tag and the nested entries. No value is
converted on the way: the text of a number is no number.
-/

namespace Docsig

namespace Entry

/-- Whether a value has the label of some member. Labels have to agree in kind
and in value. -/
def hasLabel (members : List Entry) (v : Value) : Bool :=
  members.any fun member =>
    match member.label with
    | some label => Value.sameKind label v && Value.same label v
    | none => false

/-- An optional safe integer in a field of a pagination object. -/
def limitFieldOk (name : String) (fields : List (Value × Value)) : Bool :=
  match Value.field? name fields with
  | none => true
  | some v => v.isNull || v.isInteger

/-- Whether a map's pagination fields are optional safe integers. -/
def isLimit : Value → Bool
  | .map _ fields => limitFieldOk "count" fields && limitFieldOk "offset" fields
  | _ => false

mutual

/-- Whether a value belongs to an entry. -/
def accepts : Entry → Value → Bool
  | ⟨type, _, hasDefault, schema, members, _⟩, v =>
      if hasDefault && v.isNull then true
      else
        match type with
        | none => false
        | some .any => true
        | some .string => v.isText
        | some .number => v.isNumber
        | some .float => v.isNumber
        | some .integer => v.isInteger
        | some .boolean => v.isBoolean
        | some .buffer => v.isBuffer
        | some .enum => hasLabel (if schema.isEmpty then members else schema) v
        | some .object => if schema.isEmpty then fieldsAccept members v else fieldsAccept schema v
        | some .query => if schema.isEmpty then fieldsAccept members v else fieldsAccept schema v
        | some .array => if schema.isEmpty then itemsAccept members v else itemsAccept schema v
        | some .limit => isLimit v

/-- Whether a value is a map whose fields belong to the entries; a missing field
counts as null. -/
def fieldsAccept : List Entry → Value → Bool
  | [], v => v.isObject
  | e :: es, v =>
      match v with
      | .map _ fields =>
          accepts e ((Value.lookup? e.name fields).getD .null) && fieldsAccept es v
      | _ => false

/-- Whether a value is a sequence whose items belong to the one entry; no entry
admits every item, several admit no sequence. -/
def itemsAccept : List Entry → Value → Bool
  | [], v => v.isArray
  | e :: es, v =>
      match v with
      | .seq _ items => es.isEmpty && items.all fun item => accepts e item
      | _ => false

end

end Entry

/-- Whether a value belongs to a type; `nested` holds the fields of an object,
the element of an array or the members of an enumeration. -/
def validate (type : Option Tag) (v : Value) (allowNull : Bool) (nested : List Entry) : Bool :=
  Entry.accepts ⟨type, .null, allowNull, nested, [], none⟩ v

end Docsig
