import Docsig.Types.Classify
import Docsig.Types.Entry

/-!
The structural rules of query and pagination objects.

`Entry.sanitize` walks a value along a schema and checks every query and
pagination object that it reaches; other types have no rule here. Fields that
are missing or null are not entered.
-/

namespace Docsig

inductive Violation where
  /-- No map stands where a query or pagination object is declared. -/
  | notObject (tag : Tag) (found : Value)
  /-- A pagination object has fields of other names. -/
  | unknownFields (names : List Value)
  /-- A pagination field is no safe integer from zero on. -/
  | badField (name : String) (found : Value)
  deriving Repr

namespace Violation

def message : Violation → String
  | notObject tag found =>
      "Invalid " ++ tag.name ++ ": expected an object, got " ++ found.kindName
  | unknownFields names =>
      "Invalid " ++ Tag.limit.name ++ " fields " ++ (Value.list names).display ++
        ". Allowed fields: " ++ Value.displayTexts ["count", "offset"]
  | badField name found =>
      "Invalid " ++ Tag.limit.name ++ " field '" ++ name ++
        "': expected a non-negative integer, got " ++ found.display

end Violation

/-! ### The rules -/

/-- A safe integer from zero on. -/
def Value.isCount (v : Value) : Bool :=
  v.isInteger &&
    match v with
    | .int n => 0 ≤ n
    | .float d => !d.ltInt 0
    | _ => false

def isLimitField (key : Value) : Bool := key.same (.text "count") || key.same (.text "offset")

/-- A pagination field is absent or a count. -/
def checkLimitField (name : String) (fields : List (Value × Value)) : Except Violation Unit :=
  match Value.field? name fields with
  | some v => if v.isCount then .ok () else .error (.badField name v)
  | none => .ok ()

/-- The rule of pagination objects. -/
def checkLimit (v : Value) : Except Violation Unit :=
  match v with
  | .map _ fields =>
      let unknown := (fields.map Prod.fst).filter fun key => !isLimitField key
      if unknown.isEmpty then do
        checkLimitField "count" fields
        checkLimitField "offset" fields
      else .error (.unknownFields unknown)
  | _ => .error (.notObject .limit v)

/-- The rule of query objects: they are maps, whatever their fields. -/
def checkQuery (v : Value) : Except Violation Unit :=
  if v.isObject then .ok () else .error (.notObject .query v)

/-! ### The walk -/

/-- Checks the items that are not null, in order. -/
def checkItems (check : Value → Except Violation Unit) : List Value → Except Violation Unit
  | [] => .ok ()
  | x :: xs => do
      if x.isNull then pure () else check x
      checkItems check xs

namespace Entry

mutual

/-- Checks a value against an entry and everything below it. -/
def check : Entry → Value → Except Violation Unit
  | ⟨type, _, _, schema, _, _⟩, v =>
      match type with
      | some .limit => checkLimit v
      | some .query => checkQuery v
      | some .object => checkFields schema v
      | some .array => checkElement schema v
      | _ => .ok ()

/-- Checks the fields of a map that the entries name. -/
def checkFields : List Entry → Value → Except Violation Unit
  | [], _ => .ok ()
  | e :: es, v =>
      match v with
      | .map _ fields =>
          match Value.lookup? e.name fields with
          | some x => do
              if x.isNull then pure () else check e x
              checkFields es v
          | none => checkFields es v
      | _ => .ok ()

/-- Checks the items of a sequence if there is exactly one entry. -/
def checkElement : List Entry → Value → Except Violation Unit
  | [], _ => .ok ()
  | e :: es, v =>
      match v with
      | .seq _ items => if es.isEmpty then checkItems (fun item => check e item) items else .ok ()
      | _ => .ok ()

end

end Entry

/-- The value itself if it obeys the rules of its type and of everything that the
schema reaches. -/
def sanitize (type : Option Tag) (v : Value) (schema : List Entry) : Except Violation Value := do
  Entry.check ⟨type, .null, false, schema, [], none⟩ v
  return v

end Docsig
