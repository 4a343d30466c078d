import Docsig.Definition.Basic
import Docsig.Definition.Fault
import Docsig.Json.Writer
import Docsig.Types.Classify

/-!
Drafts: what a comment block declares, before it meets the signature.

Indentation decides nesting: a field belongs to the nearest field above it that
is indented less, or else to the parameter or return value itself. Only objects
and arrays take fields, and an array takes one. `Draft.read` reads the
declarations of a block; the first fault in their order is reported.
-/

namespace Docsig.Definition

/-- A declared parameter, field or return value. -/
structure Draft where
  /-- The name; a return value has none. -/
  name? : Option String
  type : Tag
  nullable : Bool
  line : Nat
  description : String
  schema : List Draft
  members? : Option (List (String × Value))
  deriving Repr, Inhabited

namespace Draft

/-- The name in messages. -/
def label (name? : Option String) : String := name?.getD "returns"

/-! ### Members -/

/-- The member that a literal is: a pair of a label and a value, a text that is its
own label, or a value whose JSON text is the label. -/
def memberOf? : Value → Option (String × Value)
  | .seq _ [.text label, value] => some (label, value)
  | .seq _ _ => none
  | .text s => some (s, .text s)
  | v => (Json.text v).toOption.map fun label => (label, v)

/-- Reads the lines that list members, from a line on; `labels` are those so far. -/
def readMembers (labels : List String) (line : Nat) :
    List String → Except LocalFault (List (String × Value))
  | [] => .ok []
  | text :: texts =>
      match Code.Literal.ofText text.toList with
      | .error fault => .error ((Cause.invalidMember fault).at line)
      | .ok literal =>
          match memberOf? literal with
          | none => .error ((Cause.memberShape text).at line)
          | some (label, value) =>
              if labels.contains label then .error ((Cause.duplicateLabel label).at line)
              else do
                let members ← readMembers (label :: labels) (line + 1) texts
                return (label, value) :: members

/-! ### Single drafts -/

/-- What a declaration says of its own draft. -/
structure Source where
  name? : Option String
  type : Comment.TypeMark
  text : String
  line : Nat
  extra : List String
  deriving Repr

/-- The lines of a description that are not empty, joined. -/
def joinDescription (lines : List String) : String :=
  String.intercalate "\n" (lines.filter fun line => !line.isEmpty)

/-- The draft of a declaration without its fields. The lines below an enumeration
list its members, those below anything else continue its description. -/
def ofSource (s : Source) : Except LocalFault Draft :=
  match Tag.ofName? s.type.name with
  | none => .error ((Cause.unknownType s.type.name (label s.name?)).at s.line)
  | some .enum => do
      let members ← readMembers [] (s.line + 1) s.extra
      if members.isEmpty then throw ((Cause.noMembers (label s.name?)).at s.line)
      else return ⟨s.name?, .enum, s.type.nullable, s.line, s.text, [], some members⟩
  | some tag =>
      .ok ⟨s.name?, tag, s.type.nullable, s.line, joinDescription (s.text :: s.extra), [], none⟩

/-! ### Fields -/

/-- A field with its indentation. -/
structure Field where
  indent : Nat
  name : String
  type : Comment.TypeMark
  text : String
  line : Nat
  extra : List String
  deriving Repr

/-- What the draft of a field is read from. -/
def Field.source (f : Field) : Source := ⟨some f.name, f.type, f.text, f.line, f.extra⟩

/-- Whether a draft takes a field; `filled` if it has one already. -/
def checkParent (parent : Draft) (filled : Bool) (f : Field) : Except LocalFault Unit :=
  if !parent.type.hasSchema then
    .error ((Cause.parentType f.name (label parent.name?) parent.type.name).at f.line)
  else if parent.type = .array && filled then
    .error ((Cause.secondElement (label parent.name?)).at f.line)
  else .ok ()

/-- Reads the fields of a draft: those indented more than `indent`, up to the
first that is not. Also gives the fields left. -/
def readFields : Nat → Draft → Bool → Nat → List Field →
    Except LocalFault (List Draft × List Field)
  | 0, _, _, _, fields => .ok ([], fields)
  | _, _, _, _, [] => .ok ([], [])
  | fuel + 1, parent, filled, indent, f :: fields =>
      if f.indent ≤ indent then .ok ([], f :: fields)
      else do
        checkParent parent filled f
        let draft ← ofSource f.source
        let (schema, rest) ← readFields fuel draft false f.indent fields
        let (siblings, rest) ← readFields fuel parent true indent rest
        return ({ draft with schema := schema } :: siblings, rest)

/-- A draft with all of the fields below it. -/
def withFields (draft : Draft) (fields : List Field) : Except LocalFault Draft := do
  let (schema, _) ← readFields (fields.length + 1) draft false 0 fields
  return { draft with schema := schema }

/-! ### Groups -/

/-- A declaration that is no field, with the fields below it. -/
structure Group where
  head : Comment.Declaration
  fields : List Field
  deriving Repr

/-- The field that a declaration is. -/
def fieldOf? (d : Comment.Declaration) : Option Field :=
  match d.heading with
  | .field indent type name text => some ⟨indent, name, type, text, d.line, d.extra⟩
  | _ => none

/-- The fields in front of all other declarations, and those others with their
fields. -/
def groups : List Comment.Declaration → List Field × List Group
  | [] => ([], [])
  | d :: ds =>
      let (fields, gs) := groups ds
      match fieldOf? d with
      | some f => (f :: fields, gs)
      | none => ([], ⟨d, fields⟩ :: gs)

/-! ### Whole blocks -/

end Draft

/-- What a comment block declares. -/
structure Declared where
  params : List Draft := []
  returns? : Option Draft := none
  /-- The name given to the return value. -/
  returnName? : Option String := none
  charge? : Option Int := none
  deriving Repr, Inhabited

namespace Draft

/-- A fault if there are fields that belong to nothing. -/
def noOrphans : List Field → Except LocalFault Unit
  | [] => .ok ()
  | f :: _ => .error ((Cause.orphanField f.name).at f.line)

/-- The name that the text of a return value is, if lines follow that describe
it. -/
def returnName? (type : Comment.TypeMark) (text : String) (extra : List String) : Option String :=
  match Text.words text.toList with
  | [word] =>
      if Text.isIdentifier word && !extra.isEmpty && type.name != Tag.enum.name then
        some (String.ofList word)
      else none
  | _ => none

/-- The charge that a text names: a positive integer. -/
def chargeOf? (text : String) : Option Int := (integerText? text.toList).filter (1 ≤ ·)

def addParam (d : Declared) (line : Nat) (extra : List String) (type : Comment.TypeMark)
    (name text : String) (fields : List Field) : Except LocalFault Declared := do
  if !Text.isIdentifier name.toList then throw ((Cause.invalidName name).at line)
  let draft ← ofSource ⟨some name, type, text, line, extra⟩
  let draft ← withFields draft fields
  return { d with params := d.params ++ [draft] }

def addReturns (d : Declared) (line : Nat) (extra : List String) (type : Comment.TypeMark)
    (text : String) (fields : List Field) : Except LocalFault Declared := do
  if d.returns?.isSome then throw (Cause.duplicateReturns.at line)
  let name? := returnName? type text extra
  let draft ← ofSource ⟨none, type, if name?.isSome then "" else text, line, extra⟩
  let draft ← withFields draft fields
  return { d with returns? := some draft, returnName? := name? }

/-- Sets the charge, which no fields may follow. -/
def setCharge (d : Declared) (line : Nat) (extra : List String) (amount : String)
    (fields : List Field) : Except LocalFault Declared := do
  if d.charge?.isSome then throw (Cause.duplicateCharge.at line)
  if !extra.isEmpty then throw (Cause.chargeText.at line)
  match chargeOf? amount with
  | none => throw ((Cause.chargeAmount amount).at line)
  | some charge =>
      noOrphans fields
      return { d with charge? := some charge }

def addGroup (d : Declared) (g : Group) : Except LocalFault Declared :=
  match g.head.heading with
  | .param type name text => addParam d g.head.line g.head.extra type name text g.fields
  | .returns type text => addReturns d g.head.line g.head.extra type text g.fields
  | .charge amount => setCharge d g.head.line g.head.extra amount g.fields
  | .field _ _ _ _ => .ok d

mutual

/-- Checks that no two fields of a draft share a name, at every depth. -/
def checkFields : Draft → Except LocalFault Unit
  | ⟨name?, _, _, _, _, schema, _⟩ =>
      checkUnique ("schema of '" ++ name?.getD "None" ++ "'") [] schema

/-- Checks that no two drafts share a name, at every depth; `seen` are the names so
far. -/
def checkUnique (scope : String) (seen : List (Option String)) :
    List Draft → Except LocalFault Unit
  | [] => .ok ()
  | d :: ds =>
      if seen.contains d.name? then
        .error ((Cause.duplicateName (d.name?.getD "None") scope).at d.line)
      else do
        checkFields d
        checkUnique scope (d.name? :: seen) ds

end

def read (declarations : List Comment.Declaration) : Except LocalFault Declared := do
  let (orphans, gs) := groups declarations
  noOrphans orphans
  let declared ← gs.foldlM addGroup {}
  checkUnique "parameters" [] declared.params
  match declared.returns? with
  | some returns => checkUnique "return schema" [] returns.schema
  | none => pure ()
  return declared

/-! ### Finished parts -/

/-- The default that a draft has without an initial value. -/
def impliedDefault? (nullable : Bool) : Option Value := if nullable then some .null else none

mutual

def toParameter : Draft → Parameter
  | ⟨name?, type, nullable, _, description, schema, members?⟩ =>
      ⟨name?.getD "", type.name, description, impliedDefault? nullable,
        if schema.isEmpty then none else some (toParameters schema),
        members?.map fun ms => ms.map fun (label, value) => (label, value.freeze)⟩

def toParameters : List Draft → List Parameter
  | [] => []
  | d :: ds => toParameter d :: toParameters ds

end

/-- The parameter that a draft becomes with an initial value. -/
def withDefault (d : Draft) (default? : Option Value) : Parameter :=
  let p := d.toParameter
  { p with default? := (default?.map Value.freeze).or p.default? }

end Draft

def Declared.returnSpec (d : Declared) : ReturnSpec :=
  match d.returns? with
  | none => {}
  | some draft =>
      let p := draft.toParameter
      ⟨p.type, p.description, d.returnName?, p.default?, p.schema?, p.members?⟩

end Docsig.Definition
