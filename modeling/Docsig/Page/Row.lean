import Docsig.Definition.Basic
import Docsig.Json.Writer
import Docsig.Text.Blank

/-!
Rows of the tables on a page.

A table lists parameters and, right after each, the entries of its schema, one
level deeper. Only the description of a row is escaped: a vertical bar would end
its cell and a line feed would end the row.
-/

namespace Docsig.Page

/-- A row: an entry and how deep it is nested. -/
structure Row where
  depth : Nat
  name : String
  type : String
  default? : Option Value
  /-- The description as it stands in its cell. -/
  description : String
  deriving Repr, Inhabited

/-! ### Collecting rows -/

/-- A text as the content of a cell. -/
def cell : List Char → List Char
  | [] => []
  | c :: cs =>
      if c = '|' then '\\' :: '|' :: cell cs
      else if c = '\n' then "<br>".toList ++ cell cs
      else c :: cell cs

/-- The labels of an enumeration's members, each quoted. -/
def labelList (members : List (String × Value)) : String :=
  String.intercalate ", " (members.map fun member => "\x60" ++ member.1 ++ "\x60")

/-- A description with the labels of the members, if there are any. -/
def describe (description : String) : Option (List (String × Value)) → String
  | some (member :: members) =>
      Text.trimmed (description ++ " One of: " ++ labelList (member :: members))
  | _ => description

mutual

/-- The rows of a parameter and of its schema. -/
def rowsOf (depth : Nat) : Parameter → List Row
  | ⟨name, type, description, default?, schema?, members?⟩ =>
      ⟨depth, name, type, default?.map Value.thaw,
        String.ofList (cell (describe description members?).toList)⟩ ::
          rowsOfSchema (depth + 1) schema?

def rowsOfSchema (depth : Nat) : Option (List Parameter) → List Row
  | none => []
  | some ps => rowsOfAll depth ps

def rowsOfAll (depth : Nat) : List Parameter → List Row
  | [] => []
  | p :: ps => rowsOf depth p ++ rowsOfAll depth ps

end

def rows (ps : List Parameter) : List Row := rowsOfAll 0 ps

/-! ### Writing rows -/

def codeSpan (s : String) : String := "\x60" ++ s ++ "\x60"

/-- What stands before the name: a mark for every nested entry, moved to the
right by its depth. -/
def Row.indent (r : Row) : String :=
  String.join (List.replicate r.depth "&nbsp;&nbsp;") ++ (if r.depth = 0 then "" else "└ ")

def Row.defaultCell (r : Row) : Except Json.KeyFault String :=
  match r.default? with
  | some v => do
      let text ← Json.text v
      return codeSpan text
  | none => .ok ""

def Row.line (r : Row) : Except Json.KeyFault String := do
  let default ← r.defaultCell
  let required := if r.default?.isSome then "no" else "yes"
  return "| " ++ r.indent ++ codeSpan r.name ++ " | " ++ r.type ++ " | " ++ required ++ " | " ++
    default ++ " | " ++ r.description ++ " |\n"

def tableHead : String :=
  "| Name | Type | Required | Default | Description |\n" ++
    "|------|------|----------|---------|-------------|\n"

def lines : List Row → Except Json.KeyFault String
  | [] => .ok ""
  | r :: rs => do
      let line ← r.line
      let rest ← lines rs
      return line ++ rest

def table (rs : List Row) : Except Json.KeyFault String := do
  let body ← lines rs
  return tableHead ++ body

end Docsig.Page
