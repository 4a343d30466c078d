import Docsig.Page.Row

/-!
The page of a definition, in Markdown.

A page has a title, the description, the tables of the parameters and of the
return schema, and a list of details. It ends with a line feed. A default that
JSON text cannot express is the one reason why there is no page.
-/

namespace Docsig.Page

/-- The title of a page: its key, or else the path of the file. -/
def title (d : Definition) (key? : Option String) : String :=
  let chosen := key?.getD d.pathname
  if chosen.isEmpty then "/" else chosen

/-- The description, as a paragraph. -/
def descriptionPart (d : Definition) : String :=
  if d.description.isEmpty then "" else d.description ++ "\n\n"

/-- What stands in place of a table without rows. -/
def noParameters : String := "This function takes no parameters.\n"

def parameterPart (d : Definition) : Except Json.KeyFault String :=
  match d.params with
  | [] => .ok noParameters
  | ps => table (rows ps)

def returnLine (r : ReturnSpec) : String :=
  let name := match r.name? with
    | some name => if name.isEmpty then "" else codeSpan name ++ " "
    | none => ""
  let nullable := if r.default?.isSome then ", nullable" else ""
  let description := if r.description.isEmpty then "" else ": " ++ r.description
  name ++ "(" ++ r.type ++ nullable ++ ")" ++ description ++ "\n\n"

def returnTable (r : ReturnSpec) : Except Json.KeyFault String :=
  match r.schema? with
  | none => .ok ""
  | some [] => .ok ""
  | some ps => do
      let body ← table (rows ps)
      return body ++ "\n"

def keysLine (keys : List String) : String :=
  if keys.isEmpty then ""
  else "- Keys: " ++ String.intercalate ", " (keys.map codeSpan) ++ "\n"

/-- The list of details. -/
def detailPart (d : Definition) : String :=
  "- Source: " ++ codeSpan d.pathname ++ "\n" ++
    "- Charge: " ++ toString d.charge ++ "\n" ++
    keysLine d.keys ++
    "- Context: " ++ (if d.context?.isSome then "yes" else "no") ++ "\n"

/-- A page around the texts of its two tables. -/
def layout (d : Definition) (key? : Option String) (parameters fields : String) : String :=
  "# " ++ title d key? ++ "\n\n" ++ descriptionPart d ++
    "## Parameters\n\n" ++ parameters ++
    "\n## Returns\n\n" ++ returnLine d.returns ++ fields ++
    "## Details\n\n" ++ detailPart d

def render (d : Definition) (key? : Option String) : Except Json.KeyFault String := do
  let parameters ← parameterPart d
  let fields ← returnTable d.returns
  return layout d key? parameters fields

end Docsig.Page
