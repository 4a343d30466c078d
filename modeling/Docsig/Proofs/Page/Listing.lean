import Docsig.Proofs.Comment.Declaration
import Docsig.Proofs.Definition.CommentBlock
import Docsig.Proofs.Definition.Writable
import Docsig.Proofs.Page.Line
import Docsig.Proofs.Page.Render

/-!
Tables list what a comment block declares.

`Listing` is a row on a page with what it comes from: a line of the block, its level, and the
entry of the definition. The listings of a table are the lines that belong to it, and its
text is theirs (`Lists`). `parse_listed` says so of whole sources: the table of the parameters
has one row for every line that belongs to a parameter, and the table of the return value one
for every field below it, in the order of the lines.
-/

namespace Docsig.Page

open Comment (Declaration)
open Definition (Formal Parts)
open Definition.Draft

variable {fs : List Formal} {d : Declaration} {s : Definition.Draft.Source} {q : Parameter}
  {n : Nat} {text : String} {ls : List (Nat × Declaration)} {qs : List Parameter} {rs : List Row}

/-! ### Listings -/

/-- A row of a table with what it is about. -/
structure Listing where
  depth : Nat
  declaration : Declaration
  entry : Parameter
  text : String

/-- A row shows the entry of its declaration. -/
structure Listing.Shown (fs : List Formal) (l : Listing) : Prop where
  entered : ∃ s, EnteredBy fs l.declaration s l.entry
  text : ∃ default, (entryRow l.depth l.entry).defaultCell = .ok default ∧
    l.text = "| " ++ mark l.depth ++ codeSpan l.entry.name ++ " | " ++ l.entry.type ++ " | " ++
      (if l.entry.hasDefault then "no" else "yes") ++ " | " ++ default ++ " | " ++
        (entryRow l.depth l.entry).description ++ " |\n"
  /-- It is one line. -/
  oneLine : '\n' ∉ l.text.toList.dropLast

/-- The listings of some lines, in the order of the lines and in that of the entries. -/
structure Lists (fs : List Formal) (lines : List (Nat × Declaration)) (entries : List Parameter)
    (ls : List Listing) : Prop where
  lines : ls.map (fun l => (l.depth, l.declaration)) = lines
  entries : ls.map Listing.entry = entries
  shown : ∀ l ∈ ls, l.Shown fs

/-- The entry of a declaration with a word for a name has a row on one line. -/
theorem EnteredBy.presentable (entered : EnteredBy fs d s q)
    (word : ∀ name, nameOf? d = some name → ∀ c ∈ name.toList, Text.isBlank c = false) :
    Presentable q := by
  refine ⟨fun c hc => ?_, entered.registered⟩
  have blank := word _ (by rw [nameOf?, entered.source, Option.bind_some, entered.name]) c hc
  by_contra ends
  rw [Text.isBlank_of_isLineBreak (Bool.eq_true_of_not_eq_false ends)] at blank
  cases blank

/-- The row of an entry has a text that shows it. -/
theorem shown_line (entered : EnteredBy fs d s q) (own : Presentable q)
    (h : (entryRow n q).line = .ok text) : Listing.Shown fs ⟨n, d, q, text⟩ := by
  obtain ⟨default, cell, rfl⟩ := line_eq_ok.mp h
  obtain ⟨line, eq, ends⟩ := own.oneLine cell
  refine ⟨⟨s, entered⟩, ⟨default, cell, rfl⟩, ?_⟩
  have dropped : (rowText n q default).toList.dropLast = line.toList := by
    rw [eq, String.toList_append]
    exact List.dropLast_concat
  rw [dropped]
  exact fun feed => (ends _ feed rfl).1 rfl

/-- Lines, entries and rows that go together are written as the lines of a table. -/
theorem Listed.exists_listings (h : Listed fs ls qs rs)
    (words : ∀ l ∈ ls, ∀ name, nameOf? l.2 = some name → ∀ c ∈ name.toList, Text.isBlank c = false)
    (body : lines rs = .ok text) : ∃ listings, Lists fs ls qs listings ∧
      listings.length = rs.length ∧ text = String.join (listings.map Listing.text) := by
  induction h generalizing text with
  | nil =>
      cases body
      exact ⟨[], ⟨rfl, rfl, by simp⟩, rfl, rfl⟩
  | @cons n d s q ls qs rs entered _ ih =>
      obtain ⟨word, words⟩ := List.forall_mem_cons.mp words
      obtain ⟨line, hline, body⟩ := bind_eq_ok.mp body
      obtain ⟨rest, hrest, ⟨⟩⟩ := bind_eq_ok.mp body
      obtain ⟨listings, lists, length, rfl⟩ := ih words hrest
      have shown := shown_line entered (entered.presentable word) hline
      refine ⟨⟨n, d, q, line⟩ :: listings, ⟨?_, ?_, ?_⟩, ?_, ?_⟩
      · rw [List.map_cons, lists.lines]
      · rw [List.map_cons, lists.entries]
      · exact List.forall_mem_cons.mpr ⟨shown, lists.shown⟩
      · rw [List.length_cons, length, List.length_cons]
      · rw [List.map_cons, String.join_cons]

/-! ### Pages -/

def tableText (ls : List Listing) : String := tableHead ++ String.join (ls.map Listing.text)

/-- The text below the line about the return value: nothing, or a table. -/
def fieldsText (ls : List Listing) : String := if ls.isEmpty then "" else tableText ls ++ "\n"

/-- A page with two tables. -/
def pageText (d : Definition) (key? : Option String) (params fields : List Listing) : String :=
  layout d key? (tableText params) (fieldsText fields)

theorem exists_tableLines {ps : List Parameter} (h : ∀ q ∈ allEntries ps, q.Holds Value.IsWritable) :
    ∃ body, lines (rowsOfAll 0 ps) = .ok body := by
  obtain ⟨t, ht⟩ := exists_table h
  obtain ⟨body, hbody, -⟩ := bind_eq_ok.mp ht
  exact ⟨body, hbody⟩

theorem exists_schemaLines {schema? : Option (List Parameter)}
    (h : ∀ q ∈ schemaEntries schema?, q.Holds Value.IsWritable) :
    ∃ body, lines (rowsOfSchema 0 schema?) = .ok body := by
  cases schema? with
  | none => exact ⟨_, rfl⟩
  | some ps => exact exists_tableLines h

theorem parameterPart_eq {d : Definition} {body : String} (filled : d.params ≠ [])
    (h : lines (rows d.params) = .ok body) : parameterPart d = .ok (tableHead ++ body) := by
  unfold parameterPart
  split
  · contradiction
  · rw [table, h]
    rfl

/-- The table of the return value is left out where it has no rows. -/
theorem returnTable_eq {r : ReturnSpec} {body : String}
    (h : lines (rowsOfSchema 0 r.schema?) = .ok body) : returnTable r =
      .ok (if (rowsOfSchema 0 r.schema?).isEmpty then "" else tableHead ++ body ++ "\n") := by
  unfold returnTable
  split
  · rename_i none
    rw [none]
    rfl
  · rename_i empty
    rw [empty]
    rfl
  · rename_i ps filled schema
    rw [schema] at h ⊢
    cases ps with
    | nil => exact (filled rfl).elim
    | cons p ps =>
        have listed : (rowsOfSchema 0 (some (p :: ps))).isEmpty = false := by
          rw [rowsOfSchema, rowsOfAll, rowsOf_eq]
          rfl
        rw [listed, table, rows, show lines (rowsOfAll 0 (p :: ps)) = .ok body from h]
        rfl

/-- A page is laid out around its two tables. -/
theorem render_eq {d : Definition} {key? : Option String} {params fields : List Listing}
    (hparams : parameterPart d = .ok (tableText params))
    (hfields : returnTable d.returns = .ok (fieldsText fields)) :
    render d key? = .ok (pageText d key? params fields) := by
  rw [render, hparams, ok_bind, hfields]
  rfl

/-! ### Sources -/

/-- The fields of a block that is read from lines are indented. -/
theorem indented_declarations {ls : List Comment.Line} {ds : List Declaration}
    (h : List.Forall₂ Comment.DeclaredOn ls ds) : Indented ds := by
  intro d hd f hf
  obtain ⟨l, -, declared⟩ := exists_of_mem_right h hd
  obtain rfl := fieldOf?_eq_some.mp hf
  exact (Comment.readHeading_inForm declared.heading).indented _ _ _ _ rfl

theorem nameOf?_eq (d : Declaration) : nameOf? d = d.heading.name? := by
  unfold nameOf? sourceOf?
  cases d.heading <;> rfl

/-- The name of a declaration that is read from a line is one word. -/
theorem name_word {ls : List Comment.Line} {ds : List Declaration}
    (h : List.Forall₂ Comment.DeclaredOn ls ds) {d : Declaration} (hd : d ∈ ds) {name : String}
    (named : nameOf? d = some name) : ∀ c ∈ name.toList, Text.isBlank c = false := by
  obtain ⟨l, -, declared⟩ := exists_of_mem_right h hd
  rw [nameOf?_eq] at named
  exact (Comment.readHeading_inForm declared.heading).word name named

theorem mem_of_fieldsUp {own : Declaration → Bool} {ds : List Declaration} {l : Nat × Declaration}
    (hl : l ∈ fieldsUp (belonging own false (outline ds))) : l.2 ∈ ds := by
  obtain ⟨k, hk, rfl⟩ := List.mem_map.mp hl
  exact mem_of_belonging (l := k) (List.mem_of_mem_filter hk)

/-- The lines that the declarations of a source stand on. -/
theorem readParts_lines {pathname : String} {contents : Definition.Contents} {parts : Parts}
    (h : Definition.readParts pathname contents = .ok parts) :
    ∃ cs ls, contents.decode = .ok cs ∧
      Comment.linesAbove? (Text.lines cs) (Definition.firstLine parts.function) = some ls ∧
      List.Forall₂ Comment.DeclaredOn (ls.filter Comment.isDeclarationLine)
        parts.block.declarations := by
  obtain ⟨cs, decoded, h⟩ := bind_eq_ok.mp h
  obtain ⟨-, -, h⟩ := bind_eq_ok.mp h
  obtain ⟨ss, parsed, h⟩ := bind_eq_ok.mp h
  obtain ⟨f, entry, h⟩ := bind_eq_ok.mp h
  obtain ⟨block, found, h⟩ := bind_eq_ok.mp h
  obtain ⟨declared, -, h⟩ := bind_eq_ok.mp h
  obtain ⟨signature, -, ⟨⟩⟩ := bind_eq_ok.mp h
  obtain ⟨ls, above, read, -⟩ := Definition.commentBlock_found parsed entry
  rw [read] at found
  obtain ⟨ds, lines, ⟨⟩⟩ := bind_eq_ok.mp (mapError_eq_ok.mp found)
  exact ⟨cs, ls, decoded, above, Comment.readDeclarations_lines lines⟩

/-- Declared parameters become those of the definition. -/
theorem params_matched {parts : Parts} {ps : List Parameter} (filled : parts.declared.params ≠ [])
    (h : parts.params = .ok ps) :
    List.Forall₂ (Matched parts.signature.formals) parts.declared.params ps := by
  unfold Definition.Parts.params at h
  rw [if_neg (by simpa using filled)] at h
  obtain ⟨length, h⟩ := guard_eq_ok.mp h
  exact matchFrom_matched (by simpa using length) h

/-- **Tables list what a comment block declares.** The declarations of a source stand on the
lines of its comment block that start with an at sign. Where one of them is a parameter, the
table of the parameters lists the lines that belong to parameters and the table of the return
value lists the fields below it: one row for each line, in the order of the lines, and in that
of the entries in the definition. -/
theorem parse_listed {charge : Int} {pathname : String} {contents : Definition.Contents}
    {parts : Parts} {d : Definition} (found : Definition.readParts pathname contents = .ok parts)
    (declared : ∃ e ∈ parts.block.declarations, isParam e = true)
    (parsed : Definition.parse charge pathname contents = .ok d) :
    (∃ cs ls, contents.decode = .ok cs ∧
        Comment.linesAbove? (Text.lines cs) (Definition.firstLine parts.function) = some ls ∧
        List.Forall₂ Comment.DeclaredOn (ls.filter Comment.isDeclarationLine)
          parts.block.declarations) ∧
      ∃ params fields,
        Lists parts.signature.formals (belonging isParam false (outline parts.block.declarations))
            (allEntries d.params) params ∧
          Lists parts.signature.formals
            (fieldsUp (belonging isReturns false (outline parts.block.declarations)))
            (schemaEntries d.returns.schema?) fields ∧
          ∀ key?, render d key? = .ok (pageText d key? params fields) := by
  obtain ⟨cs, ls, decoded, above, onLines⟩ := readParts_lines found
  refine ⟨⟨cs, ls, decoded, above, onLines⟩, ?_⟩
  obtain ⟨-, -, -, -, -, read, -⟩ := Definition.readParts_ok found
  have holds := Definition.parse_holds parsed
  obtain ⟨parts', ps, found', matched, rfl⟩ := Definition.parse_ok parsed
  obtain rfl : parts = parts' := Except.ok.inj (found.symm.trans found')
  have indented := indented_declarations onLines
  have matched := params_matched (read_params_ne_nil read declared) matched
  have filled : ps ≠ [] := by
    rintro rfl
    exact read_params_ne_nil read declared (List.forall₂_nil_right_iff.mp matched)
  obtain ⟨paramBody, hparams⟩ := exists_tableLines holds.params
  obtain ⟨fieldBody, hfields⟩ : ∃ body,
      lines (rowsOfSchema 0 parts.declared.returnSpec.schema?) = .ok body :=
    exists_schemaLines holds.returned
  obtain ⟨params, listsParams, -, rfl⟩ :=
    (listed_params indented read matched).exists_listings
      (fun l hl name => name_word onLines (mem_of_belonging hl)) hparams
  obtain ⟨fields, listsFields, length, rfl⟩ :=
    (listed_returns indented read).exists_listings
      (fun l hl name => name_word onLines (mem_of_fieldsUp hl)) hfields
  refine ⟨params, fields, listsParams, listsFields, fun key? => ?_⟩
  have empty : (rowsOfSchema 0 parts.declared.returnSpec.schema?).isEmpty = fields.isEmpty := by
    rw [Bool.eq_iff_iff, List.isEmpty_iff_length_eq_zero, List.isEmpty_iff_length_eq_zero, length]
  have returns : returnTable parts.declared.returnSpec = .ok (fieldsText fields) := by
    rw [returnTable_eq hfields, empty]
    rfl
  exact render_eq (parameterPart_eq filled hparams) returns

/-- A source with fields below its parameters, a charge between, and fields below what is
returned. -/
def menuSource : String :=
  "# @param \x7bobject\x7d o\n# @   \x7barray\x7d xs\n# @     \x7bany\x7d x\n# @  \x7b?any\x7d y\n" ++
    "# @charge 3\n# @param \x7bstring\x7d s\n# @returns \x7barray\x7d\n# @ \x7bany\x7d r\n" ++
      "def f(o, s='|'): pass\n"

theorem parse_listed_menu :
    ∃ parts d, Definition.readParts "f.py" (.text menuSource) = .ok parts ∧
      Definition.parse 1 "f.py" (.text menuSource) = .ok d ∧
      ∃ params fields : List Listing, params.length = 5 ∧ fields.length = 1 ∧
        (∀ l ∈ params ++ fields, l.Shown parts.signature.formals) ∧
        render d (some "f") = .ok (pageText d (some "f") params fields) := by
  have facts : ((Definition.readParts "f.py" (.text menuSource)).map fun p =>
      (p.block.declarations.any isParam,
        (belonging isParam false (outline p.block.declarations)).length,
        (fieldsUp (belonging isReturns false (outline p.block.declarations))).length)).toOption =
          some (true, 5, 1) := by
    decide +kernel
  have succeeds : (Definition.parse 1 "f.py" (.text menuSource)).isOk = true := by decide +kernel
  obtain ⟨d, parsed⟩ := exists_of_isOk succeeds
  obtain ⟨parts, found, facts⟩ := map_eq_ok.mp (mem_toOption.mp facts)
  obtain ⟨declared, counts⟩ := Prod.mk.inj facts
  obtain ⟨paramCount, fieldCount⟩ := Prod.mk.inj counts
  obtain ⟨-, params, fields, listsParams, listsFields, page⟩ :=
    parse_listed found (List.any_eq_true.mp declared) parsed
  refine ⟨parts, d, found, parsed, params, fields, ?_, ?_, ?_, page (some "f")⟩
  · rw [← paramCount, ← listsParams.lines, List.length_map]
  · rw [← fieldCount, ← listsFields.lines, List.length_map]
  · exact List.forall_mem_append.mpr ⟨listsParams.shown, listsFields.shown⟩

end Docsig.Page
