import Docsig.Proofs.Definition.Inferred
import Docsig.Proofs.Page.Listing

/-!
The cells of a row.

A bar ends a cell unless a backslash stands right before it, so a row of five cells is a line
with six such bars. Only the description of a row is escaped (`barsFrom_cell`): the bars in a
name or in the text of a default end cells, too. `Written` says of a row how many bars it has
and which of its characters may end a line, and `parse_rows` says so of every row on every
page. The parameters of a function have identifiers as names, which hold no bar
(`parse_identifiers`); the fields of a schema may have any word.
-/

namespace Docsig.Page

open Comment (Declaration)
open Definition (Formal Parts)
open Definition.Draft

variable {s t text default : String} {cs ds : List Char} {escaped : Bool} {n : Nat}
  {q : Parameter}

/-! ### Bars -/

/-- The number of bars in a text that no backslash stands right before. The text itself may
stand right after a backslash. -/
def barsFrom (escaped : Bool) : List Char → Nat
  | [] => 0
  | c :: cs => (if c = '|' && !escaped then 1 else 0) + barsFrom (c = '\\') cs

def bars (s : String) : Nat := barsFrom false s.toList

theorem barsFrom_congr (h : cs.head? ≠ some '|') : barsFrom escaped cs = barsFrom false cs := by
  cases cs with
  | nil => rfl
  | cons c cs =>
      have other : c ≠ '|' := fun bar => h (congrArg some bar)
      simp [barsFrom, other]

/-- Bars are counted part by part unless the second part starts with one. -/
theorem barsFrom_append (h : ds.head? ≠ some '|') :
    barsFrom escaped (cs ++ ds) = barsFrom escaped cs + barsFrom false ds := by
  induction cs generalizing escaped with
  | nil => rw [List.nil_append, barsFrom_congr h, barsFrom, Nat.zero_add]
  | cons c cs ih => rw [List.cons_append, barsFrom, barsFrom, ih, Nat.add_assoc]

/-- Texts of which the second does not start with a bar. -/
theorem bars_append (h : t.toList.head? ≠ some '|') : bars (s ++ t) = bars s + bars t := by
  rw [bars, String.toList_append, barsFrom_append h]
  rfl

theorem barsFrom_eq_zero (h : '|' ∉ cs) : barsFrom escaped cs = 0 := by
  induction cs generalizing escaped with
  | nil => rfl
  | cons c cs ih =>
      obtain ⟨other, rest⟩ := List.ne_and_not_mem_of_not_mem_cons h
      rw [barsFrom, ih rest]
      simp [other.symm]

theorem bars_codeSpan (s : String) : bars (codeSpan s) = bars s := by
  have opened : bars ("\x60" ++ s) = bars s := by
    rw [bars, String.toList_append]
    exact Nat.zero_add _
  rw [codeSpan, bars_append (by decide), opened]
  rfl

theorem codeSpan_head (s : String) : (codeSpan s).toList.head? ≠ some '|' := by
  rw [codeSpan, String.toList_append, String.toList_append]
  nofun

/-- **No bar of a description ends a cell.** -/
theorem barsFrom_cell (cs : List Char) : barsFrom escaped (cell cs) = 0 := by
  induction cs generalizing escaped with
  | nil => rfl
  | cons c cs ih =>
      rw [cell]
      split
      · simp [barsFrom, ih]
      · split
        · simp [barsFrom, ih]
        · rename_i noBar _
          simp [barsFrom, ih, noBar]

/-- No cell starts with a bar, as it would be escaped. -/
theorem cell_head (cs : List Char) : (cell cs).head? ≠ some '|' := by
  cases cs with
  | nil => nofun
  | cons c cs =>
      rw [cell]
      split
      · simp
      · split
        · simp
        · rename_i noBar _
          simpa using noBar

theorem Plain.bars (h : Plain s) : bars s = 0 := barsFrom_eq_zero fun bar => (h _ bar).1 rfl

theorem Plain.head (h : Plain s) : s.toList.head? ≠ some '|' := fun bar =>
  (h _ (List.mem_of_head? bar)).1 rfl

/-! ### Rows -/

/-- The JSON text of a default; empty if there is none. -/
def defaultText (q : Parameter) : String :=
  (q.default?.bind fun v => (Json.text v.thaw).toOption).getD ""

/-- The row of an entry as it is written. -/
structure Written (q : Parameter) (text : String) : Prop where
  row : ∃ depth, (entryRow depth q).line = .ok text
  /-- Six bars end its cells, and so does each in the name and in the text of the default. -/
  bars : bars text = 6 + bars q.name + bars (defaultText q)
  /-- It is one line. Whatever else may end a line in it stands in the description or in a
  label, and is no line feed. -/
  oneLine : ∃ line, text = line ++ "\n" ∧ ∀ c ∈ line.toList, Text.isLineBreak c = true →
    c ≠ '\n' ∧ c ∈ (describe q.description q.members?).toList

/-- A row has six bars exactly if its name and its default bring none. -/
theorem Written.bars_eq_six (h : Written q text) :
    Page.bars text = 6 ↔ Page.bars q.name = 0 ∧ Page.bars (defaultText q) = 0 := by
  have := h.bars
  omega

/-- The bars in the cell of a default are those of its text. -/
theorem bars_defaultCell (h : (entryRow n q).defaultCell = .ok default) :
    default.toList.head? ≠ some '|' ∧ bars default = bars (defaultText q) := by
  rw [Row.defaultCell, entryRow] at h
  rw [defaultText]
  cases own : q.default? with
  | none =>
      rw [own] at h
      cases h
      exact ⟨by decide, rfl⟩
  | some v =>
      rw [own] at h
      obtain ⟨json, written, ⟨⟩⟩ := bind_eq_ok.mp h
      refine ⟨codeSpan_head json, ?_⟩
      rw [bars_codeSpan, Option.bind_some, written]
      rfl

/-- A row has five bars of its own besides those of its name and its default. -/
theorem bars_rowStart (type : Tag.isName q.type = true) (head : default.toList.head? ≠ some '|') :
    bars (rowStart n q default) = 5 + bars q.name + bars default := by
  have bar : (" | " : String).toList.head? ≠ some '|' := by decide
  have first : bars "| " = 1 := by decide
  have between : bars " | " = 1 := by decide
  rw [rowStart, bars_append bar, bars_append head, bars_append bar,
    bars_append (Plain.required q).head, bars_append bar, bars_append (Plain.type type).head,
    bars_append bar, bars_append (codeSpan_head _), bars_append (Plain.mark n).head, bars_codeSpan,
    (Plain.required q).bars, (Plain.type type).bars, (Plain.mark n).bars, first, between]
  omega

/-- **The row of an entry**, where no character of its name ends a line. -/
theorem Presentable.written (own : Presentable q) (h : (entryRow n q).line = .ok text) :
    Written q text := by
  obtain ⟨default, hcell, rfl⟩ := line_eq_ok.mp h
  obtain ⟨head, same⟩ := bars_defaultCell hcell
  refine ⟨⟨n, h⟩, ?_, own.oneLine hcell⟩
  have escaped : bars (entryRow n q).description = 0 := by
    rw [bars, description_toList]
    exact barsFrom_cell _
  have last : bars " |\n" = 1 := by decide
  rw [rowText, bars_append (by decide), bars_append (description_toList ▸ cell_head _),
    bars_rowStart own.type head, same, escaped, last]
  omega

/-! ### Tables -/

/-- A row that shows an entry, at some depth. -/
def Shows (q : Parameter) (r : Row) : Prop := ∃ n, r = entryRow n q

mutual

theorem rowsOf_shows (depth : Nat) : ∀ p : Parameter,
    List.Forall₂ Shows p.entries (rowsOf depth p)
  | ⟨name, type, description, default?, schema?, members?⟩ => by
      rw [Parameter.entries_eq, rowsOf_eq]
      exact .cons ⟨depth, rfl⟩ (rowsOfSchema_shows (depth + 1) schema?)

theorem rowsOfSchema_shows (depth : Nat) : ∀ schema? : Option (List Parameter),
    List.Forall₂ Shows (schemaEntries schema?) (rowsOfSchema depth schema?)
  | none => .nil
  | some ps => by
      rw [schemaEntries, rowsOfSchema]
      exact rowsOfAll_shows depth ps

/-- **A table has one row for each entry**, in order. -/
theorem rowsOfAll_shows (depth : Nat) : ∀ ps : List Parameter,
    List.Forall₂ Shows (allEntries ps) (rowsOfAll depth ps)
  | [] => .nil
  | p :: ps => by
      rw [allEntries, rowsOfAll]
      exact List.rel_append (rowsOf_shows depth p) (rowsOfAll_shows depth ps)

end

variable {qs : List Parameter} {rs : List Row} {texts : List String}

/-- Rows are written one text for each. -/
theorem exists_written (h : List.Forall₂ Shows qs rs) (entries : ∀ q ∈ qs, Presentable q)
    (body : lines rs = .ok text) :
    ∃ texts, List.Forall₂ Written qs texts ∧ text = String.join texts := by
  induction h generalizing text with
  | nil =>
      cases body
      exact ⟨[], .nil, rfl⟩
  | cons first _ ih =>
      obtain ⟨own, others⟩ := List.forall_mem_cons.mp entries
      obtain ⟨n, rfl⟩ := first
      obtain ⟨line, hline, body⟩ := bind_eq_ok.mp body
      obtain ⟨rest, hrest, ⟨⟩⟩ := bind_eq_ok.mp body
      obtain ⟨texts, written, rfl⟩ := ih others hrest
      exact ⟨line :: texts, .cons (own.written hline) written, (String.join_cons ..).symm⟩

/-- **Which tables have six bars in every row.** -/
theorem forall_bars_iff (h : List.Forall₂ Written qs texts) : (∀ text ∈ texts, bars text = 6) ↔
    ∀ q ∈ qs, bars q.name = 0 ∧ bars (defaultText q) = 0 := by
  induction h with
  | nil => simp
  | cons first _ ih => rw [List.forall_mem_cons, List.forall_mem_cons, first.bars_eq_six, ih]

/-- The bars of the rows of a table. -/
theorem map_bars (h : List.Forall₂ Written qs texts) :
    texts.map bars = qs.map fun q => 6 + bars q.name + bars (defaultText q) := by
  induction h with
  | nil => rfl
  | cons first _ ih => rw [List.map_cons, List.map_cons, first.bars, ih]

/-! ### Pages -/

/-- The page of a definition by the rows of its tables. -/
def rowsPage (d : Definition) (key? : Option String) (params fields : List String) : String :=
  layout d key? (if params.isEmpty then noParameters else tableHead ++ String.join params)
    (if fields.isEmpty then "" else tableHead ++ String.join fields ++ "\n")

theorem isEmpty_eq {α β : Type} {R : α → β → Prop} {xs : List α} {ys : List β}
    (h : List.Forall₂ R xs ys) : xs.isEmpty = ys.isEmpty := by
  cases h <;> rfl

/-- A definition whose defaults have texts has a page with one row for each entry. -/
theorem exists_rowsPage {d : Definition} (holds : d.Holds Value.IsWritable)
    (params : ∀ q ∈ allEntries d.params, Presentable q)
    (fields : ∀ q ∈ schemaEntries d.returns.schema?, Presentable q) :
    ∃ ps fs : List String, List.Forall₂ Written (allEntries d.params) ps ∧
      List.Forall₂ Written (schemaEntries d.returns.schema?) fs ∧
      ∀ key?, render d key? = .ok (rowsPage d key? ps fs) := by
  have fieldRows := rowsOfSchema_shows 0 d.returns.schema?
  obtain ⟨paramBody, paramLines⟩ := exists_tableLines holds.params
  obtain ⟨fieldBody, fieldLines⟩ := exists_schemaLines holds.returned
  obtain ⟨ps, writtenParams, rfl⟩ := exists_written (rowsOfAll_shows 0 d.params) params paramLines
  obtain ⟨fs, writtenFields, rfl⟩ := exists_written fieldRows fields fieldLines
  refine ⟨ps, fs, writtenParams, writtenFields, fun key? => ?_⟩
  -- the table of parameters is left out by the parameters, its rows by the texts
  have paramTable : parameterPart d =
      .ok (if ps.isEmpty then noParameters else tableHead ++ String.join ps) := by
    rw [← isEmpty_eq writtenParams]
    cases none : d.params with
    | nil =>
        rw [parameterPart, none]
        rfl
    | cons p rest =>
        rw [parameterPart_eq (by rw [none]; exact List.cons_ne_nil p rest) paramLines]
        rw [allEntries, Parameter.entries_eq]
        rfl
  have fieldTable : returnTable d.returns = .ok
      (if fs.isEmpty then "" else tableHead ++ String.join fs ++ "\n") := by
    rw [returnTable_eq fieldLines, ← isEmpty_eq fieldRows, isEmpty_eq writtenFields]
  rw [render, paramTable, ok_bind, fieldTable]
  rfl

/-! ### Sources -/

section Sources

variable {charge : Int} {pathname : String} {contents : Definition.Contents} {d : Definition}
  {fs : List Formal} {ls : List (Nat × Declaration)}

/-- The parameters of a parsed definition have identifiers as names. -/
theorem parse_identifiers (parsed : Definition.parse charge pathname contents = .ok d) :
    ∀ p ∈ d.params, Text.isIdentifier p.name.toList = true := by
  obtain ⟨parts, ps, found, matched, rfl⟩ := Definition.parse_ok parsed
  obtain ⟨cs, ss, -, statements, entry, read, signed⟩ := Definition.readParts_ok found
  have ⟨built, differ, _⟩ := read_built read
  have names := (parts.params_ok built differ matched).1
  have formals := (Definition.Signature.ofFunction_ok signed).1
  intro p hp
  have formal : p.name ∈ parts.function.params.map Code.Param.name := by
    rw [formals, ← names]
    exact List.mem_append_left _ (List.mem_map_of_mem hp)
  obtain ⟨param, mem, name⟩ := List.mem_map.mp formal
  rw [← name]
  exact Code.file_params_isIdentifier (Definition.statements_eq_ok.mp statements)
    (Definition.entryFunction_mem entry) param mem

/-- The entries of lines with words for names have rows on one line. -/
theorem Listed.presentable {qs : List Parameter} {rs : List Row} (h : Listed fs ls qs rs)
    (words : ∀ l ∈ ls, ∀ name, nameOf? l.2 = some name → ∀ c ∈ name.toList, Text.isBlank c = false) :
    ∀ q ∈ qs, Presentable q := by
  induction h with
  | nil => simp
  | cons entered _ ih =>
      obtain ⟨word, words⟩ := List.forall_mem_cons.mp words
      exact List.forall_mem_cons.mpr ⟨entered.presentable word, ih words⟩

/-- **Every entry of a parsed definition has a row on one line.** -/
theorem parse_presentable (parsed : Definition.parse charge pathname contents = .ok d) :
    (∀ q ∈ allEntries d.params, Presentable q) ∧
      ∀ q ∈ schemaEntries d.returns.schema?, Presentable q := by
  have identifiers := parse_identifiers parsed
  obtain ⟨parts, ps, found, matched, rfl⟩ := Definition.parse_ok parsed
  obtain ⟨-, ls, -, -, onLines⟩ := readParts_lines found
  obtain ⟨-, -, -, -, -, read, -⟩ := Definition.readParts_ok found
  have indented := indented_declarations onLines
  have listed : Listed [] _ _ (rowsOfSchema 0 parts.declared.returnSpec.schema?) :=
    listed_returns indented read
  refine ⟨?_, listed.presentable fun l hl name => name_word onLines (mem_of_fieldsUp hl)⟩
  by_cases undeclared : parts.declared.params = []
  · -- parameters that are inferred have no fields
    rw [Parts.params, if_pos (List.isEmpty_iff.mpr undeclared)] at matched
    intro q hq
    obtain ⟨p, hp, below⟩ := mem_allEntries.mp hq
    obtain ⟨f, -, inferred⟩ := exists_of_mem_right (mapM_eq_ok.mp matched) hp
    have name := (Plain.identifier (identifiers p hp)).unbroken
    obtain ⟨e, v, -, -, rfl⟩ := Definition.inferParam_eq_ok.mp inferred
    rcases mem_entries.mp below with rfl | ⟨_, ⟨⟩, -⟩
    exact ⟨name, Tag.isName_name _⟩
  · exact (listed_params indented read (params_matched undeclared matched)).presentable
      fun l hl name => name_word onLines (mem_of_belonging hl)

/-- **The rows of the tables on a page.** Every page of a parsed definition has one row for
each parameter and each field below one, and one for each field of the return value. A row has
the six bars that end its cells and those in the name and in the JSON text of the default, and
it is one line. So all rows have five cells exactly if no bar stands in a name or a default; the
name of a parameter never has one. -/
theorem parse_rows (parsed : Definition.parse charge pathname contents = .ok d) :
    (∃ params fields : List String, List.Forall₂ Written (allEntries d.params) params ∧
      List.Forall₂ Written (schemaEntries d.returns.schema?) fields ∧
      (∀ key?, render d key? = .ok (rowsPage d key? params fields)) ∧
      ((∀ text ∈ params ++ fields, bars text = 6) ↔
        ∀ q ∈ allEntries d.params ++ schemaEntries d.returns.schema?,
          bars q.name = 0 ∧ bars (defaultText q) = 0)) ∧
    ∀ p ∈ d.params, bars p.name = 0 := by
  obtain ⟨presentable, returned⟩ := parse_presentable parsed
  obtain ⟨params, fields, writtenParams, writtenFields, page⟩ :=
    exists_rowsPage (Definition.parse_holds parsed) presentable returned
  refine ⟨⟨params, fields, writtenParams, writtenFields, page, ?_⟩, fun p hp => ?_⟩
  · exact forall_bars_iff (List.rel_append writtenParams writtenFields)
  · exact (Plain.identifier (parse_identifiers parsed p hp)).bars

/-- A source with bars in the names of fields, in a default and, escaped, in a description. -/
def barsSource : String :=
  "# @param \x7bobject\x7d o\n# @ \x7bstring\x7d x|y Either|or.\n# @param \x7bstring\x7d s A|B.\n" ++
    "# @returns \x7barray\x7d\n# @ \x7b?string\x7d r||s\ndef f(o, s='|'): pass\n"

theorem parse_rows_bars :
    ∃ d, Definition.parse 1 "f.py" (.text barsSource) = .ok d ∧
      ∃ params fields : List String, params.map bars = [6, 7, 7] ∧ fields.map bars = [8] ∧
        render d (some "f") = .ok (rowsPage d (some "f") params fields) := by
  have facts : ((Definition.parse 1 "f.py" (.text barsSource)).map fun d =>
      ((allEntries d.params).map fun q => 6 + bars q.name + bars (defaultText q),
        (schemaEntries d.returns.schema?).map fun q => 6 + bars q.name + bars (defaultText q))).toOption =
          some ([6, 7, 7], [8]) := by
    decide +kernel
  obtain ⟨d, parsed, facts⟩ := map_eq_ok.mp (mem_toOption.mp facts)
  obtain ⟨paramBars, fieldBars⟩ := Prod.mk.inj facts
  obtain ⟨⟨params, fields, writtenParams, writtenFields, page, -⟩, -⟩ := parse_rows parsed
  refine ⟨d, parsed, params, fields, ?_, ?_, page (some "f")⟩
  · rw [map_bars writtenParams, paramBars]
  · rw [map_bars writtenFields, fieldBars]

/-- Not every row has six bars: one is too many where a field has a bar in its name, and where
a default has one in its text. -/
theorem parse_rows_torn :
    ((Definition.parse 1 "f.py"
      (.text "# @param \x7bobject\x7d a\n# @ \x7bstring\x7d x|y\ndef f(a): pass\n")).toOption.map fun d =>
        (rows d.params).map fun r => r.line.toOption.map bars) = some [some 6, some 7] ∧
    ((Definition.parse 1 "f.py" (.text "def f(a=\"x|y\"): pass\n")).toOption.map fun d =>
        (rows d.params).map fun r => r.line.toOption.map bars) = some [some 7] := by
  decide +kernel

end Sources

end Docsig.Page
