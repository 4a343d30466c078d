import Docsig.Proofs.Code.Source
import Docsig.Proofs.Json.Printable
import Docsig.Proofs.Page.Rows

/-!
The text of a row.

A row is put together from marks, names, types and texts (`line_eq_ok`). Nothing of it may end
a line but what stands in a description or a label, where a line feed is escaped
(`mem_cell`): a row is one line (`Presentable.oneLine`) if no character of its name ends one.
-/

namespace Docsig.Page

variable {s t : String} {cs : List Char} {n : Nat} {q : Parameter} {text default : String}

/-! ### Plain texts -/

/-- A text that neither ends a cell nor a line. -/
def Plain (s : String) : Prop := ∀ c ∈ s.toList, c ≠ '|' ∧ Text.isLineBreak c = false

instance (s : String) : Decidable (Plain s) := List.decidableBAll _ s.toList

def mark (depth : Nat) : String :=
  String.join (List.replicate depth "&nbsp;&nbsp;") ++ (if depth = 0 then "" else "└ ")

namespace Plain

theorem append (h : Plain s) (h' : Plain t) : Plain (s ++ t) := by
  rw [Plain, String.toList_append]
  exact List.forall_mem_append.mpr ⟨h, h'⟩

theorem mark (depth : Nat) : Plain (mark depth) := by
  refine append ?_ (by split <;> decide)
  induction depth with
  | zero => decide
  | succ depth ih =>
      rw [List.replicate_succ, String.join_cons]
      exact append (by decide) ih

theorem type (h : Tag.isName q.type = true) : Plain q.type := by
  obtain ⟨t, eq⟩ := Tag.exists_of_isName h
  rw [eq]
  cases t <;> decide

theorem required (q : Parameter) : Plain (if q.hasDefault then "no" else "yes") := by
  split <;> decide

/-- An identifier neither ends a cell nor a line. -/
theorem identifier (h : Text.isIdentifier s.toList = true) : Plain s := by
  intro c hc
  have inside := Text.isIdentifierContinue_of_mem h hc
  constructor
  · rintro rfl
    revert inside
    decide
  · by_contra ends
    have outside := Text.isIdentifierContinue_of_isLineBreak (Bool.eq_true_of_not_eq_false ends)
    rw [inside] at outside
    cases outside

theorem unbroken (h : Plain s) : Code.Unbroken s.toList := fun c hc => (h c hc).2

end Plain

/-! ### Line breaks -/

theorem unbroken_append (h : Code.Unbroken s.toList) (h' : Code.Unbroken t.toList) :
    Code.Unbroken (s ++ t).toList := by
  rw [String.toList_append]
  exact List.forall_mem_append.mpr ⟨h, h'⟩

theorem unbroken_codeSpan (h : Code.Unbroken s.toList) : Code.Unbroken (codeSpan s).toList :=
  unbroken_append (unbroken_append (by decide) h) (by decide)

/-- A JSON text has no character that ends a line. -/
theorem unbroken_json {v : Value} (h : Json.text v = .ok s) : Code.Unbroken s.toList := by
  intro c hc
  have printable := Json.text_printable h c hc
  simp only [Text.isLineBreak, Bool.or_eq_false_iff, Bool.and_eq_false_iff, decide_eq_false_iff_not,
    beq_eq_false_iff_ne]
  omega

/-- A default is written on one line, as JSON text is printable. -/
theorem unbroken_defaultCell {r : Row} (h : r.defaultCell = .ok default) :
    Code.Unbroken default.toList := by
  unfold Row.defaultCell at h
  split at h
  · obtain ⟨json, written, ⟨⟩⟩ := bind_eq_ok.mp h
    exact unbroken_codeSpan (unbroken_json written)
  · cases h
    decide

/-- What ends a line in a cell is no line feed, and stands in the text of the cell. -/
theorem mem_cell {c : Char} (h : c ∈ cell cs) (ends : Text.isLineBreak c = true) :
    c ≠ '\n' ∧ c ∈ cs := by
  induction cs with
  | nil => cases h
  | cons d cs ih =>
      -- the rest of the cell is known; what is new is an escape, a break that is written out,
      -- or the character
      have inside (h : c ∈ cell cs) : c ≠ '\n' ∧ c ∈ d :: cs :=
        (ih h).imp_right (List.mem_cons_of_mem d)
      rw [cell] at h
      split at h
      · rcases List.mem_cons.mp h with rfl | h
        · cases ends
        rcases List.mem_cons.mp h with rfl | h
        · cases ends
        · exact inside h
      · split at h
        · rcases List.mem_append.mp h with mark | h
          · have plain : Plain "<br>" := by decide
            rw [(plain c mark).2] at ends
            cases ends
          · exact inside h
        · rename_i other
          rcases List.mem_cons.mp h with rfl | h
          · exact ⟨other, List.mem_cons_self⟩
          · exact inside h

/-! ### Rows -/

/-- The text of a row up to the description. -/
def rowStart (n : Nat) (q : Parameter) (default : String) : String :=
  "| " ++ mark n ++ codeSpan q.name ++ " | " ++ q.type ++ " | " ++
    (if q.hasDefault then "no" else "yes") ++ " | " ++ default ++ " | "

/-- The text of a row with a cell for the default. -/
def rowText (n : Nat) (q : Parameter) (default : String) : String :=
  rowStart n q default ++ (entryRow n q).description ++ " |\n"

/-- The line of an entry is its text around the cell of its default. -/
theorem line_eq_ok : (entryRow n q).line = .ok text ↔
    ∃ default, (entryRow n q).defaultCell = .ok default ∧ rowText n q default = text := by
  have given : (entryRow n q).default?.isSome = q.hasDefault := by
    rw [entryRow, Option.isSome_map]
    rfl
  rw [Row.line, bind_eq_ok, given]
  exact exists_congr fun _ => and_congr_right fun _ => ⟨Except.ok.inj, congrArg Except.ok⟩

theorem description_toList : (entryRow n q).description.toList =
    cell (describe q.description q.members?).toList := String.toList_ofList

/-- What holds of an entry whose row is one line. -/
structure Presentable (q : Parameter) : Prop where
  name : Code.Unbroken q.name.toList
  type : Tag.isName q.type = true

theorem Presentable.unbroken_rowStart (own : Presentable q) (cell : Code.Unbroken default.toList) :
    Code.Unbroken (rowStart n q default).toList := by
  have bar : Code.Unbroken " | ".toList := by decide
  have start := unbroken_append (s := "| ") (by decide) (Plain.mark n).unbroken
  have named := unbroken_append (unbroken_append start (unbroken_codeSpan own.name)) bar
  have typed := unbroken_append (unbroken_append named (Plain.type own.type).unbroken) bar
  have required := unbroken_append (unbroken_append typed (Plain.required q).unbroken) bar
  exact unbroken_append (unbroken_append required cell) bar

/-- **A row is one line.** Whatever may end a line in it, apart from the line feed at its end,
stands in the description or in a label and is no line feed. -/
theorem Presentable.oneLine (own : Presentable q) (h : (entryRow n q).defaultCell = .ok default) :
    ∃ line, rowText n q default = line ++ "\n" ∧ ∀ c ∈ line.toList, Text.isLineBreak c = true →
      c ≠ '\n' ∧ c ∈ (describe q.description q.members?).toList := by
  refine ⟨rowStart n q default ++ (entryRow n q).description ++ " |", ?_, fun c hc ends => ?_⟩
  · have closing : " |\n" = " |" ++ "\n" := rfl
    rw [rowText, closing, String.append_assoc, String.append_assoc, String.append_assoc]
  · rw [String.toList_append, String.toList_append, description_toList] at hc
    rcases List.mem_append.mp hc with hc | hc
    · rcases List.mem_append.mp hc with hc | hc
      · rw [own.unbroken_rowStart (unbroken_defaultCell h) c hc] at ends
        cases ends
      · exact mem_cell hc ends
    · have closing : Code.Unbroken " |".toList := by decide
      rw [closing c hc] at ends
      cases ends

end Docsig.Page
