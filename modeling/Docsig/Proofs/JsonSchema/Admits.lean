import Docsig.Proofs.JsonSchema.Export
import Docsig.Proofs.Number.Double
import Docsig.Proofs.Value.Parts

/-!
What a schema admits.

`Schema.Admits` is the absence of violations. `admits_iff` reads a schema keyword by
keyword, and each schema that a parameter may have gets one lemma after it: for the
fixed schemas of types, for arrays (`admits_items`) and for objects
(`admits_ofFields`).
-/

namespace Docsig

namespace Schema

variable {v : Value} {s : Schema}

/-! ### Admission -/

/-- A value violates no keyword of a schema. -/
def Admits (s : Schema) (v : Value) : Prop := s.violations v = []

theorem keywordsIssues_eq (names : List String) (ks : List Keyword) (v : Value) :
    keywordsIssues names ks v = ks.flatMap fun k => keywordIssues names k v := by
  induction ks with
  | nil => rfl
  | cons k ks ih => rw [keywordsIssues, ih, List.flatMap_cons]

/-- A schema admits what each of its keywords does. -/
theorem admits_iff : s.Admits v ↔ ∀ k ∈ s, keywordIssues s.fieldNames k v = [] := by
  rw [Admits, violations, keywordsIssues_eq, List.flatMap_eq_nil_iff]

/-- No issues are left exactly where a value is admitted. -/
theorem issues_eq_nil : s.issues v = [] ↔ s.Admits v := by
  rw [issues, Admits, ← List.length_eq_zero_iff, List.length_mergeSort,
    List.length_eq_zero_iff]

theorem admits_kind {kind : JsonKind} : Admits [.kind kind] v ↔ kind.has v = true := by
  simp [admits_iff, keywordIssues]

theorem fieldNames_append_description (s : Schema) (text : String) :
    fieldNames (s ++ [.description text]) = fieldNames s := by
  induction s with
  | nil => rfl
  | cons k ks ih => cases k <;> simp [fieldNames, ih]

/-- A description changes nothing. -/
theorem admits_described {description : String} :
    (described s description).Admits v ↔ s.Admits v := by
  unfold described
  split
  · rfl
  · simp [admits_iff, fieldNames_append_description, keywordIssues, or_imp, forall_and]

/-- Neither does the dialect. -/
theorem admits_dialect {url : String} : Admits (.dialect url :: s) v ↔ s.Admits v := by
  simp [admits_iff, fieldNames, keywordIssues]

theorem holding_eq (alternatives : List Schema) (v : Value) :
    holding alternatives v = alternatives.filter fun s => (s.violations v).isEmpty := by
  induction alternatives with
  | nil => rfl
  | cons s ss ih => rw [holding, List.filter_cons, ih, violations]

/-- A schema of alternatives admits what one of them admits. -/
theorem admits_anyOf {alternatives : List Schema} :
    Admits [.anyOf alternatives] v ↔ ∃ s ∈ alternatives, s.Admits v := by
  rw [admits_iff]
  simp [keywordIssues, holding_eq, Admits]

/-- A schema with null as an alternative admits null besides. -/
theorem admits_orNull : (orNull s).Admits v ↔ s.Admits v ∨ v = .null := by
  have null : JsonKind.null.has v = true ↔ v = .null := by cases v <;> simp [JsonKind.has]
  simp [orNull, admits_anyOf, admits_kind, null]

/-! ### Fixed schemas of types -/

/-- A schema of labels admits these texts. -/
theorem admits_enum {labels : List String} :
    Admits [.enum labels] v ↔ ∃ label ∈ labels, v = .text label := by
  simp [admits_iff, keywordIssues, Value.same_text_iff]

/-- The schema of safe integers admits what counts as one. -/
theorem admits_integer :
    Admits [.kind .integer, .minimum (-maxSafeInteger), .maximum maxSafeInteger] v ↔
      v.isInteger = true := by
  cases v with
  | int n => simp [admits_iff, keywordIssues, JsonKind.has, isBelow, isAbove, Value.isInteger]
  | float d =>
      cases h : d.integer? with
      | none => simp [admits_iff, keywordIssues, JsonKind.has, Value.isInteger, h]
      | some n =>
          simp [admits_iff, keywordIssues, JsonKind.has, isBelow, isAbove, Value.isInteger, h,
            Double.ltInt_iff h, Double.gtInt_iff h]
  | _ => simp [admits_iff, keywordIssues, JsonKind.has, Value.isInteger]

/-! ### Arrays and objects -/

/-- A schema of items admits the lists of what it admits. -/
theorem admits_items {item : Schema} :
    Admits [.kind .array, .items item] v ↔
      ∃ items, v = .list items ∧ ∀ x ∈ items, item.Admits x := by
  rw [admits_iff]
  cases v with
  | seq kind items =>
      cases kind with
      | tuple => simp [keywordIssues, JsonKind.has]
      | list =>
          -- the items are checked with their numbers, on which nothing depends
          have each : (∀ x ∈ items, item.Admits x) ↔
              ∀ e ∈ items.zipIdx, item.Admits e.1 := by
            conv => lhs; rw [← List.zipIdx_map_fst 0 items]
            exact List.forall_mem_map
          simpa [keywordIssues, JsonKind.has, Admits, violations] using each.symm
  | _ => simp [keywordIssues, JsonKind.has]

theorem fieldIssues_eq_nil {fields : List (String × Schema)} {es : List (Value × Value)} :
    fieldIssues fields es = [] ↔
      ∀ f ∈ fields, ∀ x, Value.field? f.1 es = some x → f.2.Admits x := by
  induction fields with
  | nil => simp [fieldIssues]
  | cons field fields ih =>
      obtain ⟨name, schema⟩ := field
      rw [fieldIssues, List.append_eq_nil_iff, ih, List.forall_mem_cons]
      refine and_congr_left' ?_
      cases Value.field? name es <;> simp [Admits, violations]

/-- The schema of fields with different names admits a dictionary in which each field
is missing or admitted, and none that is required is missing. -/
theorem admits_ofFields {fields : List (String × Schema)} {required : List String}
    (nodup : (fields.map Prod.fst).Nodup) :
    (ofFields fields required).Admits v ↔
      ∃ es, v = .dict es ∧
        (∀ f ∈ fields, ∀ x, Value.field? f.1 es = some x → f.2.Admits x) ∧
        ∀ name ∈ required, Value.hasKey (.text name) es = true := by
  rw [ofFields_eq nodup, admits_iff]
  cases v with
  | map kind es =>
      cases kind with
      | frozen => simp [keywordIssues, JsonKind.has]
      | dict => simp [keywordIssues, JsonKind.has, requiredIssues, fieldIssues_eq_nil]
  | _ => simp [keywordIssues, JsonKind.has]

end Schema

end Docsig
