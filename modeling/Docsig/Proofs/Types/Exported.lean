import Docsig.Proofs.Definition.Export
import Docsig.Proofs.Types.Fragment
import Docsig.Proofs.Types.Sanitize

/-!
Parameters and their exported forms as schemas.

The type engine reads a schema from parameters or from the maps that they are exported as.
Both readings give the same types, names, defaults and members at every depth, and differ in
one point: an exported form is a value, and so it can be a label of an enumeration, where a
parameter is none.

* `Parameter.toEntry_parts`: how an exported form reads as an entry.
* `validate_exported`: a value that is valid for the parameters is valid for their exported
  forms, and conversely unless it meets an exported form as a label (`TakenForLabel`).
* `sanitize_exported`: sanitizing cannot tell the two apart.
-/

namespace Docsig

variable {p : Parameter} {ps : List Parameter} {type : Option Tag} {v : Value} {allowNull : Bool}

/-! ### Entries of exported forms -/

/-- The parameter as the entry that its exported form describes. -/
def Parameter.toEntry (p : Parameter) : Entry := Entry.ofValue p.toValue

namespace Parameter

theorem ofValues_parameterValues (ps : List Parameter) :
    Entry.ofValues (parameterValues ps) = ps.map toEntry := by
  rw [parameterValues_eq, Entry.ofValues_eq, List.map_map]
  rfl

/-- The members of an exported form are those of the parameter. -/
theorem ofValues_members (members : List (String × Value)) :
    Entry.ofValues (members.map fun member => Value.list [.text member.1, member.2.thaw]) =
      members.map fun member => Entry.ofLabel (.text member.1) := by
  rw [Entry.ofValues_eq, List.map_map]
  rfl

/-- An exported form reads as the parts of its parameter, and as itself for a label. -/
theorem toEntry_parts (p : Parameter) :
    p.toEntry.type = Tag.ofName? p.type ∧ p.toEntry.name = .text p.name ∧
      p.toEntry.hasDefault = p.hasDefault ∧ p.toEntry.label = some p.toValue ∧
      p.toEntry.schema = (p.schema?.getD []).map toEntry ∧
      p.toEntry.members =
        (p.members?.getD []).map fun member => Entry.ofLabel (.text member.1) := by
  obtain ⟨name, type, description, default?, schema?, members?⟩ := p
  cases default? <;> cases schema? <;> cases members? <;>
    simp [toEntry, toValue, Value.record, optionalField, schemaValue?, membersValue,
      Entry.ofValue, Entry.ofField_eq, Entry.tagOf?, Value.field?, Value.lookup?, Value.same,
      Value.sameScalar, Value.text?, Value.items?, hasDefault, ofValues_parameterValues,
      ofValues_members, Entry.ofValues]

/-- The entry of a parameter has the parts of the parameter, and is no label. -/
theorem ofParameter_parts (p : Parameter) :
    (Entry.ofParameter p).type = Tag.ofName? p.type ∧
      (Entry.ofParameter p).hasDefault = p.hasDefault ∧ (Entry.ofParameter p).label = none ∧
      (Entry.ofParameter p).schema = (p.schema?.getD []).map Entry.ofParameter := by
  obtain ⟨name, type, description, default?, schema?, members?⟩ := p
  refine ⟨rfl, rfl, rfl, ?_⟩
  cases schema? with
  | none => rfl
  | some ps => exact Entry.ofParameters_eq ps

/-- Without a schema, both readings of a parameter nest its members; with one, its fields. -/
theorem nested_eq_or (p : Parameter) :
    (Entry.ofParameter p).nested = p.toEntry.nested ∧ p.schema?.getD [] = [] ∨
      (Entry.ofParameter p).nested = (p.schema?.getD []).map Entry.ofParameter ∧
        p.toEntry.nested = (p.schema?.getD []).map toEntry := by
  obtain ⟨-, -, -, -, schema, members⟩ := p.toEntry_parts
  rw [Entry.nested_ofParameter, Entry.nested, schema, members, Entry.ofNested]
  cases p.schema? with
  | none => exact .inl ⟨rfl, rfl⟩
  | some ps =>
      rw [Entry.ofSchema, Entry.ofParameters_eq]
      cases ps with
      | nil => exact .inl ⟨rfl, rfl⟩
      | cons q qs => exact .inr ⟨rfl, rfl⟩

end Parameter

/-! ### Labels -/

/-- On the way down a schema and a value, an enumeration has parameters for its members, and
the value there is the exported form of one of them. -/
inductive TakenForLabel : Option Tag → List Parameter → Value → Prop
  | label {ps : List Parameter} {p : Parameter} {v : Value} : p ∈ ps →
      p.toValue.sameKind v = true → p.toValue.same v = true → TakenForLabel (some .enum) ps v
  | field {tag : Tag} {ps : List Parameter} {p : Parameter} {kind : MapKind}
      {fields : List (Value × Value)} : tag = .object ∨ tag = .query → p ∈ ps →
      TakenForLabel (Tag.ofName? p.type) (p.schema?.getD [])
        ((Value.lookup? (.text p.name) fields).getD .null) →
      TakenForLabel (some tag) ps (.map kind fields)
  | item {p : Parameter} {kind : SeqKind} {items : List Value} {x : Value} : x ∈ items →
      TakenForLabel (Tag.ofName? p.type) (p.schema?.getD []) x →
      TakenForLabel (some .array) [p] (.seq kind items)

theorem not_takenForLabel_null : ¬ TakenForLabel type ps .null := by
  rintro (@⟨_, ⟨⟩, _, -, -, same⟩)
  exact absurd same Bool.false_ne_true

theorem not_takenForLabel_nil : ¬ TakenForLabel type [] v := by
  rintro (⟨hp, -⟩ | ⟨-, hp, -⟩)
  · cases hp
  · cases hp

/-- Only types that nest entries lead to labels. -/
theorem TakenForLabel.nests {tag : Tag} (h : TakenForLabel (some tag) ps v) :
    tag = .enum ∨ tag = .object ∨ tag = .query ∨ tag = .array := by
  cases h with
  | label => exact .inl rfl
  | field container => exact .inr (container.imp_right .inl)
  | item => exact .inr (.inr (.inr rfl))

/-- Parameters are no labels. -/
theorem hasLabel_ofParameters : Entry.hasLabel (ps.map Entry.ofParameter) v = false := by
  rw [Entry.hasLabel, List.any_map, List.any_eq_false]
  rintro ⟨⟩ - h
  cases h

/-- The labels of exported forms are these forms. -/
theorem hasLabel_toEntry : Entry.hasLabel (ps.map Parameter.toEntry) v = true ↔
    TakenForLabel (some .enum) ps v := by
  have label (p : Parameter) : p.toEntry.label = some p.toValue := p.toEntry_parts.2.2.2.1
  simp only [Entry.hasLabel, List.any_map, List.any_eq_true, Function.comp_apply, label,
    Bool.and_eq_true]
  constructor
  · rintro ⟨p, hp, kind, same⟩
    exact .label hp kind same
  · rintro (⟨hp, kind, same⟩ | ⟨enum | enum, -, -⟩)
    · exact ⟨_, hp, kind, same⟩
    all_goals cases enum

/-! ### Validation -/

/-- The entry of a parameter accepts what the entry of its exported form accepts but for values
that are taken for labels. -/
def AcceptsAlike (p : Parameter) : Prop :=
  ∀ v, (Entry.ofParameter p).accepts v = true ↔ p.toEntry.accepts v = true ∧
    ¬ TakenForLabel (Tag.ofName? p.type) (p.schema?.getD []) v

/-- A map passes the exported fields exactly if it passes those of the call, but for labels. -/
theorem fieldsAccept_alike {tag : Tag} (container : tag = .object ∨ tag = .query)
    (h : ∀ p ∈ ps, AcceptsAlike p) :
    Entry.fieldsAccept (ps.map Entry.ofParameter) v = true ↔
      Entry.fieldsAccept (ps.map Parameter.toEntry) v = true ∧ ¬ TakenForLabel (some tag) ps v := by
  have name (p : Parameter) : p.toEntry.name = .text p.name := p.toEntry_parts.2.1
  simp only [Entry.fieldsAccept_iff, List.forall_mem_map, Entry.ofParameter_name, name]
  constructor
  · rintro ⟨kind, fields, rfl, accepted⟩
    refine ⟨⟨kind, fields, rfl, fun p hp => ((h p hp _).mp (accepted p hp)).1⟩, ?_⟩
    rintro (_ | ⟨-, hp, taken⟩)
    · rcases container with enum | enum <;> cases enum
    · exact ((h _ hp _).mp (accepted _ hp)).2 taken
  · rintro ⟨⟨kind, fields, rfl, accepted⟩, untaken⟩
    exact ⟨kind, fields, rfl, fun p hp => (h p hp _).mpr
      ⟨accepted p hp, fun taken => untaken (.field container hp taken)⟩⟩

/-- A sequence passes the exported element exactly if it passes that of the call, but for labels.
-/
theorem itemsAccept_alike (h : ∀ p ∈ ps, AcceptsAlike p) :
    Entry.itemsAccept (ps.map Entry.ofParameter) v = true ↔
      Entry.itemsAccept (ps.map Parameter.toEntry) v = true ∧
        ¬ TakenForLabel (some .array) ps v := by
  match ps with
  | [] =>
      refine (and_iff_left ?_).symm
      exact not_takenForLabel_nil
  | _ :: _ :: _ => cases v <;> exact iff_of_false nofun nofun
  | [p] =>
      have hp := h p List.mem_cons_self
      rw [List.map_singleton, List.map_singleton, Entry.itemsAccept_iff, Entry.itemsAccept_iff]
      constructor
      · rintro ⟨kind, items, rfl, accepted⟩
        refine ⟨⟨kind, items, rfl, fun x hx => ((hp x).mp (accepted x hx)).1⟩, ?_⟩
        rintro (_ | _ | ⟨hx, taken⟩)
        · exact ((hp _).mp (accepted _ hx)).2 taken
      · rintro ⟨⟨kind, items, rfl, accepted⟩, untaken⟩
        exact ⟨kind, items, rfl, fun x hx => (hp x).mpr
          ⟨accepted x hx, fun taken => untaken (.item hx taken)⟩⟩

/-- The types decide alike, on the entries of a call and on those exported, if the entries do. -/
theorem validate_alike (h : ∀ p ∈ ps, AcceptsAlike p) :
    validate type v allowNull (ps.map Entry.ofParameter) = true ↔
      validate type v allowNull (ps.map Parameter.toEntry) = true ∧ ¬ TakenForLabel type ps v := by
  -- null is nobody's label, so it can be set aside
  suffices strict : validate type v false (ps.map Entry.ofParameter) = true ↔
      validate type v false (ps.map Parameter.toEntry) = true ∧ ¬ TakenForLabel type ps v by
    have untaken (null : allowNull = true ∧ v = .null) : ¬ TakenForLabel type ps v :=
      null.2 ▸ not_takenForLabel_null
    rw [validate_iff, strict, ← and_iff_left_of_imp untaken, ← or_and_right, ← validate_iff]
  cases type with
  | none => exact iff_of_false nofun nofun
  | some tag =>
      cases tag with
      | enum =>
          rw [validate_enum, validate_enum, hasLabel_ofParameters, hasLabel_toEntry]
          exact iff_of_false nofun fun h => h.2 h.1
      | object =>
          rw [validate_object, validate_object]
          exact fieldsAccept_alike (.inl rfl) h
      | query =>
          rw [validate_query, validate_query]
          exact fieldsAccept_alike (.inr rfl) h
      | array =>
          rw [validate_array, validate_array]
          exact itemsAccept_alike h
      | _ => exact (and_iff_left fun taken => by simpa using taken.nests).symm

theorem acceptsAlike (p : Parameter) : AcceptsAlike p := by
  induction p using Parameter.fields_induction with
  | step p ih =>
      intro v
      obtain ⟨type, -, default, -⟩ := p.toEntry_parts
      obtain ⟨ownType, ownDefault, -⟩ := p.ofParameter_parts
      rw [Entry.accepts_eq_validate, Entry.accepts_eq_validate, ownType, ownDefault, type, default]
      rcases p.nested_eq_or with ⟨same, none⟩ | ⟨fields, exported⟩
      · rw [same, none]
        exact (and_iff_left not_takenForLabel_nil).symm
      · rw [fields, exported]
        exact validate_alike ih

/-- **A value is valid for some parameters exactly if it is valid for their exported forms and
is not taken for a label on the way.** -/
theorem validate_exported (type : Option Tag) (v : Value) (allowNull : Bool)
    (ps : List Parameter) :
    validate type v allowNull (Entry.ofParameters ps) = true ↔
      validate type v allowNull (Entry.ofValues (parameterValues ps)) = true ∧
        ¬ TakenForLabel type ps v := by
  rw [Entry.ofParameters_eq, Parameter.ofValues_parameterValues]
  exact validate_alike fun p _ => acceptsAlike p

/-! ### Sanitizing -/

/-- The entry of a parameter and that of its exported form check the same. -/
def ChecksAlike (p : Parameter) : Prop :=
  ∀ v, (Entry.ofParameter p).check v = p.toEntry.check v

theorem checkFields_alike (h : ∀ p ∈ ps, ChecksAlike p) :
    Entry.checkFields (ps.map Entry.ofParameter) v =
      Entry.checkFields (ps.map Parameter.toEntry) v := by
  induction ps with
  | nil => rfl
  | cons p ps ih =>
      obtain ⟨first, others⟩ := List.forall_mem_cons.mp h
      have first : (Entry.ofParameter p).check = p.toEntry.check := funext first
      have name : p.toEntry.name = .text p.name := p.toEntry_parts.2.1
      cases v with
      | map kind fields =>
          simp only [List.map_cons, Entry.checkFields, Entry.ofParameter_name, name, first,
            ih others]
      | _ => rfl

theorem checkElement_alike (h : ∀ p ∈ ps, ChecksAlike p) :
    Entry.checkElement (ps.map Entry.ofParameter) v =
      Entry.checkElement (ps.map Parameter.toEntry) v := by
  cases ps with
  | nil => rfl
  | cons p ps =>
      have first : (Entry.ofParameter p).check = p.toEntry.check := funext (h p List.mem_cons_self)
      cases v with
      | seq kind items =>
          simp only [List.map_cons, Entry.checkElement, List.isEmpty_map, first]
      | _ => rfl

theorem check_alike (h : ∀ p ∈ ps, ChecksAlike p) :
    Position.check ⟨type, ps.map Entry.ofParameter, v⟩ =
      Position.check ⟨type, ps.map Parameter.toEntry, v⟩ := by
  cases type with
  | none => rfl
  | some tag =>
      cases tag with
      | object => exact checkFields_alike h
      | array => exact checkElement_alike h
      | _ => rfl

theorem checksAlike (p : Parameter) : ChecksAlike p := by
  induction p using Parameter.fields_induction with
  | step p ih =>
      intro v
      obtain ⟨type, -, -, -, schema, -⟩ := p.toEntry_parts
      obtain ⟨ownType, -, -, ownSchema⟩ := p.ofParameter_parts
      rw [Position.check_entry, Position.check_entry, ownType, ownSchema, type, schema]
      exact check_alike ih

/-- **Sanitizing cannot tell parameters from their exported forms.** -/
theorem sanitize_exported (type : Option Tag) (v : Value) (ps : List Parameter) :
    sanitize type v (Entry.ofParameters ps) =
      sanitize type v (Entry.ofValues (parameterValues ps)) := by
  rw [Entry.ofParameters_eq, Parameter.ofValues_parameterValues, sanitize_eq_check,
    sanitize_eq_check, check_alike fun p _ => checksAlike p]

/-! ### The engine -/

/-- **Parameters and their exported forms are interchangeable as a schema**: what a value is
checked against may be given as either, and sanitizing ends alike with the same violation.
Validation differs only where an enumeration is given parameters for members: an exported form
is then a label, which the parameter is not. -/
theorem exported_interchangeable (type : Option Tag) (v : Value) (allowNull : Bool)
    (ps : List Parameter) :
    (validate type v allowNull (Entry.ofParameters ps) = true ↔
      validate type v allowNull (Entry.ofValues (parameterValues ps)) = true ∧
        ¬ TakenForLabel type ps v) ∧
    sanitize type v (Entry.ofParameters ps) =
      sanitize type v (Entry.ofValues (parameterValues ps)) :=
  ⟨validate_exported type v allowNull ps, sanitize_exported type v ps⟩

/-- An enumeration with a parameter for its member. -/
def formAsMember : Parameter :=
  { name := "e", type := "enum", schema? := some [{ name := "a", type := "string" }] }

/-- The exported form of a parameter is a label only where the schema is exported too. -/
theorem exported_form_is_label :
    validate (some .object) (.record [("e", Parameter.toValue { name := "a", type := "string" })])
        false (Entry.ofParameters [formAsMember]) = false ∧
      validate (some .object) (.record [("e", Parameter.toValue { name := "a", type := "string" })])
        false (Entry.ofValues (parameterValues [formAsMember])) = true := by
  decide

end Docsig
