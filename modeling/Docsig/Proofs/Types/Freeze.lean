import Docsig.Proofs.Types.Validate
import Docsig.Proofs.Value.Freeze

/-!
Freezing a value changes nothing for a validator.

Only a label can tell a frozen value from an open one, since lists differ from tuples.
`Entry.TextEnums` are the schemas whose enumerations have texts for labels at every depth, and
`TextEnums.validate_freeze` is the invariance for them. The entries of parameters have no other
labels (`Entry.TextLabels`), so that their schemas are of this kind.
-/

namespace Docsig

variable {v : Value} {type : Option Tag} {allowNull : Bool} {nested : List Entry}

namespace Entry

/-- An entry whose label is a text, if it has one, and so for all that is nested in it. -/
inductive TextLabels : Entry → Prop
  | mk {e : Entry} : (∀ label, e.label = some label → ∃ s, label = .text s) →
      (∀ n ∈ e.nested, TextLabels n) → TextLabels e

theorem TextLabels.label {e : Entry} (h : e.TextLabels) :
    ∀ label, e.label = some label → ∃ s, label = .text s := by
  cases h
  assumption

theorem TextLabels.ofLabel (s : String) : (ofLabel (.text s)).TextLabels :=
  .mk (fun label h => ⟨s, (Option.some.inj h).symm⟩) (by simp [nested, Entry.ofLabel])

theorem mem_ofNested {schema? : Option (List Parameter)}
    {members? : Option (List (String × Value))} {n : Entry} (h : n ∈ ofNested schema? members?) :
    (∃ ps, schema? = some ps ∧ ∃ q ∈ ps, n = ofParameter q) ∨ ∃ s, n = ofLabel (.text s) := by
  simp only [Entry.ofNested] at h
  split at h
  · obtain ⟨member, -, rfl⟩ := List.mem_map.mp h
    exact .inr ⟨member.1, rfl⟩
  · cases schema? with
    | none => cases h
    | some ps =>
        rw [ofSchema, ofParameters_eq] at h
        obtain ⟨q, hq, rfl⟩ := List.mem_map.mp h
        exact .inl ⟨ps, rfl, q, hq, rfl⟩

/-- A schema whose enumerations have texts for labels, at every depth. What is nested in an
enumeration is its members; entries of other types may stand for anything as members. -/
inductive TextEnums : Option Tag → List Entry → Prop
  | labels {members : List Entry} :
      (∀ m ∈ members, ∀ label, m.label = some label → ∃ s, label = .text s) →
      TextEnums (some .enum) members
  | nested {type : Option Tag} {schema : List Entry} : type ≠ some .enum →
      (∀ e ∈ schema, TextEnums e.type e.nested) → TextEnums type schema

theorem TextEnums.of_below (labels : ∀ n ∈ nested, n.TextLabels)
    (below : ∀ n ∈ nested, TextEnums n.type n.nested) : TextEnums type nested := by
  by_cases enum : type = some .enum
  · subst enum
    exact .labels fun n hn => (labels n hn).label
  · exact .nested enum below

theorem TextLabels.textEnums {e : Entry} (h : e.TextLabels) : TextEnums e.type e.nested := by
  induction h with
  | mk _ nested ih => exact .of_below nested ih

/-- The entries of parameters have no labels but those of members. -/
theorem TextLabels.ofParameter (p : Parameter) : (ofParameter p).TextLabels := by
  induction p using Parameter.nested_induction with
  | step p ih =>
      refine .mk (fun label h => by cases p; cases h) fun n hn => ?_
      rw [nested_ofParameter] at hn
      rcases mem_ofNested hn with ⟨ps, hps, q, hq, rfl⟩ | ⟨s, rfl⟩
      · exact ih ps hps q hq
      · exact .ofLabel s

theorem TextLabels.ofNested {schema? : Option (List Parameter)}
    {members? : Option (List (String × Value))} :
    ∀ n ∈ ofNested schema? members?, n.TextLabels := by
  intro n hn
  rcases mem_ofNested hn with ⟨_, _, q, _, rfl⟩ | ⟨s, rfl⟩
  · exact .ofParameter q
  · exact .ofLabel s

/-! ### Labels, fields and items -/

/-- A text label is the label of the same values, frozen or not. -/
theorem text_label_freeze (s : String) :
    (Value.sameKind (.text s) v.freeze && Value.same (.text s) v.freeze) =
      (Value.sameKind (.text s) v && Value.same (.text s) v) := by
  cases v with
  | seq kind xs => simp [Value.freeze, Value.same, Value.sameScalar]
  | map kind es => simp [Value.freeze, Value.same, Value.sameScalar]
  | _ => rfl

theorem hasLabel_freeze (h : ∀ n ∈ nested, ∀ label, n.label = some label → ∃ s, label = .text s) :
    hasLabel nested v.freeze = hasLabel nested v := by
  induction nested with
  | nil => rfl
  | cons n nested ih =>
      obtain ⟨first, others⟩ := List.forall_mem_cons.mp h
      rw [hasLabel, hasLabel, List.any_cons, List.any_cons]
      refine congrArg₂ _ ?_ (ih others)
      cases hl : n.label with
      | none => rfl
      | some label =>
          obtain ⟨s, rfl⟩ := first label hl
          exact text_label_freeze s

/-- A missing field is null, frozen or not. -/
theorem getD_map_freeze (found? : Option Value) :
    (found?.map Value.freeze).getD .null = (found?.getD .null).freeze := by
  cases found? <;> rfl

theorem fieldsAccept_freeze (h : ∀ n ∈ nested, ∀ v : Value, n.accepts v.freeze = n.accepts v) :
    fieldsAccept nested v.freeze = fieldsAccept nested v := by
  induction nested with
  | nil => cases v <;> rfl
  | cons n nested ih =>
      obtain ⟨first, others⟩ := List.forall_mem_cons.mp h
      cases v with
      | map kind fields =>
          have below := ih others
          rw [Value.freeze] at below ⊢
          rw [fieldsAccept, fieldsAccept, below, Value.lookup?_freezeEntries, getD_map_freeze,
            first]
      | _ => rfl

theorem itemsAccept_freeze (h : ∀ n ∈ nested, ∀ v : Value, n.accepts v.freeze = n.accepts v) :
    itemsAccept nested v.freeze = itemsAccept nested v := by
  cases nested with
  | nil => cases v <;> rfl
  | cons n nested =>
      cases v with
      | seq kind items =>
          have items : (items.map Value.freeze).all n.accepts = items.all n.accepts := by
            rw [List.all_map]
            exact List.all_congr rfl (h n (by simp))
          rw [Value.freeze, itemsAccept, itemsAccept, Value.freezeAll_eq, items]
      | _ => rfl

theorem limitFieldOk_freeze (name : String) (fields : List (Value × Value)) :
    limitFieldOk name (Value.freezeEntries fields) = limitFieldOk name fields := by
  rw [limitFieldOk, limitFieldOk, Value.field?, Value.field?, Value.lookup?_freezeEntries]
  cases Value.lookup? (.text name) fields with
  | none => rfl
  | some v => cases v <;> rfl

theorem isLimit_freeze : isLimit v.freeze = isLimit v := by
  cases v with
  | map kind fields =>
      rw [Value.freeze, isLimit, isLimit, limitFieldOk_freeze, limitFieldOk_freeze]
  | _ => rfl

/-! ### Validation -/

/-- A validator takes a frozen value for the open one if what is nested does. -/
theorem validate_freeze_of_nested
    (labels : type = some .enum → ∀ n ∈ nested, ∀ label, n.label = some label →
      ∃ s, label = .text s)
    (below : type ≠ some .enum → ∀ n ∈ nested, ∀ v : Value, n.accepts v.freeze = n.accepts v) :
    validate type v.freeze allowNull nested = validate type v allowNull nested := by
  have null : v.freeze = .null ↔ v = .null := by cases v <;> simp [Value.freeze]
  suffices strict : validate type v.freeze false nested = validate type v false nested by
    rw [Bool.eq_iff_iff, validate_iff, validate_iff (v := v), null, strict]
  cases type with
  | none => cases v <;> rfl
  | some tag =>
      cases tag with
      | enum => rw [validate_enum, validate_enum, hasLabel_freeze (labels rfl)]
      | object => rw [validate_object, validate_object, fieldsAccept_freeze (below (by simp))]
      | query => rw [validate_query, validate_query, fieldsAccept_freeze (below (by simp))]
      | array => rw [validate_array, validate_array, itemsAccept_freeze (below (by simp))]
      | limit => exact isLimit_freeze
      | any | string | number | float | integer | boolean | buffer => cases v <;> rfl

/-- **Validation of a frozen value is that of the open one** where labels are texts. -/
theorem TextEnums.validate_freeze (h : TextEnums type nested) :
    ∀ (v : Value) (allowNull : Bool),
      validate type v.freeze allowNull nested = validate type v allowNull nested := by
  induction h with
  | labels labels =>
      exact fun v allowNull =>
        validate_freeze_of_nested (fun _ => labels) fun other => (other rfl).elim
  | nested other _ ih =>
      intro v allowNull
      refine validate_freeze_of_nested (fun enum => (other enum).elim) fun _ n hn v => ?_
      rw [accepts_eq_validate, accepts_eq_validate, ih n hn]

end Entry

/-- **Validation of a frozen value is that of the open one**, whatever schema or members
it is checked against. -/
theorem validate_freeze {schema? : Option (List Parameter)}
    {members? : Option (List (String × Value))} :
    validate type v.freeze allowNull (Entry.ofNested schema? members?) =
      validate type v allowNull (Entry.ofNested schema? members?) :=
  have labels : ∀ n ∈ Entry.ofNested schema? members?, n.TextLabels := Entry.TextLabels.ofNested
  (Entry.TextEnums.of_below labels fun n hn => (labels n hn).textEnums).validate_freeze v allowNull

end Docsig
