import Docsig.Proofs.Definition.Entries
import Docsig.Proofs.Value.Parts
import Docsig.Types.Validate

/-!
What a validator accepts.

* `accepts_eq_validate`: an entry counts by its type, its default and what is nested
  in it, and in no other way.
* `validate_iff` sets null aside, and then the lemma of a tag says the rest.
* `fieldsAccept_iff`, `itemsAccept_iff` say what maps and sequences are accepted.
* `ofNested_enum`, `ofNested_other`, `accepts_null` are what the shape of a parameter
  adds to that.
-/

namespace Docsig

variable {v : Value} {type : Option Tag} {allowNull : Bool} {nested : List Entry}

namespace Entry

/-! ### Maps and sequences -/

/-- A map is accepted if every entry accepts what stands under its name, with null
for what is missing. -/
theorem fieldsAccept_iff {es : List Entry} :
    fieldsAccept es v = true ↔
      ∃ kind fields, v = .map kind fields ∧
        ∀ e ∈ es, e.accepts ((Value.lookup? e.name fields).getD .null) = true := by
  induction es with
  | nil => cases v <;> simp [fieldsAccept, Value.isObject]
  | cons e es ih =>
      cases v with
      | map kind fields => simp [fieldsAccept, ih]
      | _ => simp [fieldsAccept]

/-- Without an element, every sequence is accepted. -/
theorem itemsAccept_nil : itemsAccept [] v = v.isArray := by
  rw [itemsAccept]

/-- A sequence is accepted if the element accepts all items. -/
theorem itemsAccept_iff {e : Entry} :
    itemsAccept [e] v = true ↔
      ∃ kind items, v = .seq kind items ∧ ∀ x ∈ items, e.accepts x = true := by
  cases v <;> simp [itemsAccept]

/-- An entry accepts by its type, its default and its nested entries alone. -/
theorem accepts_eq_validate (e : Entry) (v : Value) :
    e.accepts v = validate e.type v e.hasDefault e.nested := by
  obtain ⟨type, name, hasDefault, schema, members, label⟩ := e
  cases schema with
  | nil =>
      cases members with
      | nil => simp [validate, accepts, nested]
      | cons m ms => simp [validate, accepts, nested]
  | cons s ss => simp [validate, accepts, nested]

/-- The nested entries of a parameter are those of its schema and its members. -/
theorem nested_ofParameter (p : Parameter) :
    (ofParameter p).nested = ofNested p.schema? p.members? := by
  cases p
  rfl

/-- The entry of a parameter accepts what is valid for its parts. -/
theorem ofParameter_accepts (p : Parameter) (v : Value) :
    (ofParameter p).accepts v =
      validate (Tag.ofName? p.type) v p.hasDefault (ofNested p.schema? p.members?) := by
  rw [accepts_eq_validate, nested_ofParameter]
  cases p
  rfl

theorem ofParameters_eq (ps : List Parameter) : ofParameters ps = ps.map ofParameter := by
  induction ps with
  | nil => rfl
  | cons p ps ih => rw [ofParameters, ih, List.map_cons]

theorem ofParameter_name (p : Parameter) : (ofParameter p).name = .text p.name := by
  cases p
  rfl

end Entry

open Entry

/-! ### One type -/

/-- Null is valid where it is allowed; nothing else changes by that. -/
theorem validate_iff :
    validate type v allowNull nested = true ↔
      allowNull = true ∧ v = .null ∨ validate type v false nested = true := by
  have null : v.isNull = true ↔ v = .null := by cases v <;> simp [Value.isNull]
  rw [← null]
  simp only [validate, accepts]
  cases allowNull <;> cases v.isNull <;> simp

theorem validate_any : validate (some .any) v false nested = true := rfl

theorem validate_string : validate (some .string) v false nested = v.isText := rfl

theorem validate_number : validate (some .number) v false nested = v.isNumber := rfl

theorem validate_float : validate (some .float) v false nested = v.isNumber := rfl

theorem validate_integer : validate (some .integer) v false nested = v.isInteger := rfl

theorem validate_boolean : validate (some .boolean) v false nested = v.isBoolean := rfl

theorem validate_enum : validate (some .enum) v false nested = hasLabel nested v := by
  cases nested <;> rfl

theorem validate_object : validate (some .object) v false nested = fieldsAccept nested v := by
  cases nested <;> rfl

theorem validate_query : validate (some .query) v false nested = fieldsAccept nested v := by
  cases nested <;> rfl

/-- A value belongs to its class unless it is a number that is not finite. -/
theorem validate_classify :
    validate (some v.classify) v allowNull [] = true ↔ ¬ v.IsNonFinite := by
  cases v with
  | float d =>
      cases finite : d.isFinite <;>
        simp [Value.classify, finite, validate, accepts, Value.isNumber, Value.isNull, fieldsAccept,
          Value.isObject, Value.IsNonFinite]
  | _ =>
      cases allowNull <;>
        simp [Value.classify, validate, accepts, Value.IsNonFinite, Value.isText, Value.isBoolean,
          Value.isNumber, Value.isBuffer, fieldsAccept, itemsAccept, Value.isObject, Value.isArray]

theorem validate_array : validate (some .array) v false nested = itemsAccept nested v := by
  cases nested <;> rfl

namespace Entry

variable {p : Parameter}

/-! ### Parameters -/

/-- An enumeration has only members nested in it. -/
theorem ofNested_enum (shape : p.Shaped) (typed : p.type = Tag.enum.name) :
    ofNested p.schema? p.members? =
      (p.members?.getD []).map fun member => ofLabel (.text member.1) := by
  rw [shape.schema?_eq_none typed rfl]
  rfl

/-- Where there is no enumeration, only the schema is nested. -/
theorem ofNested_other (shape : p.Shaped) (other : p.type ≠ Tag.enum.name) :
    ofNested p.schema? p.members? = (p.schema?.getD []).map ofParameter := by
  rw [ofNested, shape.members?_eq_none other]
  cases p.schema? with
  | none => rfl
  | some ps =>
      rw [ofSchema, ofParameters_eq]
      cases ps <;> rfl

/-- An enumeration accepts its labels. -/
theorem hasLabel_iff {members : List (String × Value)} :
    hasLabel (members.map fun member => ofLabel (.text member.1)) v = true ↔
      ∃ label ∈ members.map Prod.fst, v = .text label := by
  have label (s : String) :
      (Value.sameKind (.text s) v && Value.same (.text s) v) = true ↔ v = .text s := by
    rw [Bool.and_eq_true_iff, Value.text_same_iff]
    refine ⟨fun h => h.2, ?_⟩
    rintro rfl
    exact ⟨beq_self_eq_true _, rfl⟩
  simp only [hasLabel, List.any_map, List.any_eq_true, List.mem_map]
  constructor
  · rintro ⟨member, hmem, h⟩
    exact ⟨member.1, ⟨member, hmem, rfl⟩, (label member.1).mp h⟩
  · rintro ⟨_, ⟨member, hmem, rfl⟩, h⟩
    exact ⟨member, hmem, (label member.1).mpr h⟩

theorem accepts_null_of_default (h : p.hasDefault = true) :
    (ofParameter p).accepts .null = true := by
  rw [ofParameter_accepts]
  exact validate_iff.mpr (.inl ⟨h, rfl⟩)

/-- A parameter without a default accepts null only if it accepts anything. -/
theorem accepts_null (shape : p.Shaped) (h : (ofParameter p).accepts .null = true) :
    p.hasDefault = true ∨ p.type = Tag.any.name := by
  obtain ⟨tag, typed⟩ := Tag.exists_of_isName shape.registered
  rw [ofParameter_accepts, typed, Tag.ofName?_name] at h
  rcases validate_iff.mp h with ⟨default, -⟩ | h
  · exact .inl default
  · refine .inr ?_
    -- apart from any, no type holds for null
    cases tag with
    | any => exact typed
    | enum =>
        rw [validate_enum, ofNested_enum shape typed] at h
        obtain ⟨_, -, h⟩ := hasLabel_iff.mp h
        cases h
    | object =>
        rw [validate_object] at h
        obtain ⟨_, _, h, -⟩ := fieldsAccept_iff.mp h
        cases h
    | query =>
        rw [validate_query] at h
        obtain ⟨_, _, h, -⟩ := fieldsAccept_iff.mp h
        cases h
    | array =>
        rw [validate_array] at h
        cases hn : ofNested p.schema? p.members? with
        | nil => rw [hn, itemsAccept_nil] at h; cases h
        | cons e es => rw [hn] at h; cases h
    | _ => cases h

end Entry

end Docsig
