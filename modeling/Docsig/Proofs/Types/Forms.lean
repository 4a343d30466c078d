import Docsig.Proofs.Types.Freeze
import Docsig.Proofs.Types.Introspect
import Docsig.Proofs.Types.Totality
import Docsig.Types.Sanitize

/-!
The type engine does not see the form of a value.

A definition keeps values frozen and gives them out open, while literals are read open. All
functions of the engine treat lists and tuples alike, and open and frozen maps, so each of
them finds in one form what it finds in the other.

* `check_freeze`: a check of a frozen value ends as that of the open one, and a violation
  names what it found in its frozen form.
* `merge_freeze`: frozen samples have the schema of the open ones.
* `forms_alike`: classes, validation, sanitizing and inferred schemas of the forms of a value.
-/

namespace Docsig

namespace Value

variable {v : Value}

/-! ### Classes -/

theorem isNull_freeze (v : Value) : v.freeze.isNull = v.isNull := by
  cases v <;> rfl

theorem classify_freeze (v : Value) : v.freeze.classify = v.classify := by
  cases v <;> rfl

theorem isCount_freeze (v : Value) : v.freeze.isCount = v.isCount := by
  cases v <;> rfl

/-- Only null, sequences and maps have other classes than leaves, and what is no finite
number. -/
theorem isLeaf_classify (any : v.classify ≠ .any) (object : v.classify ≠ .object)
    (array : v.classify ≠ .array) : v.classify.isLeaf = true := by
  cases v with
  | null => exact absurd rfl any
  | float d =>
      rw [classify] at object ⊢
      split
      · rfl
      · rename_i infinite
        exact absurd (if_neg infinite) object
  | seq kind xs => exact absurd rfl array
  | map kind es => exact absurd rfl object
  | _ => rfl

/-- A leaf has one form. -/
theorem freeze_of_isLeaf (h : v.classify.isLeaf = true) : v.freeze = v := by
  cases v with
  | seq kind xs => cases h
  | map kind es => cases h
  | _ => rfl

theorem keys_freezeEntries (es : List (Value × Value)) :
    (freezeEntries es).map Prod.fst = es.map Prod.fst := by
  rw [freezeEntries_eq, List.map_map]
  rfl

mutual

theorem depth_freeze : (v : Value) → v.freeze.depth = v.depth
  | .seq _ xs => by rw [freeze, depth, depth, depthOfAll_freezeAll xs]
  | .map _ es => by rw [freeze, depth, depth, depthOfEntries_freezeEntries es]
  | .null | .bool _ | .int _ | .float _ | .text _ | .bytes _ _ => rfl

theorem depthOfAll_freezeAll : (xs : List Value) → depthOfAll (freezeAll xs) = depthOfAll xs
  | [] => rfl
  | x :: xs => by rw [freezeAll, depthOfAll, depthOfAll, depth_freeze x, depthOfAll_freezeAll xs]

theorem depthOfEntries_freezeEntries :
    (es : List (Value × Value)) → depthOfEntries (freezeEntries es) = depthOfEntries es
  | [] => rfl
  | (_, x) :: es => by
      rw [freezeEntries, depthOfEntries, depthOfEntries, depth_freeze x,
        depthOfEntries_freezeEntries es]

end

/-- What freezing does not change, thawing does not change either. -/
theorem thaw_alike {α : Type} {f : Value → α} (h : ∀ v, f v.freeze = f v) (v : Value) :
    f v.thaw = f v := by
  rw [← h v.thaw, freeze_thaw, h]

end Value

/-! ### Sanitizing -/

/-- A violation that names what it found in its frozen form. -/
def Violation.freeze : Violation → Violation
  | notObject tag found => notObject tag found.freeze
  | unknownFields names => unknownFields names
  | badField name found => badField name found.freeze

section Checks

variable {v : Value} {fields : List (Value × Value)}

theorem checkLimitField_freeze (name : String) :
    checkLimitField name (Value.freezeEntries fields) =
      (checkLimitField name fields).mapError Violation.freeze := by
  rw [checkLimitField, checkLimitField, Value.field?, Value.field?, Value.lookup?_freezeEntries]
  cases Value.lookup? (.text name) fields with
  | none => rfl
  | some x =>
      simp only [Option.map_some, Value.isCount_freeze]
      split <;> rfl

theorem checkLimit_freeze (v : Value) :
    checkLimit v.freeze = (checkLimit v).mapError Violation.freeze := by
  cases v with
  | map kind fields =>
      simp only [Value.freeze, checkLimit, Value.keys_freezeEntries, checkLimitField_freeze]
      split
      · cases checkLimitField "count" fields <;> rfl
      · rfl
  | _ => rfl

theorem checkQuery_freeze (v : Value) :
    checkQuery v.freeze = (checkQuery v).mapError Violation.freeze := by
  cases v <;> rfl

theorem checkItems_freeze {check : Value → Except Violation Unit}
    (h : ∀ v : Value, check v.freeze = (check v).mapError Violation.freeze) (xs : List Value) :
    checkItems check (Value.freezeAll xs) = (checkItems check xs).mapError Violation.freeze := by
  induction xs with
  | nil => rfl
  | cons x xs ih =>
      rw [Value.freezeAll, checkItems, checkItems, Value.isNull_freeze, h, ih]
      cases x.isNull with
      | true => rfl
      | false => cases check x <;> rfl

namespace Entry

mutual

theorem check_freeze : (e : Entry) → (v : Value) →
    e.check v.freeze = (e.check v).mapError Violation.freeze
  | ⟨type, _, _, schema, _, _⟩, v => by
      cases type with
      | none => rfl
      | some tag =>
          cases tag with
          | limit => exact checkLimit_freeze v
          | query => exact checkQuery_freeze v
          | object => exact checkFields_freeze schema v
          | array => exact checkElement_freeze schema v
          | _ => rfl

/-- A violation in a frozen map is that in the map, with what it shows frozen. -/
theorem checkFields_freeze : (es : List Entry) → (v : Value) →
    checkFields es v.freeze = (checkFields es v).mapError Violation.freeze
  | [], _ => rfl
  | e :: es, v => by
      cases v with
      | map kind fields =>
          have rest := checkFields_freeze es (.map kind fields)
          rw [Value.freeze] at rest ⊢
          rw [checkFields, checkFields, Value.lookup?_freezeEntries, rest]
          cases Value.lookup? e.name fields with
          | none => rfl
          | some x =>
              simp only [Option.map_some, Value.isNull_freeze, check_freeze e x]
              cases x.isNull with
              | true => rfl
              | false => cases e.check x <;> rfl
      | _ => rfl

theorem checkElement_freeze : (es : List Entry) → (v : Value) →
    checkElement es v.freeze = (checkElement es v).mapError Violation.freeze
  | [], _ => rfl
  | e :: es, v => by
      cases v with
      | seq kind items =>
          rw [Value.freeze, checkElement, checkElement]
          split
          · exact checkItems_freeze (check_freeze e) items
          · rfl
      | _ => rfl

end

end Entry

/-- **A frozen value is returned exactly if the open one is**, and otherwise it breaks the
same rule in the same place. -/
theorem sanitize_freeze (type : Option Tag) (v : Value) (schema : List Entry) :
    sanitize type v.freeze schema =
      ((sanitize type v schema).map Value.freeze).mapError Violation.freeze := by
  rw [sanitize, sanitize, Entry.check_freeze]
  cases Entry.check ⟨type, .null, false, schema, [], none⟩ v <;> rfl

theorem sanitize_freeze_isOk (type : Option Tag) (v : Value) (schema : List Entry) :
    (sanitize type v.freeze schema).isOk = (sanitize type v schema).isOk := by
  rw [sanitize_freeze]
  cases sanitize type v schema <;> rfl

end Checks

/-! ### Inferred schemas -/

namespace Fragment

open Value (classify_freeze isNull_freeze)

variable {below : List Value → Except Fault Fragment} {vs maps values : List Value} {key : Value}

theorem commonClass?_freeze (vs : List Value) :
    commonClass? (vs.map Value.freeze) = commonClass? vs := by
  cases vs with
  | nil => rfl
  | cons v vs =>
      simp only [List.map_cons, commonClass?, List.all_map, Function.comp_def, classify_freeze]

theorem firstLeaf?_freeze (vs : List Value) : firstLeaf? (vs.map Value.freeze) = firstLeaf? vs := by
  have present : (fun v : Value => !v.isNull) ∘ Value.freeze = fun v => !v.isNull :=
    funext fun v => by rw [Function.comp, isNull_freeze]
  rw [firstLeaf?, firstLeaf?, List.find?_map, present]
  cases vs.find? fun v => !v.isNull with
  | none => rfl
  | some v =>
      rw [Option.map_some, Option.filter_some, Option.filter_some, classify_freeze]
      split
      · rename_i leaf
        rw [Value.freeze_of_isLeaf leaf]
      · rfl

/-- Only maps and numbers have the class of objects, and numbers have one form. -/
theorem entriesOf_freeze {v : Value} (h : v.classify = .object) :
    entriesOf v.freeze = (entriesOf v).map Value.freezeEntries := by
  cases v with
  | seq kind xs => cases h
  | _ => rfl

theorem hasKey_freezeEntries (es : List (Value × Value)) :
    Value.hasKey key (Value.freezeEntries es) = Value.hasKey key es := by
  rw [Value.hasKey, Value.lookup?_freezeEntries, Option.isSome_map]
  rfl

theorem allHaveKey_freeze (objects : ∀ v ∈ vs, v.classify = .object) :
    allHaveKey key (vs.map Value.freeze) = allHaveKey key vs := by
  induction vs with
  | nil => rfl
  | cons v vs ih =>
      obtain ⟨first, others⟩ := List.forall_mem_cons.mp objects
      rw [List.map_cons, allHaveKey, allHaveKey, entriesOf_freeze first, ih others]
      cases entriesOf v with
      | error fault => rfl
      | ok es => simp only [Except.map, ok_bind, hasKey_freezeEntries]

theorem sharedEntries_freeze {others : List Value} (objects : ∀ v ∈ others, v.classify = .object)
    (es : List (Value × Value)) : sharedEntries (others.map Value.freeze) (Value.freezeEntries es) =
      (sharedEntries others es).map Value.freezeEntries := by
  induction es with
  | nil => rfl
  | cons e es ih =>
      obtain ⟨key, x⟩ := e
      rw [Value.freezeEntries, sharedEntries, sharedEntries, allHaveKey_freeze objects, ih]
      cases allHaveKey key others with
      | error fault => rfl
      | ok shared =>
          cases sharedEntries others es with
          | error fault => rfl
          | ok rest => cases shared <;> rfl

theorem valuesUnder_freeze (key : Value) (vs : List Value) :
    valuesUnder key (vs.map Value.freeze) = (valuesUnder key vs).map Value.freeze := by
  rw [valuesUnder, valuesUnder, List.filterMap_map, List.map_filterMap]
  refine List.filterMap_congr fun v _ => ?_
  cases v with
  | map kind es => exact Value.lookup?_freezeEntries
  | _ => rfl

/-- Frozen maps share the keys that the open ones share, with the frozen values. -/
theorem columns_freeze (objects : ∀ v ∈ maps, v.classify = .object) :
    columns (maps.map Value.freeze) =
      (columns maps).map fun cols => cols.map fun c => (c.1, c.2.map Value.freeze) := by
  cases maps with
  | nil => rfl
  | cons first rest =>
      obtain ⟨object, others⟩ := List.forall_mem_cons.mp objects
      rw [List.map_cons, columns, columns, entriesOf_freeze object]
      cases entriesOf first with
      | error fault => rfl
      | ok es =>
          simp only [Except.map, ok_bind, sharedEntries_freeze others]
          cases sharedEntries rest es with
          | error fault => rfl
          | ok shared =>
              simp only [ok_bind, pure_eq_ok, Value.freezeEntries_eq, List.map_map,
                Function.comp_def, valuesUnder_freeze, List.map_cons]

theorem allItems_freeze (vs : List Value) :
    allItems (vs.map Value.freeze) = (allItems vs).map Value.freeze := by
  rw [allItems, allItems, List.flatMap_map, List.map_flatMap]
  refine List.flatMap_congr fun v _ => ?_
  cases v with
  | seq kind items => exact Value.freezeAll_eq items
  | _ => rfl

/-! ### Merging -/

/-- A merge gives frozen samples the schema of the open ones. -/
def BlindToForm (below : List Value → Except Fault Fragment) : Prop :=
  ∀ vs, below (vs.map Value.freeze) = below vs

/-- A field is the same for frozen samples, if what is merged below it is. -/
theorem ofField_freeze (blind : BlindToForm below) (key : Value) (values : List Value) :
    ofField below key (values.map Value.freeze) = ofField below key values := by
  have nulls : (values.map Value.freeze).any Value.isNull = values.any Value.isNull := by
    simp only [List.any_map, Function.comp_def, isNull_freeze]
  rw [ofField, ofField, commonClass?_freeze, blind]
  split
  · rw [mixedField, mixedField, nulls, firstLeaf?_freeze]
  · rfl
  · rfl
  · rfl
  · rename_i tag notAny notObject notArray common
    -- the sample of a leaf is the first value, which freezing leaves alone
    obtain ⟨ne, same⟩ := commonClass?_eq_some.mp common
    obtain ⟨first, rest, rfl⟩ := List.exists_cons_of_ne_nil ne
    obtain rfl : first.classify = tag := same first List.mem_cons_self
    have leaf := Value.isLeaf_classify notAny notObject notArray
    rw [List.map_cons, Value.freeze_of_isLeaf leaf]
    rfl

theorem ofMaps_freeze (blind : BlindToForm below) (objects : ∀ v ∈ maps, v.classify = .object) :
    ofMaps below (maps.map Value.freeze) = ofMaps below maps := by
  rw [ofMaps, ofMaps, columns_freeze objects]
  cases columns maps with
  | error fault => rfl
  | ok cols =>
      simp only [Except.map, ok_bind, List.mapM_map, Function.comp_def, ofField_freeze blind]

theorem ofPresent_freeze (blind : BlindToForm below) (nullable : Bool) (present : List Value) :
    ofPresent below nullable (present.map Value.freeze) = ofPresent below nullable present := by
  rw [ofPresent, ofPresent, commonClass?_freeze]
  split
  · rfl
  · rename_i common
    rw [ofMaps_freeze blind (commonClass?_eq_some.mp common).2]
  · rw [allItems_freeze, blind]
  · rfl

/-- **Frozen samples are merged as the open ones.** -/
theorem merge_freeze (depth : Nat) : BlindToForm (merge depth) := by
  induction depth with
  | zero => exact fun _ => rfl
  | succ depth ih =>
      intro vs
      have present : (vs.map Value.freeze).filter (fun v => !v.isNull) =
          (vs.filter fun v => !v.isNull).map Value.freeze := by
        rw [List.filter_map]
        simp only [Function.comp_def, isNull_freeze]
      rw [merge, merge, present, List.isEmpty_map, List.length_map, List.length_map,
        ofPresent_freeze ih]

mutual

theorem ofValue_freeze : (v : Value) → ofValue v.freeze = ofValue v
  | .seq _ xs => by
      rw [Value.freeze, ofValue, ofValue, ofElements, ofElements, Value.depthOfAll_freezeAll,
        Value.freezeAll_eq, merge_freeze]
  | .map _ es => by rw [Value.freeze, ofValue, ofValue, ofEntries_freeze es]
  | .null | .bool _ | .int _ | .float _ | .text _ | .bytes _ _ => rfl

theorem ofEntries_freeze :
    (es : List (Value × Value)) → ofEntries (Value.freezeEntries es) = ofEntries es
  | [] => rfl
  | (_, v) :: es => by
      have sample : (if v.freeze.classify.isLeaf then some v.freeze else none) =
          if v.classify.isLeaf then some v else none := by
        rw [classify_freeze]
        split
        · rename_i leaf
          rw [Value.freeze_of_isLeaf leaf]
        · rfl
      rw [Value.freezeEntries, ofEntries, ofEntries, ofValue_freeze v, ofEntries_freeze es]
      simp only [sample]

end

end Fragment

/-! ### The engine -/

/-- **The type engine does not see whether a value is frozen or open.** -/
theorem forms_alike {v w : Value} {type : Option Tag} {allowNull : Bool} {nested : List Entry}
    (form : w = v.freeze ∨ w = v.thaw) (labels : Entry.TextEnums type nested) :
    w.classify = v.classify ∧
      validate type w allowNull nested = validate type v allowNull nested ∧
      (sanitize type w nested).isOk = (sanitize type v nested).isOk ∧
      Fragment.ofValue w = Fragment.ofValue v ∧
      (v.HasFiniteNumbers → ∃ f, Fragment.ofValue w = .ok f) := by
  have validated (v : Value) := labels.validate_freeze v allowNull
  have sanitized (v : Value) := sanitize_freeze_isOk type v nested
  have schema (same : Fragment.ofValue w = Fragment.ofValue v) (finite : v.HasFiniteNumbers) :
      ∃ f, Fragment.ofValue w = .ok f := same ▸ Fragment.exists_ofValue finite
  rcases form with rfl | rfl
  · have inferred := Fragment.ofValue_freeze v
    exact ⟨v.classify_freeze, validated v, sanitized v, inferred, schema inferred⟩
  · have inferred := Value.thaw_alike Fragment.ofValue_freeze v
    exact ⟨Value.thaw_alike Value.classify_freeze v, Value.thaw_alike validated v,
      Value.thaw_alike (f := fun v => (sanitize type v nested).isOk) sanitized v, inferred,
      schema inferred⟩

/-- Fields with enumerations at two depths, one of them with a frozen pair for a member. -/
def modeEntries : List Entry :=
  Entry.ofValues
    [.record [("name", .text "mode"), ("type", .text "enum"),
        ("members", .list [.tuple [.text "fast", .int 1], .text "slow"])],
      .record [("name", .text "past"), ("type", .text "array"),
        ("schema", .list [.record [("type", .text "enum"), ("members", .list [.text "fast"])]])]]

/-- A record of these fields that is open at some depths and frozen at others. -/
def modeRecord : Value :=
  .record [("mode", .text "slow"), ("past", .tuple [.text "fast", .list [.text "fast"]]),
    ("rate", .map .frozen [(.text "value", .float (.finite false 1 (-1)))])]

theorem forms_alike_modes :
    Entry.TextEnums (some .object) modeEntries ∧ modeRecord.HasFiniteNumbers ∧
      modeRecord.thaw.classify = modeRecord.classify ∧
      validate (some .object) modeRecord.thaw false modeEntries =
        validate (some .object) modeRecord false modeEntries ∧
      (sanitize (some .object) modeRecord.thaw modeEntries).isOk =
        (sanitize (some .object) modeRecord modeEntries).isOk ∧
      Fragment.ofValue modeRecord.thaw = Fragment.ofValue modeRecord ∧
      (modeRecord.HasFiniteNumbers → ∃ f, Fragment.ofValue modeRecord.thaw = .ok f) := by
  have fast : ∀ label, some (Value.text "fast") = some label → ∃ s, label = .text s :=
    fun _ h => ⟨"fast", (Option.some.inj h).symm⟩
  have slow : ∀ label, some (Value.text "slow") = some label → ∃ s, label = .text s :=
    fun _ h => ⟨"slow", (Option.some.inj h).symm⟩
  have labels : Entry.TextEnums (some .object) modeEntries := by
    refine .nested nofun (List.forall_mem_cons.mpr ⟨?_, List.forall_mem_singleton.mpr ?_⟩)
    · exact .labels (List.forall_mem_cons.mpr ⟨fast, List.forall_mem_singleton.mpr slow⟩)
    · exact .nested nofun (List.forall_mem_singleton.mpr
        (.labels (List.forall_mem_singleton.mpr fast)))
  have finite : modeRecord.HasFiniteNumbers := by
    intro d hd
    simp [modeRecord, Value.record, Value.parts, Value.partsOfItems, Value.partsOfEntries] at hd
    rw [hd]
    rfl
  exact ⟨labels, finite, forms_alike (.inr rfl) labels⟩

end Docsig
