import Docsig.Proofs.Definition.Entries
import Docsig.Proofs.Result
import Docsig.Proofs.Types.Validate
import Docsig.Proofs.Value.Parts
import Docsig.Types.Introspect

/-!
Fragments as schemas.

A fragment is exported as a map with text keys, and as such it is the schema that a
validator reads (`toEntry_accepts`). `Fragment.Admits` says that the fragment accepts a
value; it depends on the type, on null and on the nested fragments (`admits_congr`).

The second half says what the merge of fragments asks about its samples: how deep
they are, whether they share a class, and which keys they share.
-/

namespace Docsig

/-! ### Export -/

mutual

/-- The exported form of a fragment; null as the default stands for null seen. -/
def Fragment.toValue : Fragment → Value
  | ⟨type, name?, schema?, nullable, sample?⟩ =>
      .record (optionalField "name" name? ++ [("type", .text type.name)] ++
        optionalField "schema" (fragmentsValue? schema?) ++
        optionalField "defaultValue" (if nullable then some .null else none) ++
        optionalField "sampleValue" sample?)

def fragmentsValue? : Option (List Fragment) → Option Value
  | some fs => some (.list (fragmentValues fs))
  | none => none

def fragmentValues : List Fragment → List Value
  | [] => []
  | f :: fs => f.toValue :: fragmentValues fs

end

theorem fragmentValues_eq (fs : List Fragment) : fragmentValues fs = fs.map Fragment.toValue := by
  induction fs with
  | nil => rfl
  | cons f fs ih => rw [fragmentValues, ih, List.map_cons]

namespace Entry

theorem ofValues_eq (vs : List Value) : ofValues vs = vs.map ofValue := by
  induction vs with
  | nil => rfl
  | cons v vs ih => rw [ofValues, ih, List.map_cons]

/-- The entries in a field are those of the sequence under its name. -/
theorem ofField_eq (name : String) (fields : List (Value × Value)) :
    ofField name fields = ofValues (((Value.field? name fields).bind Value.items?).getD []) := by
  induction fields with
  | nil => rfl
  | cons field fields ih =>
      obtain ⟨key, x⟩ := field
      rw [Value.field?] at ih
      cases x <;> by_cases h : Value.same key (.text name) = true <;>
        simp [ofField, Value.field?, Value.lookup?, Value.items?, h, ih, ofValues]

end Entry

namespace Fragment

variable {f g : Fragment} {v : Value}

/-- The fragment as the entry that its exported form describes. -/
def toEntry (f : Fragment) : Entry := Entry.ofValue f.toValue

def nested (f : Fragment) : List Entry := Entry.ofValues ((f.schema?.getD []).map toValue)

theorem nested_eq (f : Fragment) : f.nested = (f.schema?.getD []).map toEntry := by
  rw [nested, Entry.ofValues_eq, List.map_map]
  rfl

/-- The exported form of a fragment reads back as its parts. -/
theorem toEntry_parts (f : Fragment) :
    f.toEntry.type = some f.type ∧ f.toEntry.name = f.name?.getD .null ∧
      f.toEntry.hasDefault = f.nullable ∧ f.toEntry.nested = f.nested := by
  obtain ⟨type, name?, schema?, nullable, sample?⟩ := f
  cases name? <;> cases schema? <;> cases nullable <;> cases sample? <;>
    simp [toEntry, toValue, Value.record, optionalField, fragmentsValue?, Entry.ofValue,
      Entry.ofField_eq, Entry.nested, Entry.tagOf?, Value.field?, Value.lookup?, Value.same,
      Value.sameScalar, Value.text?, Value.items?, Tag.ofName?_name, nested, fragmentValues_eq,
      Entry.ofValues]

/-! ### Admission -/

/-- A fragment accepts a value, as the schema that it is exported as. -/
def Admits (f : Fragment) (v : Value) : Prop :=
  validate (some f.type) v f.nullable f.nested = true

theorem toEntry_accepts : f.toEntry.accepts v = true ↔ f.Admits v := by
  obtain ⟨type, -, default, nested⟩ := f.toEntry_parts
  rw [Entry.accepts_eq_validate, type, default, nested, Admits]

/-- Neither the name nor the sample of a fragment counts. -/
theorem admits_congr (type : f.type = g.type) (nullable : f.nullable = g.nullable)
    (schema : f.schema? = g.schema?) : f.Admits v ↔ g.Admits v := by
  rw [Admits, Admits, nested, nested, type, nullable, schema]

theorem admits_any (h : f.type = .any) : f.Admits v := by
  rw [Admits, h, validate_iff]
  exact .inr validate_any

theorem admits_null (h : f.nullable = true) : f.Admits .null :=
  validate_iff.mpr (.inl ⟨h, rfl⟩)

/-- An object admits the maps whose fields its fragments admit. -/
theorem admits_object {fs : List Fragment} {kind : MapKind} {es : List (Value × Value)}
    (type : f.type = .object) (schema : f.schema? = some fs)
    (h : ∀ g ∈ fs, g.Admits ((Value.lookup? (g.name?.getD .null) es).getD .null)) :
    f.Admits (.map kind es) := by
  rw [Admits, validate_iff, type, validate_object, nested_eq, schema]
  refine .inr (Entry.fieldsAccept_iff.mpr ⟨kind, es, rfl, List.forall_mem_map.mpr fun g hg => ?_⟩)
  rw [g.toEntry_parts.2.1, toEntry_accepts]
  exact h g hg

/-- An array admits the sequences whose items its element admits. -/
theorem admits_array {kind : SeqKind} {items : List Value} (type : f.type = .array)
    (schema : f.schema? = some [g]) (h : ∀ x ∈ items, g.Admits x) : f.Admits (.seq kind items) := by
  rw [Admits, validate_iff, type, validate_array, nested_eq, schema]
  refine .inr (Entry.itemsAccept_iff.mpr ⟨kind, items, rfl, fun x hx => ?_⟩)
  exact toEntry_accepts.mpr (h x hx)

/-- The class of a value that is neither map nor sequence admits it. -/
theorem admits_class (finite : v.HasFiniteNumbers) (type : f.type = v.classify)
    (object : v.classify ≠ .object) (array : v.classify ≠ .array) : f.Admits v := by
  rw [Admits, validate_iff, type]
  refine .inr ?_
  cases v with
  | float d =>
      have : d.isFinite = true := finite d (Value.self_mem_parts _)
      rw [Value.classify, if_pos this, validate_number]
      exact this
  | seq kind items => exact absurd rfl array
  | map kind es => exact absurd rfl object
  | _ => rfl

/-! ### Classes of samples -/

/-- Some values share a class if all of them have it and there is one. -/
theorem commonClass?_eq_some {vs : List Value} {tag : Tag} :
    commonClass? vs = some tag ↔ vs ≠ [] ∧ ∀ w ∈ vs, w.classify = tag := by
  cases vs with
  | nil => simp [commonClass?]
  | cons w ws =>
      simp only [commonClass?, Option.ite_none_right_eq_some, Option.some.injEq,
        List.all_eq_true, beq_iff_eq]
      constructor
      · rintro ⟨all, rfl⟩
        exact ⟨List.cons_ne_nil _ _, List.forall_mem_cons.mpr ⟨rfl, all⟩⟩
      · rintro ⟨-, all⟩
        obtain ⟨rfl, all⟩ := List.forall_mem_cons.mp all
        exact ⟨all, rfl⟩

/-- With finite numbers only maps are objects. -/
theorem map_of_classify (finite : v.HasFiniteNumbers) (h : v.classify = .object) :
    ∃ kind es, v = .map kind es := by
  cases v with
  | map kind es => exact ⟨kind, es, rfl⟩
  | float d =>
      have : d.isFinite = true := finite d (Value.self_mem_parts _)
      rw [Value.classify, if_pos this] at h
      cases h
  | _ => cases h

theorem seq_of_classify (h : v.classify = .array) : ∃ kind items, v = .seq kind items := by
  cases v with
  | seq kind items => exact ⟨kind, items, rfl⟩
  | float d =>
      rw [Value.classify] at h
      split at h <;> cases h
  | _ => cases h

/-! ### Keys of samples -/

/-- Whether a sample has a key; only maps have any. -/
def sampleHas (key : Value) (v : Value) : Bool := Value.hasKey key (v.entries?.getD [])

theorem allHaveKey_eq {key : Value} {maps : List Value}
    (h : ∀ m ∈ maps, ∃ kind es, m = .map kind es) :
    allHaveKey key maps = .ok (maps.all (sampleHas key)) := by
  induction maps with
  | nil => rfl
  | cons m ms ih =>
      obtain ⟨⟨kind, es, rfl⟩, rest⟩ := List.forall_mem_cons.mp h
      rw [allHaveKey, entriesOf, ok_bind, ih rest, List.all_cons]
      cases found : Value.hasKey key es <;> simp [sampleHas, Value.entries?, found]

theorem sharedEntries_eq {maps : List Value} {es : List (Value × Value)}
    (h : ∀ m ∈ maps, ∃ kind es, m = .map kind es) :
    sharedEntries maps es = .ok (es.filter fun e => maps.all (sampleHas e.1)) := by
  induction es with
  | nil => rfl
  | cons e es ih =>
      rw [sharedEntries, allHaveKey_eq h, ok_bind, ih, ok_bind, List.filter_cons]
      rfl

/-- The columns of some maps are the entries of the first map whose keys the others have. -/
theorem columns_map {kind : MapKind} {es : List (Value × Value)} {rest : List Value}
    (maps : ∀ m ∈ rest, ∃ kind es, m = .map kind es) :
    columns (.map kind es :: rest) = .ok ((es.filter fun e => rest.all (sampleHas e.1)).map
      fun e => (e.1, e.2 :: valuesUnder e.1 rest)) := by
  rw [columns, entriesOf, ok_bind, sharedEntries_eq maps, ok_bind]
  rfl

/-- Where the keys of the first map differ, its values are found under them as those of the
other maps are. -/
theorem columns_eq {kind : MapKind} {es : List (Value × Value)} {rest : List Value}
    (maps : ∀ m ∈ rest, ∃ kind es, m = .map kind es)
    (finite : (Value.map kind es).HasFiniteNumbers) (distinct : Value.DistinctKeys es) :
    columns (.map kind es :: rest) =
      .ok (((es.map Prod.fst).filter fun key => rest.all (sampleHas key)).map
        fun key => (key, valuesUnder key (.map kind es :: rest))) := by
  rw [columns_map maps, List.filter_map, List.map_map]
  refine congrArg Except.ok (List.map_congr_left fun e he => ?_)
  obtain ⟨key, x⟩ := e
  have mem : (key, x) ∈ es := (List.mem_filter.mp he).1
  have self := (finite.inside (Value.key_mem_inside mem)).same_self
  have found : Value.lookup? key es = some x := Value.lookup?_of_mem distinct self mem
  simp [valuesUnder, Value.entries?, found]

/-- Some maps share keys, and each of them finds a value under a shared key. -/
theorem columns_ok {first : Value} {rest : List Value}
    (maps : ∀ m ∈ first :: rest, ∃ kind es, m = .map kind es)
    (finite : first.HasFiniteNumbers) (distinct : first.HasDistinctKeys) :
    ∃ keys : List Value,
      columns (first :: rest) = .ok (keys.map fun key => (key, valuesUnder key (first :: rest))) ∧
      ∀ key ∈ keys, ∀ m ∈ first :: rest, sampleHas key m = true := by
  obtain ⟨⟨kind, es, rfl⟩, others⟩ := List.forall_mem_cons.mp maps
  refine ⟨_, columns_eq others finite (distinct kind es (Value.self_mem_parts _)),
    fun key hkey => ?_⟩
  obtain ⟨own, shared⟩ := List.mem_filter.mp hkey
  obtain ⟨⟨key, x⟩, he, rfl⟩ := List.mem_map.mp own
  refine List.forall_mem_cons.mpr ⟨?_, List.all_eq_true.mp shared⟩
  exact Value.hasKey_of_mem he (finite.inside (Value.key_mem_inside he)).same_self

end Fragment

end Docsig
