import Docsig.Proofs.Definition.Export
import Docsig.Proofs.Types.Introspect

/-!
The shape of inferred schemas.

`Fragment.fragments` lists a fragment and all that is nested in it, so that a rule for
every depth is a rule for the members of a list. `Fragment.Shaped` says which parts one
fragment has: this depends on its type, except for the name and the sample, which depend
on where the fragment stands. So `WellShaped.congr` lets a fragment take another name and
another sample, and what stands as the element of an array has neither (`Bare`).

* `merge_shaped`: what samples are merged into is well shaped, as an element.
* `ofValue_shaped`: the schema of a value is well shaped at every depth.
-/

namespace Docsig.Fragment

/-! ### Well-shaped fragments -/

mutual

def fragments : Fragment → List Fragment
  | ⟨type, name?, schema?, nullable, sample?⟩ =>
      ⟨type, name?, schema?, nullable, sample?⟩ :: fragmentsBelow schema?

def fragmentsBelow : Option (List Fragment) → List Fragment
  | some fs => allFragments fs
  | none => []

def allFragments : List Fragment → List Fragment
  | [] => []
  | f :: fs => f.fragments ++ allFragments fs

end

/-- Fragments under keys, no two of which are equal. -/
def Keyed (fs : List Fragment) : Prop :=
  ∃ keys : List Value, fs.map name? = keys.map some ∧
    keys.Pairwise fun a b => Value.same a b = false

/-- A fragment without name and sample. -/
structure Bare (f : Fragment) : Prop where
  name : f.name? = none
  sample : f.sample? = none

/-- A sample stands under a name only, it is no null but a text, a number, a truth value or
bytes, and it has the class of the fragment, unless this is any type. -/
def Sampled (f : Fragment) : Prop :=
  ∀ v, f.sample? = some v → f.name?.isSome = true ∧ v ≠ .null ∧
    v.classify ∈ [Tag.string, .number, .boolean, .buffer] ∧ (f.type = .any ∨ v.classify = f.type)

/-- The shape of one inferred fragment. -/
structure Shaped (f : Fragment) : Prop where
  /-- Objects and arrays have a schema, and nothing else has. -/
  container : f.schema?.isSome = true ↔ f.type = .object ∨ f.type = .array
  /-- The schema of an array is its one element. -/
  element : ∀ fs, f.type = .array → f.schema? = some fs → ∃ e, fs = [e] ∧ e.Bare
  /-- The schema of an object are its fields. -/
  fields : ∀ fs, f.type = .object → f.schema? = some fs → Keyed fs
  sample : f.Sampled
  default : ∀ v, f.toValue.get? "defaultValue" = some v → v = .null

/-- A fragment that is in shape at every depth. -/
def WellShaped (f : Fragment) : Prop := ∀ g ∈ f.fragments, g.Shaped

variable {f g e : Fragment} {fs : List Fragment} {nullable : Bool} {v : Value}
  {below : List Value → Except Fault Fragment}

theorem fragments_eq (f : Fragment) : f.fragments = f :: fragmentsBelow f.schema? := by
  cases f; rfl

theorem mem_allFragments : g ∈ allFragments fs ↔ ∃ f ∈ fs, g ∈ f.fragments := by
  induction fs with
  | nil => simp [allFragments]
  | cons f fs ih => simp [allFragments, ih]

/-- A fragment is well shaped if it is in shape and what stands in its schema is well
shaped. -/
theorem wellShaped_iff : f.WellShaped ↔
    f.Shaped ∧ ∀ fs, f.schema? = some fs → ∀ g ∈ fs, g.WellShaped := by
  rw [WellShaped, fragments_eq, List.forall_mem_cons]
  refine and_congr_right fun _ => ?_
  cases f.schema? with
  | none => simp [fragmentsBelow]
  | some fs =>
      simp only [fragmentsBelow, mem_allFragments, Option.some.injEq, forall_eq']
      constructor
      · intro h g hg q hq
        exact h q ⟨g, hg, hq⟩
      · rintro h q ⟨g, hg, hq⟩
        exact h g hg q hq

/-- No fragment has another default than null. -/
theorem default_null (f : Fragment) :
    ∀ v, f.toValue.get? "defaultValue" = some v → v = .null := by
  intro v hv
  obtain ⟨type, name?, schema?, nullable, sample?⟩ := f
  cases nullable <;> simp [toValue, List.append_assoc] at hv
  exact hv.symm

theorem Bare.sampled (h : f.Bare) : f.Sampled := by
  intro v hv
  rw [h.sample] at hv
  cases hv

/-- The name and the sample of a fragment do not count for what is nested in it. -/
theorem WellShaped.congr (h : f.WellShaped) (type : g.type = f.type)
    (schema : g.schema? = f.schema?) (sample : g.Sampled) : g.WellShaped := by
  obtain ⟨own, nested⟩ := wellShaped_iff.mp h
  refine wellShaped_iff.mpr ⟨⟨?_, ?_, ?_, sample, g.default_null⟩, ?_⟩
  · rw [schema, type]
    exact own.container
  · rw [schema, type]
    exact own.element
  · rw [schema, type]
    exact own.fields
  · rw [schema]
    exact nested

theorem wellShaped_leaf (object : f.type ≠ .object) (array : f.type ≠ .array)
    (schema : f.schema? = none) (sample : f.Sampled) : f.WellShaped := by
  refine wellShaped_iff.mpr ⟨⟨?_, ?_, ?_, sample, f.default_null⟩, ?_⟩
  · simp [schema, object, array]
  · exact fun fs type => absurd type array
  · exact fun fs type => absurd type object
  · simp [schema]

theorem wellShaped_object (keyed : Keyed fs) (nested : ∀ g ∈ fs, g.WellShaped) :
    WellShaped { type := .object, schema? := some fs, nullable := nullable } := by
  refine wellShaped_iff.mpr ⟨⟨?_, nofun, ?_, nofun, default_null _⟩, ?_⟩
  · simp
  · rintro _ - ⟨⟩
    exact keyed
  · rintro _ ⟨⟩
    exact nested

theorem wellShaped_array (bare : e.Bare) (nested : e.WellShaped) :
    WellShaped { type := .array, schema? := some [e], nullable := nullable } := by
  refine wellShaped_iff.mpr ⟨⟨?_, ?_, nofun, nofun, default_null _⟩, ?_⟩
  · simp
  · rintro _ - ⟨⟩
    exact ⟨e, rfl, bare⟩
  · rintro _ ⟨⟩
    exact List.forall_mem_singleton.mpr nested

/-- What holds nothing and stands under no name is in shape. -/
theorem Bare.leaf (bare : f.Bare) (schema : f.schema? = none) (object : f.type ≠ .object)
    (array : f.type ≠ .array) : f.Bare ∧ f.WellShaped :=
  ⟨bare, wellShaped_leaf object array schema bare.sampled⟩

theorem bare_unknown : unknown.Bare ∧ unknown.WellShaped :=
  Bare.leaf ⟨rfl, rfl⟩ rfl (by decide) (by decide)

/-! ### Samples -/

/-- The class of a value is that of a leaf if it is neither null nor a container. -/
theorem mem_leaves : v.classify ∈ [Tag.string, .number, .boolean, .buffer] ↔
    v.classify.isLeaf = true := by
  cases v.classify <;> decide

theorem isLeaf_of_classify (any : v.classify ≠ .any) (object : v.classify ≠ .object)
    (array : v.classify ≠ .array) : v.classify.isLeaf = true := by
  cases v with
  | float d =>
      simp only [Value.classify] at object ⊢
      split
      · rfl
      · rename_i infinite
        exact absurd (if_neg infinite) object
  | null => exact absurd rfl any
  | seq kind items => exact absurd rfl array
  | map kind es => exact absurd rfl object
  | _ => rfl

/-- A leaf is the sample of what has its class or any type, under a name. -/
theorem sampled_of_leaf (name : f.name?.isSome = true) (h : ∀ v, f.sample? = some v →
    v.classify.isLeaf = true ∧ (f.type = .any ∨ v.classify = f.type)) : f.Sampled := by
  intro v hv
  obtain ⟨leaf, type⟩ := h v hv
  refine ⟨name, ?_, mem_leaves.mpr leaf, type⟩
  rintro rfl
  cases leaf

/-! ### Fields -/

/-- A merge gives a well-shaped element of an array. -/
def Shaping (below : List Value → Except Fault Fragment) : Prop :=
  ∀ vs f, (∀ v ∈ vs, v.HasDistinctKeys) → below vs = .ok f → f.Bare ∧ f.WellShaped

/-- A field has the name of its key and is well-shaped, if what is merged below it is. -/
theorem ofField_shaped (shaping : Shaping below) {key : Value} {values : List Value}
    (distinct : ∀ x ∈ values, x.HasDistinctKeys) (h : ofField below key values = .ok f) :
    f.name? = some key ∧ f.WellShaped := by
  have renamed : (below values).map (named key) = .ok f →
      f.name? = some key ∧ f.WellShaped := by
    intro h
    obtain ⟨m, hm, rfl⟩ := map_eq_ok.mp h
    obtain ⟨bare, shaped⟩ := shaping values m distinct hm
    refine ⟨rfl, shaped.congr rfl rfl fun v hv => ?_⟩
    rw [named, bare.sample] at hv
    cases hv
  unfold ofField at h
  split at h
  · -- several classes
    cases h
    refine ⟨rfl, wellShaped_leaf nofun nofun rfl (sampled_of_leaf rfl fun v hv => ⟨?_, .inl rfl⟩)⟩
    exact (Option.filter_eq_some_iff.mp hv).2
  · cases h
    exact ⟨rfl, bare_unknown.2.congr rfl rfl nofun⟩
  · exact renamed h
  · exact renamed h
  · -- one class, which is that of leaves
    rename_i tag notAny notObject notArray common
    cases h
    have same := (commonClass?_eq_some.mp common).2
    refine ⟨rfl, wellShaped_leaf notObject notArray rfl (sampled_of_leaf rfl fun v hv => ?_)⟩
    have class_eq := same v (List.mem_of_mem_head? hv)
    refine ⟨isLeaf_of_classify ?_ ?_ ?_, .inr class_eq⟩
    · exact fun h => notAny (class_eq ▸ h)
    · exact fun h => notObject (class_eq ▸ h)
    · exact fun h => notArray (class_eq ▸ h)

/-- Shared entries are entries of the first map, in its order. -/
theorem sharedEntries_sublist {others : List Value} {es shared : List (Value × Value)}
    (h : sharedEntries others es = .ok shared) : shared.Sublist es := by
  induction es generalizing shared with
  | nil =>
      cases h
      exact .slnil
  | cons e es ih =>
      obtain ⟨key, x⟩ := e
      rw [sharedEntries] at h
      obtain ⟨has, -, h⟩ := bind_eq_ok.mp h
      obtain ⟨rest, hrest, h⟩ := bind_eq_ok.mp h
      cases has with
      | true =>
          cases h
          exact (ih hrest).cons_cons (key, x)
      | false =>
          cases h
          exact (ih hrest).cons (key, x)

/-- The keys of columns differ, and their values stand in the maps. -/
theorem columns_distinct {maps : List Value} {cols : List (Value × List Value)}
    (distinct : ∀ m ∈ maps, m.HasDistinctKeys) (h : columns maps = .ok cols) :
    (cols.map Prod.fst).Pairwise (fun a b => Value.same a b = false) ∧
      ∀ c ∈ cols, ∀ x ∈ c.2, ∃ m ∈ maps, x ∈ m.inside := by
  cases maps with
  | nil =>
      cases h
      exact ⟨.nil, by simp⟩
  | cons first rest =>
      obtain ⟨es, hes, h⟩ := bind_eq_ok.mp h
      obtain ⟨shared, hshared, ⟨⟩⟩ := bind_eq_ok.mp h
      cases first with
      | map kind es' =>
          cases hes
          have own := distinct _ List.mem_cons_self kind es (Value.self_mem_parts _)
          have sub := sharedEntries_sublist hshared
          refine ⟨?_, List.forall_mem_map.mpr fun e he => List.forall_mem_cons.mpr ⟨?_, ?_⟩⟩
          · rw [List.map_map]
            exact List.pairwise_map.mpr (own.sublist sub)
          · exact ⟨_, List.mem_cons_self, Value.value_mem_inside (sub.subset he)⟩
          · intro x hx
            obtain ⟨kind', es', hm, found⟩ := mem_valuesUnder.mp hx
            obtain ⟨k, hk, -⟩ := Value.mem_of_lookup? found
            exact ⟨_, List.mem_cons_of_mem _ hm, Value.value_mem_inside hk⟩
      | _ => cases hes

/-- The fields of maps have different keys and are well-shaped. -/
theorem ofMaps_shaped (shaping : Shaping below) {maps : List Value}
    (distinct : ∀ m ∈ maps, m.HasDistinctKeys) (h : ofMaps below maps = .ok fs) :
    Keyed fs ∧ ∀ g ∈ fs, g.WellShaped := by
  obtain ⟨cols, hcols, h⟩ := bind_eq_ok.mp h
  obtain ⟨differ, inside⟩ := columns_distinct distinct hcols
  have under : ∀ c ∈ cols, ∀ x ∈ c.2, x.HasDistinctKeys := by
    intro c hc x hx
    obtain ⟨m, hm, hx⟩ := inside c hc x hx
    exact (distinct m hm).inside hx
  have made := (List.forall₂_and_left cols fs).mpr ⟨under, mapM_eq_ok.mp h⟩
  have each : List.Forall₂ (fun c g => g.name? = some c.1 ∧ g.WellShaped) cols fs :=
    made.imp fun c g hg => ofField_shaped shaping hg.1 hg.2
  refine ⟨⟨cols.map Prod.fst, ?_, differ⟩, fun g hg => ?_⟩
  · rw [List.map_map]
    exact (map_eq_map each fun c g hg => hg.1.symm).symm
  · obtain ⟨c, -, -, shaped⟩ := exists_of_mem_right each hg
    exact shaped

/-! ### Elements -/

/-- What is merged is bare and well-shaped. -/
theorem ofPresent_shaped (shaping : Shaping below) {present : List Value}
    (distinct : ∀ x ∈ present, x.HasDistinctKeys)
    (h : ofPresent below nullable present = .ok f) : f.Bare ∧ f.WellShaped := by
  unfold ofPresent at h
  split at h
  · cases h
    exact Bare.leaf ⟨rfl, rfl⟩ rfl (by decide : Tag.any ≠ .object) (by decide : Tag.any ≠ .array)
  · obtain ⟨fs, hfs, h⟩ := bind_eq_ok.mp h
    cases h
    obtain ⟨keyed, nested⟩ := ofMaps_shaped shaping distinct hfs
    exact ⟨⟨rfl, rfl⟩, wellShaped_object keyed nested⟩
  · obtain ⟨element, helement, h⟩ := bind_eq_ok.mp h
    cases h
    have items : ∀ x ∈ allItems present, x.HasDistinctKeys := by
      intro x hx
      obtain ⟨kind, items, hw, hx⟩ := mem_allItems.mp hx
      exact (distinct _ hw).inside hx
    obtain ⟨bare, shaped⟩ := shaping _ element items helement
    exact ⟨⟨rfl, rfl⟩, wellShaped_array bare shaped⟩
  · rename_i tag notObject notArray common
    cases h
    exact Bare.leaf ⟨rfl, rfl⟩ rfl notObject notArray

/-- **What samples are merged into is well shaped.** -/
theorem merge_shaped (depth : Nat) : Shaping (merge depth) := by
  induction depth with
  | zero =>
      intro vs f _ h
      cases h
      exact bare_unknown
  | succ depth ih =>
      intro vs f distinct h
      rw [merge] at h
      split at h
      · cases h
        exact bare_unknown
      · exact ofPresent_shaped ih (fun x hx => distinct x (List.mem_filter.mp hx).1) h

/-! ### Single values -/

/-- The type of the fragment of one value is the class of the value. -/
theorem ofValue_type (h : ofValue v = .ok f) : f.type = v.classify := by
  cases v with
  | seq kind items =>
      rw [ofValue] at h
      obtain ⟨element, -, ⟨⟩⟩ := bind_eq_ok.mp h
      rfl
  | map kind es =>
      rw [ofValue] at h
      obtain ⟨fs, -, ⟨⟩⟩ := bind_eq_ok.mp h
      rfl
  | float d =>
      rw [ofValue] at h
      split at h
      · cases h
      · cases h
        rfl
      all_goals simp
  | _ =>
      cases h
      rfl

/-- The fragments of entries stand under their keys and are well shaped, if those of their
values are. -/
theorem ofEntries_shaped {es : List (Value × Value)} (h : ofEntries es = .ok fs)
    (values : ∀ e ∈ es, ∀ f, ofValue e.2 = .ok f → f.WellShaped) :
    fs.map name? = (es.map Prod.fst).map some ∧ ∀ g ∈ fs, g.WellShaped := by
  induction es generalizing fs with
  | nil =>
      cases h
      exact ⟨rfl, by simp⟩
  | cons e es ih =>
      obtain ⟨key, v⟩ := e
      obtain ⟨first, others⟩ := List.forall_mem_cons.mp values
      rw [ofEntries] at h
      obtain ⟨f, hf, h⟩ := bind_eq_ok.mp h
      obtain ⟨rest, hrest, ⟨⟩⟩ := bind_eq_ok.mp h
      obtain ⟨names, nested⟩ := ih hrest others
      refine ⟨?_, List.forall_mem_cons.mpr ⟨?_, nested⟩⟩
      · rw [List.map_cons, List.map_cons, List.map_cons, names]
      · refine (first f hf).congr rfl rfl (sampled_of_leaf rfl fun w hw => ?_)
        obtain ⟨leaf, hw⟩ := Option.ite_none_right_eq_some.mp hw
        cases hw
        exact ⟨leaf, .inr (ofValue_type hf).symm⟩

/-- The fragment of a value is well shaped and stands under no name. -/
theorem wellShaped_ofValue (keys : v.HasDistinctKeys) (h : ofValue v = .ok f) :
    f.Bare ∧ f.WellShaped := by
  induction v using Value.nested_induction generalizing f with
  | step v ih =>
      cases v with
      | seq kind items =>
          rw [ofValue] at h
          obtain ⟨element, helement, ⟨⟩⟩ := bind_eq_ok.mp h
          obtain ⟨bare, shaped⟩ :=
            merge_shaped _ items element (fun x hx => keys.inside hx) helement
          exact ⟨⟨rfl, rfl⟩, wellShaped_array bare shaped⟩
      | map kind es =>
          rw [ofValue] at h
          obtain ⟨fs, hfs, ⟨⟩⟩ := bind_eq_ok.mp h
          have values : ∀ e ∈ es, ∀ f, ofValue e.2 = .ok f → f.WellShaped := by
            intro e he f hf
            have inside : e.2 ∈ (Value.map kind es).inside := Value.value_mem_inside he
            exact (ih e.2 inside (keys.inside inside) hf).2
          obtain ⟨names, nested⟩ := ofEntries_shaped hfs values
          have distinct := keys kind es (Value.self_mem_parts _)
          exact ⟨⟨rfl, rfl⟩, wellShaped_object ⟨_, names, List.pairwise_map.mpr distinct⟩ nested⟩
      | null =>
          cases h
          exact bare_unknown
      | float d =>
          rw [ofValue] at h
          split at h
          · cases h
          · rename_i object
            cases h
            refine Bare.leaf ⟨rfl, rfl⟩ rfl object ?_
            simp only [Value.classify]
            split <;> simp
          all_goals simp
      | _ =>
          cases h
          exact Bare.leaf ⟨rfl, rfl⟩ rfl (by rintro ⟨⟩) (by rintro ⟨⟩)

/-- **The schema of a value is well shaped at every depth.** A value without infinities and
"not a number" has a schema. Each fragment in it has a schema of its own exactly if it is
an object or an array, the fields of an object stand under keys of their own, the element of
an array has neither name nor sample, samples are leaves of the fragment's class, and the
one default is null. -/
theorem ofValue_shaped (finite : v.HasFiniteNumbers) (keys : v.HasDistinctKeys) :
    ∃ f, ofValue v = .ok f ∧ f.type = v.classify ∧ f.Bare ∧ ∀ g ∈ f.fragments, g.Shaped := by
  obtain ⟨f, hf, type, -⟩ := ofValue_admits finite keys
  obtain ⟨bare, shaped⟩ := wellShaped_ofValue keys hf
  exact ⟨f, hf, type, bare, shaped⟩

/-- Maps in an array, of which only one has a field and both have another of several
classes. -/
def ragged : Value :=
  .record [("rows", .list [.record [("id", .int 1), ("tag", .null)],
    .record [("tag", .text "a"), ("id", .int 2), ("more", .bool true)]]), ("name", .text "b")]

theorem ofValue_shaped_ragged : ∃ f, ofValue ragged = .ok f ∧ f.type = .object ∧ f.Bare ∧
    ∀ g ∈ f.fragments, g.Shaped := by
  apply ofValue_shaped
  · intro d hd
    simp [ragged, Value.record, Value.parts, Value.partsOfItems, Value.partsOfEntries] at hd
  · intro kind es hes
    simp [ragged, Value.record, Value.parts, Value.partsOfItems, Value.partsOfEntries] at hes
    rcases hes with ⟨-, rfl⟩ | ⟨-, rfl⟩ | ⟨-, rfl⟩
    all_goals simp [Value.DistinctKeys, Value.same, Value.sameScalar]

end Docsig.Fragment
