import Docsig.Proofs.Types.Fragment

/-!
Inferred schemas accept their samples.

`merge` forgets which sample a field or an item came from: arrays are joined, maps
keep the fields that all of them have, and null becomes a default. So the induction is
not on a value but on a bound for the depth of all samples, and its statement is about
every sample at once (`Sound`): each function of the merge is sound one level above
what it calls.

* `merge_sound`: every sample is accepted by the fragment merged from all of them.
* `ofElements_type`: the fragment does not fall back on any type where the samples share
  one.
* `ofValue_valid`: a value is valid for its own schema.
-/

namespace Docsig.Fragment

variable {below : List Value → Except Fault Fragment} {depth : Nat} {v : Value}

/-! ### Soundness of a merge -/

/-- Samples that are no deeper than a bound and hold finite numbers, and no two equal keys
in one map. -/
structure Samples (depth : Nat) (vs : List Value) : Prop where
  bound : ∀ v ∈ vs, v.depth ≤ depth
  finite : ∀ v ∈ vs, v.HasFiniteNumbers
  distinct : ∀ v ∈ vs, v.HasDistinctKeys

/-- A merge gives a fragment that admits all samples. -/
def Sound (below : List Value → Except Fault Fragment) (depth : Nat) : Prop :=
  ∀ vs, Samples depth vs → ∃ f, below vs = .ok f ∧ ∀ v ∈ vs, f.Admits v

theorem mem_valuesUnder {key x : Value} {maps : List Value} :
    x ∈ valuesUnder key maps ↔
      ∃ kind es, .map kind es ∈ maps ∧ Value.lookup? key es = some x := by
  rw [valuesUnder, List.mem_filterMap]
  constructor
  · rintro ⟨m, hm, h⟩
    cases m with
    | map kind es => exact ⟨kind, es, hm, h⟩
    | _ => cases h
  · rintro ⟨kind, es, hm, h⟩
    exact ⟨_, hm, h⟩

theorem mem_allItems {x : Value} {vs : List Value} :
    x ∈ allItems vs ↔ ∃ kind items, .seq kind items ∈ vs ∧ x ∈ items := by
  rw [allItems, List.mem_flatMap]
  constructor
  · rintro ⟨w, hw, hx⟩
    cases w with
    | seq kind items => exact ⟨kind, items, hw, hx⟩
    | _ => cases hx
  · rintro ⟨kind, items, hw, hx⟩
    exact ⟨_, hw, hx⟩

/-- What stands under a key of samples is one level less deep. -/
theorem Samples.under {maps : List Value} (samples : Samples (depth + 1) maps) (key : Value) :
    Samples depth (valuesUnder key maps) := by
  refine ⟨fun x hx => ?_, fun x hx => ?_, fun x hx => ?_⟩
  all_goals
    obtain ⟨kind, es, hm, found⟩ := mem_valuesUnder.mp hx
    obtain ⟨k, he, -⟩ := Value.mem_of_lookup? found
  · have bound := samples.bound _ hm
    rw [Value.depth, Nat.add_le_add_iff_right] at bound
    exact Value.depthOfEntries_le.mp bound _ he
  · exact (samples.finite _ hm).inside (Value.value_mem_inside he)
  · exact (samples.distinct _ hm).inside (Value.value_mem_inside he)

/-- So are the items of samples. -/
theorem Samples.items {vs : List Value} (samples : Samples (depth + 1) vs) :
    Samples depth (allItems vs) := by
  refine ⟨fun x hx => ?_, fun x hx => ?_, fun x hx => ?_⟩
  all_goals
    obtain ⟨kind, items, hw, hx⟩ := mem_allItems.mp hx
  · have bound := samples.bound _ hw
    rw [Value.depth, Nat.add_le_add_iff_right] at bound
    exact Value.depthOfAll_le.mp bound _ hx
  · exact (samples.finite _ hw).inside hx
  · exact (samples.distinct _ hw).inside hx

/-! ### Fields -/

/-- The fragment of a field admits all values of the field. -/
theorem ofField_sound (sound : Sound below depth) {values : List Value}
    (samples : Samples depth values) (key : Value) :
    ∃ f, ofField below key values = .ok f ∧ f.name? = some key ∧
      ∀ x ∈ values, f.Admits x := by
  obtain ⟨merged, hmerged, admits⟩ := sound values samples
  have renamed : ∀ x ∈ values, (named key merged).Admits x := fun x hx =>
    (admits_congr rfl rfl rfl).mp (admits x hx)
  unfold ofField
  split
  · exact ⟨_, rfl, rfl, fun _ _ => admits_any rfl⟩
  · exact ⟨_, rfl, rfl, fun _ _ => admits_any rfl⟩
  · exact ⟨named key merged, by rw [hmerged]; rfl, rfl, renamed⟩
  · exact ⟨named key merged, by rw [hmerged]; rfl, rfl, renamed⟩
  · rename_i tag notAny notObject notArray common
    refine ⟨_, rfl, rfl, fun x hx => ?_⟩
    have same := (commonClass?_eq_some.mp common).2 x hx
    exact admits_class (samples.finite x hx) same.symm (fun h => notObject (same ▸ h))
      (fun h => notArray (same ▸ h))

/-- The fragments of the shared fields of some maps admit the fields of each. -/
theorem ofMaps_sound (sound : Sound below depth) {maps : List Value}
    (samples : Samples (depth + 1) maps) (ne : maps ≠ [])
    (areMaps : ∀ m ∈ maps, ∃ kind es, m = .map kind es) :
    ∃ fs, ofMaps below maps = .ok fs ∧ ∀ kind es, .map kind es ∈ maps →
      ∀ g ∈ fs, g.Admits ((Value.lookup? (g.name?.getD .null) es).getD .null) := by
  obtain ⟨keys, hkeys, shared⟩ : ∃ keys : List Value,
      columns maps = .ok (keys.map fun key => (key, valuesUnder key maps)) ∧
      ∀ key ∈ keys, ∀ m ∈ maps, sampleHas key m = true := by
    cases maps with
    | nil => exact absurd rfl ne
    | cons first rest =>
        exact columns_ok areMaps (samples.finite _ (by simp)) (samples.distinct _ (by simp))
  -- every shared key makes a field that admits the values under it
  have each := fun key (_ : key ∈ keys) => ofField_sound sound (samples.under key) key
  obtain ⟨fs, hfs, fields⟩ := mapM_exists each
  refine ⟨fs, bind_eq_ok.mpr ⟨_, hkeys, List.mapM_map.trans hfs⟩, fun kind es hm g hg => ?_⟩
  obtain ⟨key, hkey, name, admits⟩ := exists_of_mem_right fields hg
  obtain ⟨x, found⟩ := Option.isSome_iff_exists.mp (shared key hkey _ hm)
  rw [Value.entries?, Option.getD_some] at found
  rw [name, Option.getD_some, found, Option.getD_some]
  exact admits x (mem_valuesUnder.mpr ⟨kind, es, hm, found⟩)

/-! ### Elements -/

/-- The fragment of elements other than null admits them, and null as far as it is told
to. -/
theorem ofPresent_sound (sound : Sound below depth) {present : List Value}
    (samples : Samples (depth + 1) present) (nullable : Bool) :
    ∃ f, ofPresent below nullable present = .ok f ∧ f.nullable = nullable ∧
      ∀ x ∈ present, f.Admits x := by
  unfold ofPresent
  split
  · exact ⟨_, rfl, rfl, fun _ _ => admits_any rfl⟩
  · rename_i common
    obtain ⟨ne, same⟩ := commonClass?_eq_some.mp common
    have areMaps : ∀ m ∈ present, ∃ kind es, m = .map kind es := fun m hm =>
      map_of_classify (samples.finite m hm) (same m hm)
    obtain ⟨fs, hfs, admits⟩ := ofMaps_sound sound samples ne areMaps
    refine ⟨_, bind_eq_ok.mpr ⟨fs, hfs, rfl⟩, rfl, fun m hm => ?_⟩
    obtain ⟨kind, es, rfl⟩ := areMaps m hm
    exact admits_object rfl rfl (admits kind es hm)
  · rename_i common
    obtain ⟨-, same⟩ := commonClass?_eq_some.mp common
    obtain ⟨element, helement, admits⟩ := sound _ samples.items
    refine ⟨_, bind_eq_ok.mpr ⟨element, helement, rfl⟩, rfl, fun w hw => ?_⟩
    obtain ⟨kind, items, rfl⟩ := seq_of_classify (same w hw)
    exact admits_array rfl rfl fun x hx => admits x (mem_allItems.mpr ⟨_, _, hw, hx⟩)
  · rename_i tag notObject notArray common
    refine ⟨_, rfl, rfl, fun x hx => ?_⟩
    have same := (commonClass?_eq_some.mp common).2 x hx
    exact admits_class (samples.finite x hx) same.symm (fun h => notObject (same ▸ h))
      (fun h => notArray (same ▸ h))

/-- **Every sample is accepted by what all samples are merged into.** -/
theorem merge_sound (depth : Nat) : Sound (merge depth) depth := by
  induction depth with
  | zero => exact fun vs _ => ⟨unknown, rfl, fun _ _ => admits_any rfl⟩
  | succ depth ih =>
      intro vs samples
      rw [merge]
      split
      · exact ⟨unknown, rfl, fun _ _ => admits_any rfl⟩
      · have sub : ∀ v ∈ vs.filter fun v => !v.isNull, v ∈ vs := fun v hv =>
          (List.mem_filter.mp hv).1
        have present : Samples (depth + 1) (vs.filter fun v => !v.isNull) :=
          ⟨fun v hv => samples.bound v (sub v hv), fun v hv => samples.finite v (sub v hv),
            fun v hv => samples.distinct v (sub v hv)⟩
        obtain ⟨f, hf, nullable, admits⟩ := ofPresent_sound ih present
          (decide ((vs.filter fun v => !v.isNull).length < vs.length))
        refine ⟨f, hf, fun v hv => ?_⟩
        cases null : v.isNull with
        | false => exact admits v (List.mem_filter.mpr ⟨hv, by rw [null]; rfl⟩)
        | true =>
            -- A null among the elements makes those without null fewer.
            obtain rfl : v = .null := by cases v <;> first | rfl | cases null
            refine admits_null (nullable.trans (decide_eq_true ?_))
            exact List.length_filter_lt_length_iff_exists.mpr ⟨.null, hv, by simp [Value.isNull]⟩

/-- The elements of an array are accepted by their merged fragment. -/
theorem ofElements_admits {items : List Value} (finite : ∀ x ∈ items, x.HasFiniteNumbers)
    (distinct : ∀ x ∈ items, x.HasDistinctKeys) :
    ∃ f, ofElements items = .ok f ∧ ∀ x ∈ items, f.Admits x :=
  merge_sound _ items ⟨Value.depthOfAll_le.mp (Nat.le_refl _), finite, distinct⟩

/-! ### Types -/

/-- The type of what is merged is the class that the samples share. -/
theorem ofPresent_type {nullable : Bool} {present : List Value} {f : Fragment}
    (h : ofPresent below nullable present = .ok f) :
    f.type = (commonClass? present).getD .any := by
  unfold ofPresent at h
  split at h
  · rename_i mixed
    cases h
    rw [mixed]
    rfl
  · rename_i common
    obtain ⟨fs, -, h⟩ := bind_eq_ok.mp h
    cases h
    rw [common]
    rfl
  · rename_i common
    obtain ⟨element, -, h⟩ := bind_eq_ok.mp h
    cases h
    rw [common]
    rfl
  · rename_i common
    cases h
    rw [common]
    rfl

/-- Elements that share a class but for null keep it. -/
theorem ofElements_type {items : List Value} {f : Fragment} {tag : Tag}
    (h : ofElements items = .ok f) (known : ∃ x ∈ items, x.isNull = false)
    (share : ∀ x ∈ items, x.isNull = false → x.classify = tag) : f.type = tag := by
  obtain ⟨x, hx, notNull⟩ := known
  have deep : 0 < Value.depthOfAll items :=
    Nat.lt_of_lt_of_le x.depth_pos (Value.depthOfAll_le.mp (Nat.le_refl _) x hx)
  obtain ⟨depth, eq⟩ := Nat.exists_eq_add_of_lt deep
  have mem : x ∈ items.filter fun v => !v.isNull := List.mem_filter.mpr ⟨hx, by rw [notNull]; rfl⟩
  -- nulls aside, the items have one class, that of the known item
  have common : commonClass? (items.filter fun v => !v.isNull) = some tag := by
    refine commonClass?_eq_some.mpr ⟨List.ne_nil_of_mem mem, fun w hw => ?_⟩
    obtain ⟨hw, present⟩ := List.mem_filter.mp hw
    exact share w hw (by simpa using present)
  rw [ofElements, eq, Nat.zero_add, merge] at h
  split at h
  · rename_i empty
    rw [List.isEmpty_iff.mp empty] at mem
    cases mem
  · rw [ofPresent_type h, common]
    rfl

/-! ### Single values -/

/-- The fragments of entries stand under their keys and admit their values, if each of
the values has a fragment that admits it. -/
theorem ofEntries_exists {es : List (Value × Value)}
    (h : ∀ e ∈ es, ∃ f, ofValue e.2 = .ok f ∧ f.Admits e.2) :
    ∃ fs, ofEntries es = .ok fs ∧
      List.Forall₂ (fun e f => f.name? = some e.1 ∧ f.Admits e.2) es fs := by
  induction es with
  | nil => exact ⟨[], rfl, .nil⟩
  | cons e es ih =>
      obtain ⟨⟨f, hf, admits⟩, rest⟩ := List.forall_mem_cons.mp h
      obtain ⟨fs, hfs, paired⟩ := ih rest
      rw [ofEntries]
      exact ⟨_, bind_eq_ok.mpr ⟨f, hf, bind_eq_ok.mpr ⟨fs, hfs, rfl⟩⟩,
        .cons ⟨rfl, (admits_congr rfl rfl rfl).mp admits⟩ paired⟩

/-- A value is accepted by its own fragment, and this has its class. -/
theorem ofValue_admits (finite : v.HasFiniteNumbers) (keys : v.HasDistinctKeys) :
    ∃ f, ofValue v = .ok f ∧ f.type = v.classify ∧ f.Admits v := by
  -- by induction on the value, whose parts are samples of their own
  induction v using Value.nested_induction with
  | step v ih =>
      have below : ∀ u ∈ v.inside, ∃ f, ofValue u = .ok f ∧ f.Admits u := fun u hu =>
        have ⟨f, hf, _, admits⟩ := ih u hu (finite.inside hu) (keys.inside hu)
        ⟨f, hf, admits⟩
      cases v with
      | seq kind items =>
          have numbers : ∀ x ∈ items, x.HasFiniteNumbers := fun x hx => finite.inside hx
          have differ : ∀ x ∈ items, x.HasDistinctKeys := fun x hx => keys.inside hx
          obtain ⟨element, helement, admits⟩ := ofElements_admits numbers differ
          exact ⟨_, by rw [ofValue, helement, ok_bind]; rfl, rfl, admits_array rfl rfl admits⟩
      | map kind es =>
          have values : ∀ e ∈ es, ∃ f, ofValue e.2 = .ok f ∧ f.Admits e.2 := fun e he =>
            below _ (Value.value_mem_inside he)
          obtain ⟨fs, hfs, paired⟩ := ofEntries_exists values
          refine ⟨_, by rw [ofValue, hfs, ok_bind]; rfl, rfl, admits_object rfl rfl fun g hg => ?_⟩
          obtain ⟨⟨key, x⟩, he, name, admits⟩ := exists_of_mem_right paired hg
          have self := (finite.inside (Value.key_mem_inside he)).same_self
          have distinct := keys kind es (Value.self_mem_parts _)
          rw [name, Option.getD_some, Value.lookup?_of_mem distinct self he, Option.getD_some]
          exact admits
      | null => exact ⟨_, rfl, rfl, admits_any rfl⟩
      | float d =>
          have number : (Value.float d).classify = .number :=
            if_pos (finite d (Value.self_mem_parts _))
          refine ⟨{ type := .number }, by simp [ofValue, number], number.symm, ?_⟩
          exact admits_class finite number.symm (by simp [number]) (by simp [number])
      | _ => exact ⟨_, rfl, rfl, admits_class finite rfl nofun nofun⟩

/-- **A value conforms to its own schema**, which has its class, and so do samples to
theirs: any parts of the value, such as the items of an array in it or of several arrays,
are valid for the one schema that they are merged into, and a class that they share but
for null is kept. -/
theorem ofValue_valid (finite : v.HasFiniteNumbers) (keys : v.HasDistinctKeys) :
    (∃ f, ofValue v = .ok f ∧ f.type = v.classify ∧
        validate (some f.type) v f.nullable f.nested = true) ∧
      ∀ samples : List Value, (∀ x ∈ samples, x ∈ v.parts) →
        ∃ f, ofElements samples = .ok f ∧
          (∀ tag, (∃ x ∈ samples, x.isNull = false) →
            (∀ x ∈ samples, x.isNull = false → x.classify = tag) → f.type = tag) ∧
          ∀ x ∈ samples, validate (some f.type) x f.nullable f.nested = true := by
  refine ⟨ofValue_admits finite keys, fun samples parts => ?_⟩
  have below : ∀ x ∈ samples, x.HasFiniteNumbers := fun x hx d hd =>
    finite d (Value.parts_trans (parts x hx) hd)
  have differ : ∀ x ∈ samples, x.HasDistinctKeys := fun x hx kind es hes =>
    keys kind es (Value.parts_trans (parts x hx) hes)
  obtain ⟨f, hf, admits⟩ := ofElements_admits below differ
  exact ⟨f, hf, fun tag => ofElements_type hf, admits⟩

/-- An array of maps with different fields, of null and of arrays below them. -/
def mixedSample : Value :=
  .list
    [.record [("id", .int 1), ("tags", .list [.text "a", .null])],
      .null,
      .record [("tags", .list [.list [.bool true]]), ("id", .float (.finite false 1 (-1)))]]

theorem ofValue_valid_mixed :
    (∃ f, ofValue mixedSample = .ok f ∧ f.type = .array ∧
        validate (some f.type) mixedSample f.nullable f.nested = true) ∧
      ∀ samples : List Value, (∀ x ∈ samples, x ∈ mixedSample.parts) →
        ∃ f, ofElements samples = .ok f ∧
          (∀ tag, (∃ x ∈ samples, x.isNull = false) →
            (∀ x ∈ samples, x.isNull = false → x.classify = tag) → f.type = tag) ∧
          ∀ x ∈ samples, validate (some f.type) x f.nullable f.nested = true := by
  refine ofValue_valid ?_ ?_
  · intro d hd
    simp [mixedSample, Value.record, Value.parts, Value.partsOfItems, Value.partsOfEntries] at hd
    rw [hd]
    rfl
  · intro kind es hes
    simp [mixedSample, Value.record, Value.parts, Value.partsOfItems, Value.partsOfEntries] at hes
    rcases hes with ⟨-, rfl⟩ | ⟨-, rfl⟩
    all_goals simp [Value.DistinctKeys, Value.same, Value.sameScalar]

end Docsig.Fragment
