import Docsig.Proofs.Types.Convert
import Docsig.Proofs.Types.Introspect

/-!
Which values have an inferred schema.

A number that is infinite or "not a number" has the class of objects and no fields, so no
schema is found where its fields are needed. Whether they are depends on where it stands: a
merge looks at groups of samples, and it passes over a group of several classes, and over
the maps behind one that lacks a key. `Below` says which group is merged below which other,
`Stuck` at which groups a merge stops, and these two alone decide.

* `merge_isOk_iff`: samples are merged unless a group that is reached is stuck.
* `merge_blames`: a merge that fails names a number that is not finite, out of its samples.
* `ofValue_isOk_iff`: both of a single value, so that every value with finite numbers has a
  schema.
-/

namespace Docsig.Fragment

/-! ### Groups of samples -/

/-- The samples other than null. -/
def present (vs : List Value) : List Value := vs.filter fun v => !v.isNull

/-- What a sample has under a key. -/
def Under (key sample x : Value) : Prop := sample.entries?.bind (Value.lookup? key) = some x

/-- What samples have under a key that all of them share. The first of them has the value of
its own entry. -/
inductive Column : List Value → Value → List Value → Prop
  | mk {kind : MapKind} {es : List (Value × Value)} {key x : Value} {rest xs : List Value} :
      (key, x) ∈ es → List.Forall₂ (Under key) rest xs → Column (.map kind es :: rest) key (x :: xs)

/-- The groups that are merged one level below a group of samples. -/
inductive Below : List Value → List Value → Prop
  | items {vs : List Value} : present vs ≠ [] → (∀ v ∈ present vs, v.classify = .array) →
      Below vs (allItems (present vs))
  /-- Maps are merged field by field, and null sets a field apart. -/
  | field {vs values : List Value} {key : Value} : Column (present vs) key values →
      .null ∉ values → Below vs values

/-- A group at which a merge stops: everything in it has the class of objects, and what is no
map is asked for a key. This is asked of the first sample, and of one behind samples that
share a key. -/
def Stuck (vs : List Value) : Prop :=
  (∀ v ∈ present vs, v.classify = .object) ∧
    ∃ before w after, present vs = before ++ w :: after ∧ w.IsNonFinite ∧
      (before = [] ∨ ∃ key values, Column before key values)

/-- No group is stuck that is merged below some samples. -/
def Clear (vs : List Value) : Prop := ∀ ws, Relation.ReflTransGen Below vs ws → ¬ Stuck ws

variable {below : List Value → Except Fault Fragment} {v w key x : Value}
  {vs ws maps values xs : List Value} {es : List (Value × Value)} {depth : Nat}

/-- Samples are clear if they are not stuck and nothing merged below them is. -/
theorem clear_iff : Clear vs ↔ ¬ Stuck vs ∧ ∀ ws, Below vs ws → Clear ws :=
  forall_reachable_iff

theorem map_or_nonFinite (h : v.classify = .object) :
    (∃ kind es, v = .map kind es) ∨ v.IsNonFinite := by
  cases v with
  | map kind es => exact .inl ⟨kind, es, rfl⟩
  | float d =>
      refine .inr ⟨d, rfl, ?_⟩
      rw [Value.classify] at h
      split at h
      · cases h
      · rename_i infinite
        exact Bool.eq_false_iff.mpr infinite
  | _ => cases h

theorem Under.map (h : Under key w x) : ∃ kind es, w = .map kind es ∧ x ∈ w.inside ∧
    x.depth < w.depth := by
  cases w with
  | map kind es =>
      obtain ⟨k, he, -⟩ := Value.mem_of_lookup? h
      refine ⟨kind, es, rfl, Value.value_mem_inside he, ?_⟩
      rw [Value.depth]
      exact Nat.lt_succ_of_le (Value.depthOfEntries_le.mp (Nat.le_refl _) _ he)
  | _ => cases h

/-- Only maps have columns, and the values of a column stand in them. -/
theorem Column.of_maps (h : Column maps key values) :
    (maps ≠ [] ∧ ∀ m ∈ maps, m.classify = .object) ∧
      values ≠ [] ∧ ∀ x ∈ values, ∃ m ∈ maps, x ∈ m.inside ∧ x.depth < m.depth := by
  obtain ⟨he, under⟩ := h
  refine ⟨⟨List.cons_ne_nil _ _, List.forall_mem_cons.mpr ⟨rfl, fun m hm => ?_⟩⟩,
    List.cons_ne_nil _ _, List.forall_mem_cons.mpr ⟨?_, fun x hx => ?_⟩⟩
  · obtain ⟨x, -, hx⟩ := exists_of_mem_left under hm
    obtain ⟨kind, es, rfl, -⟩ := hx.map
    rfl
  · refine ⟨_, List.mem_cons_self, Value.value_mem_inside he, ?_⟩
    rw [Value.depth]
    exact Nat.lt_succ_of_le (Value.depthOfEntries_le.mp (Nat.le_refl _) _ he)
  · obtain ⟨m, hm, hx⟩ := exists_of_mem_right under hx
    obtain ⟨kind, es, rfl, inside, less⟩ := hx.map
    exact ⟨_, List.mem_cons_of_mem _ hm, inside, less⟩

/-- Nothing is merged below samples of several classes or of the class of leaves. -/
theorem clear_of_class (h : ∀ tag, commonClass? (present vs) = some tag →
    tag ≠ .object ∧ tag ≠ .array) : Clear vs := by
  refine clear_iff.mpr ⟨?_, fun ws below => ?_⟩
  · rintro ⟨same, before, w, after, split, -⟩
    have ne : present vs ≠ [] := by simp [split]
    exact (h .object (commonClass?_eq_some.mpr ⟨ne, same⟩)).1 rfl
  · cases below with
    | items ne same => exact ((h .array (commonClass?_eq_some.mpr ⟨ne, same⟩)).2 rfl).elim
    | field column _ => exact ((h .object (commonClass?_eq_some.mpr column.of_maps.1)).1 rfl).elim

/-- Nothing is merged where there is nothing but null. -/
theorem clear_of_empty (h : present vs = []) : Clear vs :=
  clear_of_class (by simp [h, commonClass?])

/-- Below arrays there are their items. -/
theorem clear_arrays (ne : present vs ≠ []) (same : ∀ v ∈ present vs, v.classify = .array) :
    Clear vs ↔ Clear (allItems (present vs)) := by
  obtain ⟨v, hv⟩ := List.exists_mem_of_ne_nil _ ne
  rw [clear_iff]
  refine ⟨fun clear => clear.2 _ (.items ne same), fun clear => ⟨?_, fun ws below => ?_⟩⟩
  · rintro ⟨objects, -⟩
    cases (same v hv).symm.trans (objects v hv)
  · cases below with
    | items _ _ => exact clear
    | field column _ => cases (same v hv).symm.trans (column.of_maps.1.2 v hv)

/-- Below maps there are their columns. -/
theorem clear_maps (ne : present vs ≠ []) (same : ∀ v ∈ present vs, v.classify = .object) :
    Clear vs ↔ ¬ Stuck vs ∧
      ∀ key values, Column (present vs) key values → .null ∉ values → Clear values := by
  obtain ⟨v, hv⟩ := List.exists_mem_of_ne_nil _ ne
  rw [clear_iff]
  refine and_congr_right fun _ => ⟨fun clear key values column full => ?_, fun clear ws below => ?_⟩
  · exact clear _ (.field column full)
  · cases below with
    | items _ arrays => cases (same v hv).symm.trans (arrays v hv)
    | field column full => exact clear _ _ column full

/-! ### Keys -/

theorem entriesOf_eq_ok : entriesOf v = .ok es ↔ ∃ kind, v = .map kind es := by
  cases v <;> simp [entriesOf]

/-- A key is found in samples exactly if each of them has it. -/
theorem allHaveKey_eq_true :
    allHaveKey key vs = .ok true ↔ ∃ xs, List.Forall₂ (Under key) vs xs := by
  induction vs with
  | nil => exact ⟨fun _ => ⟨[], .nil⟩, fun _ => rfl⟩
  | cons v vs ih =>
      rw [allHaveKey, bind_eq_ok]
      constructor
      · rintro ⟨es, hes, h⟩
        obtain ⟨kind, rfl⟩ := entriesOf_eq_ok.mp hes
        split at h
        · rename_i has
          obtain ⟨x, hx⟩ := Option.isSome_iff_exists.mp has
          obtain ⟨xs, under⟩ := ih.mp h
          exact ⟨x :: xs, .cons hx under⟩
        · cases h
      · rintro ⟨_, ⟨⟩⟩
        rename_i x xs first under
        obtain ⟨kind, es, rfl, -⟩ := first.map
        refine ⟨es, rfl, ?_⟩
        have has : Value.hasKey key es = true := Option.isSome_iff_exists.mpr ⟨x, first⟩
        rw [if_pos has]
        exact ih.mpr ⟨xs, under⟩

/-- The search for a key stops at what is no map, if all samples before have the key. -/
theorem allHaveKey_error : (∃ fault, allHaveKey key vs = .error fault) ↔
    ∃ before w after, vs = before ++ w :: after ∧ w.entries? = none ∧
      ∃ xs, List.Forall₂ (Under key) before xs := by
  -- by induction on the maps: those before the failing one all have the key
  induction vs with
  | nil => simp [allHaveKey]
  | cons v vs ih =>
      rw [allHaveKey]
      constructor
      · rintro ⟨fault, h⟩
        cases v with
        | map kind es =>
            rw [entriesOf, ok_bind] at h
            split at h
            · rename_i has
              obtain ⟨x, hx⟩ := Option.isSome_iff_exists.mp has
              obtain ⟨before, w, after, rfl, none, xs, under⟩ := ih.mp ⟨fault, h⟩
              exact ⟨.map kind es :: before, w, after, rfl, none, x :: xs, .cons hx under⟩
            · cases h
        | _ => exact ⟨[], _, vs, rfl, rfl, [], .nil⟩
      · rintro ⟨before, w, after, split, none, xs, under⟩
        cases under with
        | nil =>
            cases split
            cases v with
            | map kind es => cases none
            | _ => exact ⟨_, rfl⟩
        | @cons _ x _ _ first under =>
            cases split
            obtain ⟨kind, es, rfl, -⟩ := first.map
            have has : Value.hasKey key es = true := Option.isSome_iff_exists.mpr ⟨x, first⟩
            rw [entriesOf, ok_bind, if_pos has]
            exact ih.mpr ⟨_, w, after, rfl, none, _, under⟩

/-- The entries that are shared are those whose keys all others have. -/
theorem mem_sharedEntries {others : List Value} {shared : List (Value × Value)}
    (h : sharedEntries others es = .ok shared) (e : Value × Value) :
    e ∈ shared ↔ e ∈ es ∧ allHaveKey e.1 others = .ok true := by
  induction es generalizing shared with
  | nil =>
      cases h
      simp
  | cons f es ih =>
      obtain ⟨key, x⟩ := f
      rw [sharedEntries] at h
      obtain ⟨has, hhas, h⟩ := bind_eq_ok.mp h
      obtain ⟨rest, hrest, h⟩ := bind_eq_ok.mp h
      cases h
      rw [List.mem_cons, or_and_right, ← ih hrest]
      cases has with
      | true =>
          rw [if_pos rfl, List.mem_cons]
          refine or_congr_left (iff_self_and.mpr ?_)
          rintro rfl
          exact hhas
      | false =>
          rw [if_neg Bool.false_ne_true]
          refine (or_iff_right ?_).symm
          rintro ⟨rfl, has⟩
          rw [hhas] at has
          cases has

/-- The shared keys cannot be found if one of them cannot be looked up. -/
theorem sharedEntries_error {others : List Value} :
    (∃ fault, sharedEntries others es = .error fault) ↔
      ∃ e ∈ es, ∃ fault, allHaveKey e.1 others = .error fault := by
  induction es with
  | nil => simp [sharedEntries]
  | cons e es ih =>
      obtain ⟨key, x⟩ := e
      rw [List.exists_mem_cons_iff, ← ih, sharedEntries]
      cases allHaveKey key others with
      | error fault => simp [bind, Except.bind]
      | ok has => cases sharedEntries others es <;> simp [bind, Except.bind]

/-- What all of some maps have under a key, one after the other. -/
theorem valuesUnder_eq (h : List.Forall₂ (Under key) vs xs) : valuesUnder key vs = xs := by
  induction h with
  | nil => rfl
  | @cons m x _ _ first _ ih =>
      rw [valuesUnder, List.filterMap_cons, show m.entries?.bind (Value.lookup? key) = some x
        from first]
      exact congrArg (x :: ·) ih

/-- Columns are found as `Column` says. -/
theorem mem_columns {cols : List (Value × List Value)} (h : columns maps = .ok cols)
    (c : Value × List Value) : c ∈ cols ↔ Column maps c.1 c.2 := by
  cases maps with
  | nil =>
      cases h
      exact ⟨nofun, nofun⟩
  | cons first rest =>
      obtain ⟨es, hes, h⟩ := bind_eq_ok.mp h
      obtain ⟨shared, hshared, ⟨⟩⟩ := bind_eq_ok.mp h
      obtain ⟨kind, rfl⟩ := entriesOf_eq_ok.mp hes
      rw [List.mem_map]
      constructor
      · rintro ⟨⟨key, x⟩, he, rfl⟩
        obtain ⟨he, has⟩ := (mem_sharedEntries hshared _).mp he
        obtain ⟨xs, under⟩ := allHaveKey_eq_true.mp has
        rw [valuesUnder_eq under]
        exact .mk he under
      · intro column
        obtain ⟨key, values⟩ := c
        obtain ⟨he, under⟩ := column
        refine ⟨(key, _), (mem_sharedEntries hshared _).mpr ⟨he, ?_⟩, ?_⟩
        · exact allHaveKey_eq_true.mpr ⟨_, under⟩
        · rw [valuesUnder_eq under]

/-- There are no columns exactly if what is no map is the first of the samples or comes behind
some that share a key. -/
theorem columns_error (ne : maps ≠ []) (same : ∀ m ∈ maps, m.classify = .object) :
    (∃ fault, columns maps = .error fault) ↔
      ∃ before w after, maps = before ++ w :: after ∧ w.IsNonFinite ∧
        (before = [] ∨ ∃ key values, Column before key values) := by
  cases maps with
  | nil => exact absurd rfl ne
  | cons first rest =>
      obtain ⟨own, others⟩ := List.forall_mem_cons.mp same
      -- the first sample lists the keys, so it fails before any key is shared
      rcases map_or_nonFinite own with ⟨kind, es, rfl⟩ | infinite
      · have opened : (∃ fault, columns (.map kind es :: rest) = .error fault) ↔
            ∃ fault, sharedEntries rest es = .error fault := by
          rw [columns, entriesOf, ok_bind]
          cases sharedEntries rest es <;> simp [bind, Except.bind]
        rw [opened, sharedEntries_error]
        constructor
        · rintro ⟨⟨key, x⟩, he, fails⟩
          obtain ⟨before, w, after, rfl, none, xs, under⟩ := allHaveKey_error.mp fails
          refine ⟨.map kind es :: before, w, after, rfl, ?_, .inr ⟨key, x :: xs, .mk he under⟩⟩
          rcases map_or_nonFinite (others w (by simp)) with ⟨_, _, rfl⟩ | infinite
          · cases none
          · exact infinite
        · rintro ⟨before, w, after, split, ⟨d, rfl, -⟩, rfl | ⟨key, values, column⟩⟩
          · cases split
          · cases column with
            | mk he under =>
                cases split
                exact ⟨_, he, allHaveKey_error.mpr ⟨_, _, after, rfl, rfl, _, under⟩⟩
      · refine ⟨fun _ => ⟨[], first, rest, rfl, infinite, .inl rfl⟩, fun _ => ?_⟩
        obtain ⟨d, rfl, -⟩ := infinite
        exact ⟨_, rfl⟩

/-! ### Merging -/

/-- A merge of samples that are no deeper than a bound succeeds exactly if no group below them
is stuck. -/
def Decided (below : List Value → Except Fault Fragment) (depth : Nat) : Prop :=
  ∀ vs, (∀ v ∈ vs, v.depth ≤ depth) → ((∃ f, below vs = .ok f) ↔ Clear vs)

/-- Samples without null are all present. -/
theorem present_eq_self (h : .null ∉ vs) : present vs = vs := by
  refine List.filter_eq_self.mpr fun v hv => ?_
  cases v with
  | null => exact absurd hv h
  | _ => rfl

/-- A field that is somewhere null is not merged any further. -/
theorem ofField_isOk (decided : Decided below depth) (bound : ∀ x ∈ values, x.depth ≤ depth) :
    (∃ f, ofField below key values = .ok f) ↔ (.null ∉ values → Clear values) := by
  have merged {tag : Tag} (common : commonClass? values = some tag) (notAny : tag ≠ .any) :
      (∃ f, (below values).map (named key) = .ok f) ↔ (.null ∉ values → Clear values) := by
    have full : .null ∉ values := fun null =>
      notAny ((commonClass?_eq_some.mp common).2 _ null).symm
    rw [exists_map_iff, decided values bound]
    exact ⟨fun h _ => h, fun h => h full⟩
  have passed (h : ∀ tag, commonClass? values = some tag → tag ≠ .object ∧ tag ≠ .array) :
      .null ∉ values → Clear values := fun full =>
    clear_of_class (by rwa [present_eq_self full])
  unfold ofField
  split
  · rename_i mixed
    exact ⟨fun _ => passed (by simp [mixed]), fun _ => ⟨_, rfl⟩⟩
  · rename_i common
    exact ⟨fun _ => passed (by simp [common]), fun _ => ⟨_, rfl⟩⟩
  · rename_i common
    exact merged common (by decide)
  · rename_i common
    exact merged common (by decide)
  · rename_i tag _ object array common
    refine ⟨fun _ => passed ?_, fun _ => ⟨_, rfl⟩⟩
    rintro _ found
    cases common.symm.trans found
    exact ⟨object, array⟩

/-- The fields of samples are merged if there are columns and each without null is merged. -/
theorem ofMaps_isOk (decided : Decided below depth) (bound : ∀ m ∈ maps, m.depth ≤ depth + 1) :
    (∃ fs, ofMaps below maps = .ok fs) ↔ (∃ cols, columns maps = .ok cols) ∧
      ∀ key values, Column maps key values → .null ∉ values → Clear values := by
  have under {key : Value} {values : List Value} (column : Column maps key values) :
      ∀ x ∈ values, x.depth ≤ depth := by
    intro x hx
    obtain ⟨m, hm, -, less⟩ := column.of_maps.2.2 x hx
    exact Nat.le_of_lt_succ (Nat.lt_of_lt_of_le less (bound m hm))
  simp only [ofMaps, bind_eq_ok]
  constructor
  · rintro ⟨fs, cols, hcols, h⟩
    refine ⟨⟨cols, hcols⟩, fun key values column => ?_⟩
    obtain ⟨f, hf⟩ := exists_mapM_iff.mp ⟨fs, h⟩ _ ((mem_columns hcols (key, values)).mpr column)
    exact (ofField_isOk decided (under column)).mp ⟨f, hf⟩
  · rintro ⟨⟨cols, hcols⟩, clear⟩
    have each : ∀ c ∈ cols, ∃ f, ofField below c.1 c.2 = .ok f := by
      intro c hc
      have column := (mem_columns hcols c).mp hc
      exact (ofField_isOk decided (under column)).mpr (clear _ _ column)
    obtain ⟨fs, hfs⟩ := exists_mapM_iff.mpr each
    exact ⟨fs, cols, hcols, hfs⟩

/-- Samples merge exactly if they are clear. -/
theorem ofPresent_isOk (decided : Decided below depth) (ne : present vs ≠ [])
    (bound : ∀ v ∈ vs, v.depth ≤ depth + 1) (nullable : Bool) :
    (∃ f, ofPresent below nullable (present vs) = .ok f) ↔ Clear vs := by
  have deep : ∀ v ∈ present vs, v.depth ≤ depth + 1 := fun v hv =>
    bound v (List.mem_filter.mp hv).1
  unfold ofPresent
  split
  · rename_i mixed
    exact ⟨fun _ => clear_of_class (by simp [mixed]), fun _ => ⟨_, rfl⟩⟩
  · rename_i common
    have same := (commonClass?_eq_some.mp common).2
    have stuck : (∃ cols, columns (present vs) = .ok cols) ↔ ¬ Stuck vs := by
      rw [exists_ok_iff, columns_error ne same, Stuck, and_iff_right same]
    rw [exists_bind_pure_iff, ofMaps_isOk decided deep, stuck, clear_maps ne same]
  · rename_i common
    have same := (commonClass?_eq_some.mp common).2
    have shallow : ∀ x ∈ allItems (present vs), x.depth ≤ depth := by
      intro x hx
      obtain ⟨kind, items, hv, hx⟩ := mem_allItems.mp hx
      have bound := deep _ hv
      rw [Value.depth, Nat.add_le_add_iff_right] at bound
      exact Value.depthOfAll_le.mp bound x hx
    rw [exists_bind_pure_iff, decided _ shallow, clear_arrays ne same]
  · rename_i tag object array common
    refine ⟨fun _ => clear_of_class ?_, fun _ => ⟨_, rfl⟩⟩
    rintro _ found
    cases common.symm.trans found
    exact ⟨object, array⟩

/-- **Samples are merged unless a group below them is stuck.** -/
theorem merge_isOk_iff (depth : Nat) : Decided (merge depth) depth := by
  induction depth with
  | zero =>
      intro vs bound
      cases vs with
      | nil => exact ⟨fun _ => clear_of_empty rfl, fun _ => ⟨_, rfl⟩⟩
      | cons v vs => exact absurd (bound v List.mem_cons_self) (Nat.not_le_of_lt v.depth_pos)
  | succ depth ih =>
      intro vs bound
      rw [merge]
      split
      · rename_i empty
        exact ⟨fun _ => clear_of_empty (List.isEmpty_iff.mp empty), fun _ => ⟨_, rfl⟩⟩
      · rename_i ne
        exact ofPresent_isOk ih (fun h => ne (List.isEmpty_iff.mpr h)) bound _

/-! ### Single values -/

theorem ofEntries_isOk :
    (∃ fs, ofEntries es = .ok fs) ↔ ∀ e ∈ es, ∃ f, ofValue e.2 = .ok f := by
  induction es with
  | nil => exact ⟨fun _ => by simp, fun _ => ⟨_, rfl⟩⟩
  | cons e es ih =>
      obtain ⟨key, v⟩ := e
      rw [ofEntries, List.forall_mem_cons, ← ih]
      cases ofValue v with
      | error fault => simp [bind, Except.bind]
      | ok f => cases ofEntries es <;> simp [bind, Except.bind]

theorem isNonFinite_map {kind : MapKind} : ¬ (Value.map kind es).IsNonFinite := by
  rintro ⟨d, ⟨⟩, -⟩

theorem ofValue_float (d : Double) : ofValue (.float d) =
    if d.isFinite then .ok { type := .number } else .error (.noFields (.float d)) := by
  by_cases finite : d.isFinite = true <;> simp [ofValue, Value.classify, finite]

/-- A value has a schema exactly if no group that is merged below it is stuck. -/
theorem ofValue_isOk (v : Value) : (∃ f, ofValue v = .ok f) ↔ Clear [v] := by
  have leaf {v : Value} (whole : present [v] = [v]) (object : v.classify ≠ .object)
      (array : v.classify ≠ .array) : Clear [v] := by
    refine clear_of_class fun tag common => ?_
    rw [whole] at common
    have same := (commonClass?_eq_some.mp common).2 v (by simp)
    exact same ▸ ⟨object, array⟩
  -- by induction on the value; only a map or a sequence merges what is inside it
  induction v using Value.nested_induction with
  | step v ih =>
      cases v with
      | null => exact ⟨fun _ => clear_of_empty rfl, fun _ => ⟨_, rfl⟩⟩
      | seq kind items =>
          have decided := merge_isOk_iff _ items (Value.depthOfAll_le.mp (Nat.le_refl _))
          have joined : allItems (present [.seq kind items]) = items := by
            simp [present, allItems, Value.isNull, Value.items?]
          have ne : present [.seq kind items] ≠ [] := List.cons_ne_nil _ _
          rw [ofValue, exists_bind_pure_iff, ofElements, decided,
            clear_arrays ne (List.forall_mem_singleton.mpr rfl), joined]
      | map kind es =>
          have calm : ¬ Stuck [.map kind es] := by
            rintro ⟨-, before, w, after, split, infinite, -⟩
            have mem : w ∈ [Value.map kind es] := by
              rw [show [Value.map kind es] = before ++ w :: after from split]
              simp
            exact isNonFinite_map (List.mem_singleton.mp mem ▸ infinite)
          have ne : present [.map kind es] ≠ [] := List.cons_ne_nil _ _
          rw [ofValue, exists_bind_pure_iff, ofEntries_isOk,
            clear_maps ne (List.forall_mem_singleton.mpr rfl)]
          constructor
          · intro values
            refine ⟨calm, fun key xs column _ => ?_⟩
            cases column with
            | mk he under =>
                cases under
                exact (ih _ (Value.value_mem_inside he)).mp (values _ he)
          · rintro ⟨-, clear⟩ ⟨key, x⟩ he
            refine (ih x (Value.value_mem_inside he)).mpr ?_
            cases x with
            | null => exact clear_of_empty rfl
            | _ => exact clear key _ (.mk he .nil) (by simp)
      | float d =>
          cases finite : d.isFinite with
          | true =>
              have number : (Value.float d).classify = .number := if_pos finite
              rw [ofValue_float, if_pos finite]
              exact ⟨fun _ => leaf rfl (by simp [number]) (by simp [number]), fun _ => ⟨_, rfl⟩⟩
          | false =>
              have object : (Value.float d).classify = .object := if_neg (by simp [finite])
              have stuck : Stuck [.float d] := ⟨List.forall_mem_singleton.mpr object,
                [], .float d, [], rfl, ⟨d, rfl, finite⟩, .inl rfl⟩
              rw [ofValue_float, if_neg (by simp [finite])]
              constructor
              · rintro ⟨_, ⟨⟩⟩
              · exact fun clear => absurd stuck (clear_iff.mp clear).1
      | _ =>
          refine ⟨fun _ => leaf rfl ?_ ?_, fun _ => ⟨_, rfl⟩⟩
          · simp [Value.classify]
          · simp [Value.classify]

/-! ### Faults -/

def Fault.found : Fault → Value
  | noFields v => v
  | noKeys v => v

/-- A fault is about a number in some samples that is not finite. -/
def Blames (vs : List Value) (fault : Fault) : Prop :=
  fault.found.IsNonFinite ∧ ∃ v ∈ vs, fault.found ∈ v.parts

/-- A fault about what stands in samples is one about the samples. -/
theorem FailsOnly.blames {α : Type} {result : Except Fault α} (h : FailsOnly (Blames ws) result)
    (inside : ∀ w ∈ ws, ∃ v ∈ vs, w ∈ v.parts) : FailsOnly (Blames vs) result := by
  intro fault fails
  obtain ⟨infinite, w, hw, part⟩ := h fault fails
  obtain ⟨v, hv, hw⟩ := inside w hw
  exact ⟨infinite, v, hv, Value.parts_trans hw part⟩

theorem entriesOf_blames (hv : v ∈ vs) (object : v.classify = .object) :
    FailsOnly (Blames vs) (entriesOf v) := by
  rcases map_or_nonFinite object with ⟨kind, es, rfl⟩ | infinite
  · exact .ok es
  · obtain ⟨d, rfl, notFinite⟩ := infinite
    exact .error ⟨⟨d, rfl, notFinite⟩, _, hv, Value.self_mem_parts _⟩

theorem allHaveKey_blames (sub : ws ⊆ vs) (same : ∀ w ∈ ws, w.classify = .object) :
    FailsOnly (Blames vs) (allHaveKey key ws) := by
  induction ws with
  | nil => exact .ok true
  | cons w ws ih =>
      obtain ⟨hw, sub⟩ := List.cons_subset.mp sub
      obtain ⟨object, same⟩ := List.forall_mem_cons.mp same
      refine .bind (entriesOf_blames hw object) fun es _ => ?_
      split
      · exact ih sub same
      · exact .ok false

theorem sharedEntries_blames (sub : ws ⊆ vs) (same : ∀ w ∈ ws, w.classify = .object) :
    FailsOnly (Blames vs) (sharedEntries ws es) := by
  induction es with
  | nil => exact .ok []
  | cons e es ih =>
      exact .bind (allHaveKey_blames sub same) fun _ _ => .bind ih fun _ _ => .ok _

theorem columns_blames (same : ∀ m ∈ maps, m.classify = .object) :
    FailsOnly (Blames maps) (columns maps) := by
  cases maps with
  | nil => exact .ok []
  | cons first rest =>
      obtain ⟨own, others⟩ := List.forall_mem_cons.mp same
      refine .bind (entriesOf_blames List.mem_cons_self own) fun es _ => ?_
      exact .bind (sharedEntries_blames (List.subset_cons_self _ _) others) fun _ _ => .ok _

/-- Faults of a merge are about its samples. -/
def Blaming (below : List Value → Except Fault Fragment) : Prop :=
  ∀ vs, FailsOnly (Blames vs) (below vs)

theorem ofField_blames (blaming : Blaming below) :
    FailsOnly (Blames values) (ofField below key values) := by
  unfold ofField
  split
  · exact .ok _
  · exact .ok _
  · exact (blaming values).map
  · exact (blaming values).map
  · exact .ok _

theorem ofMaps_blames (blaming : Blaming below) (same : ∀ m ∈ maps, m.classify = .object) :
    FailsOnly (Blames maps) (ofMaps below maps) := by
  refine .bind (columns_blames same) fun cols hcols => .mapM fun c hc => ?_
  refine FailsOnly.blames (ofField_blames blaming) fun x hx => ?_
  obtain ⟨m, hm, inside, -⟩ := ((mem_columns hcols c).mp hc).of_maps.2.2 x hx
  exact ⟨m, hm, Value.parts_of_inside inside (Value.self_mem_parts x)⟩

theorem ofPresent_blames (blaming : Blaming below) (nullable : Bool) :
    FailsOnly (Blames vs) (ofPresent below nullable vs) := by
  unfold ofPresent
  split
  · exact .ok _
  · rename_i common
    exact .bind (ofMaps_blames blaming (commonClass?_eq_some.mp common).2) fun _ _ => .ok _
  · refine .bind (FailsOnly.blames (blaming _) fun x hx => ?_) fun _ _ => .ok _
    obtain ⟨kind, items, hv, hx⟩ := mem_allItems.mp hx
    exact ⟨_, hv, Value.parts_of_inside hx (Value.self_mem_parts x)⟩
  · exact .ok _

/-- **A merge that fails names a number in its samples that is not finite.** -/
theorem merge_blames (depth : Nat) : Blaming (merge depth) := by
  induction depth with
  | zero => exact fun _ => .ok unknown
  | succ depth ih =>
      intro vs
      rw [merge]
      split
      · exact .ok unknown
      · refine FailsOnly.blames (ofPresent_blames ih _) fun v hv => ?_
        exact ⟨v, (List.mem_filter.mp hv).1, Value.self_mem_parts v⟩

theorem ofEntries_blames (h : ∀ e ∈ es, FailsOnly (Blames [v]) (ofValue e.2)) :
    FailsOnly (Blames [v]) (ofEntries es) := by
  induction es with
  | nil => exact .ok []
  | cons e es ih =>
      obtain ⟨first, others⟩ := List.forall_mem_cons.mp h
      exact .bind first fun _ _ => .bind (ih others) fun _ _ => .ok _

/-- A single value fails only for a number that is not finite, in one of its parts. -/
theorem ofValue_blames (v : Value) : FailsOnly (Blames [v]) (ofValue v) := by
  induction v using Value.nested_induction with
  | step v ih =>
      have below {u : Value} (hu : u ∈ v.inside) : ∃ w ∈ [v], u ∈ w.parts :=
        ⟨v, List.mem_singleton_self v, Value.parts_of_inside hu (Value.self_mem_parts u)⟩
      cases v with
      | seq kind items =>
          rw [ofValue]
          exact .bind (FailsOnly.blames (merge_blames _ items) fun x hx => below hx)
            fun _ _ => .ok _
      | map kind es =>
          rw [ofValue]
          refine .bind (ofEntries_blames fun e he => ?_) fun _ _ => .ok _
          have inside : e.2 ∈ (Value.map kind es).inside := Value.value_mem_inside he
          exact FailsOnly.blames (ih e.2 inside) (List.forall_mem_singleton.mpr (below inside))
      | float d =>
          rw [ofValue_float]
          split
          · exact .ok _
          · rename_i infinite
            exact .error ⟨⟨d, rfl, Bool.eq_false_iff.mpr infinite⟩, _, List.mem_singleton_self _,
              Value.self_mem_parts _⟩
      | _ => exact .ok _

/-! ### Totality -/

/-- A failure names a number in the value that is not finite. -/
theorem ofValue_error {fault : Fault} (h : ofValue v = .error fault) :
    fault.found.IsNonFinite ∧ fault.found ∈ v.parts := by
  obtain ⟨infinite, w, hw, part⟩ := ofValue_blames v fault h
  exact ⟨infinite, List.mem_singleton.mp hw ▸ part⟩

theorem exists_ofValue (finite : v.HasFiniteNumbers) : ∃ f, ofValue v = .ok f := by
  refine exists_ok_iff.mpr ?_
  rintro ⟨fault, fails⟩
  obtain ⟨⟨d, found, infinite⟩, part⟩ := ofValue_error fails
  rw [found] at part
  rw [finite d part] at infinite
  cases infinite

/-- **Which values have a schema.** A value has one unless a group of samples that is merged
below it meets a number that is not finite where a map is needed. A failure names such a number
in the value, so that every value with finite numbers has a schema. -/
theorem ofValue_isOk_iff (v : Value) :
    ((∃ f, ofValue v = .ok f) ↔ ∀ ws, Relation.ReflTransGen Below [v] ws → ¬ Stuck ws) ∧
      (∀ fault, ofValue v = .error fault → fault.found.IsNonFinite ∧ fault.found ∈ v.parts) ∧
      (v.HasFiniteNumbers → ∃ f, ofValue v = .ok f) :=
  ⟨ofValue_isOk v, fun _ => ofValue_error, exists_ofValue⟩

/-- A number that is not finite is passed over behind maps that share no key, and in a field
that is null elsewhere. -/
def shadowed : Value :=
  .list [.record [("a", .null), ("b", .list [.record [], .float .nan])],
    .record [("b", .list []), ("a", .float (.infinite false))]]

theorem ofValue_isOk_shadowed :
    ∀ ws, Relation.ReflTransGen Below [shadowed] ws → ¬ Stuck ws :=
  (ofValue_isOk_iff shadowed).1.mp ⟨_, rfl⟩

/-- The list of "not a number" is read from JSON text, and it has no schema. -/
theorem ofValue_not_total : ∃ v, convert Tag.array.name (.text "[NaN]") = .ok v ∧
    ∀ f, ofValue v ≠ .ok f :=
  ⟨.list [.float .nan], by rfl, nofun⟩

end Docsig.Fragment
