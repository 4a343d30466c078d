import Docsig.Proofs.Types.Introspect
import Mathlib.Data.List.Perm.Basic

/-!
Inferred schemas and the order of samples.

A merge looks at its samples one after the other: the fields of an object stand in the
order of the first map, and the samples of fields are those of the first value. All else
depends on which samples there are. `Alike` says that two fragments agree but for samples and
for the order of the fields of objects, at every depth; as the order of what is merged
below changes with that of the samples, the statement of the induction over the depth
(`Steady`) is about any rearrangement of any samples.

* `columns_perm`: rearranged maps share the same keys.
* `merge_perm`: rearranged samples are merged into fragments that are alike.
* `ofValue_perm`: so are the schemas of rearranged arrays.
-/

namespace Docsig

/-- Every key of every map in a value is a text. -/
def Value.HasTextKeys (v : Value) : Prop :=
  ∀ kind es, map kind es ∈ v.parts → ∀ e ∈ es, e.1.text?.isSome = true

theorem Value.HasTextKeys.inside {u v : Value} (h : v.HasTextKeys) (hu : u ∈ v.inside) :
    u.HasTextKeys :=
  fun kind es hes => h kind es (parts_of_inside hu hes)

namespace Fragment

/-! ### Fragments that are alike -/

/-- Two fragments agree in all but their schemas and samples. -/
structure SameHead (f g : Fragment) : Prop where
  type : f.type = g.type
  name : f.name? = g.name?
  nullable : f.nullable = g.nullable

/-- Two fragments agree at every depth, whatever their samples are; the fields of an object
may stand in another order. -/
inductive Alike : Fragment → Fragment → Prop
  | leaf {f g : Fragment} : SameHead f g → f.schema? = none → g.schema? = none → Alike f g
  | array {f g d e : Fragment} : SameHead f g → f.type = .array → f.schema? = some [d] →
      g.schema? = some [e] → Alike d e → Alike f g
  | object {f g : Fragment} {fs gs hs : List Fragment} : SameHead f g → f.type = .object →
      f.schema? = some fs → g.schema? = some gs → gs.Perm hs → List.Forall₂ Alike fs hs →
      Alike f g

variable {below : List Value → Except Fault Fragment} {f g : Fragment}
  {vs ws maps maps' values values' : List Value}

theorem Alike.head (h : f.Alike g) : SameHead f g := by
  cases h with
  | leaf head => exact head
  | array head => exact head
  | object head => exact head

theorem Alike.unknown : unknown.Alike unknown := .leaf ⟨rfl, rfl, rfl⟩ rfl rfl

/-- Fragments that are alike stay so under one name. -/
theorem Alike.named (h : f.Alike g) (key : Value) : (named key f).Alike (named key g) := by
  have head : SameHead (Fragment.named key f) (Fragment.named key g) :=
    ⟨h.head.type, rfl, h.head.nullable⟩
  cases h with
  | leaf _ hf hg => exact .leaf head hf hg
  | array _ type hf hg element => exact .array head type hf hg element
  | object _ type hf hg perm fields => exact .object head type hf hg perm fields

/-! ### Rearranged samples -/

/-- Samples whose maps have text keys, no two of them equal, and that hold finite numbers. -/
structure Regular (vs : List Value) : Prop where
  finite : ∀ v ∈ vs, v.HasFiniteNumbers
  distinct : ∀ v ∈ vs, v.HasDistinctKeys
  texts : ∀ v ∈ vs, v.HasTextKeys

theorem Regular.perm (h : Regular vs) (perm : vs.Perm ws) : Regular ws where
  finite := fun v hv => h.finite v (perm.mem_iff.mpr hv)
  distinct := fun v hv => h.distinct v (perm.mem_iff.mpr hv)
  texts := fun v hv => h.texts v (perm.mem_iff.mpr hv)

/-- What stands in regular samples is regular. -/
theorem Regular.inside (h : Regular vs) (inside : ∀ w ∈ ws, ∃ v ∈ vs, w ∈ v.inside) :
    Regular ws := by
  refine ⟨fun w hw => ?_, fun w hw => ?_, fun w hw => ?_⟩
  all_goals obtain ⟨v, hv, hw⟩ := inside w hw
  · exact (h.finite v hv).inside hw
  · exact (h.distinct v hv).inside hw
  · exact (h.texts v hv).inside hw

theorem Regular.under (h : Regular maps) (key : Value) : Regular (valuesUnder key maps) := by
  apply h.inside
  intro x hx
  obtain ⟨kind, es, hm, found⟩ := mem_valuesUnder.mp hx
  obtain ⟨k, he, -⟩ := Value.mem_of_lookup? found
  exact ⟨_, hm, Value.value_mem_inside he⟩

theorem Regular.items (h : Regular vs) : Regular (allItems vs) := by
  apply h.inside
  intro x hx
  obtain ⟨kind, items, hw, hx⟩ := mem_allItems.mp hx
  exact ⟨_, hw, hx⟩

/-- The class that values share does not depend on their order. -/
theorem commonClass?_perm (perm : vs.Perm ws) : commonClass? vs = commonClass? ws := by
  have ne : vs ≠ [] ↔ ws ≠ [] :=
    not_congr ⟨fun h => (h ▸ perm).nil_eq.symm, fun h => (h ▸ perm).eq_nil⟩
  have all : ∀ tag, (∀ v ∈ vs, v.classify = tag) ↔ ∀ w ∈ ws, w.classify = tag := by
    intro tag
    constructor
    · exact fun h w hw => h w (perm.mem_iff.mpr hw)
    · exact fun h v hv => h v (perm.mem_iff.mp hv)
  refine Option.ext fun tag => ?_
  rw [commonClass?_eq_some, commonClass?_eq_some, ne, all]

theorem depthOfAll_perm (perm : vs.Perm ws) : Value.depthOfAll vs = Value.depthOfAll ws := by
  have le : ∀ {xs ys : List Value}, xs.Perm ys → Value.depthOfAll xs ≤ Value.depthOfAll ys := by
    intro xs ys perm
    apply Value.depthOfAll_le.mpr
    intro x hx
    exact Value.depthOfAll_le.mp (Nat.le_refl _) x (perm.mem_iff.mp hx)
  exact Nat.le_antisymm (le perm) (le perm.symm)

/-! ### Keys -/

/-- Of maps with text keys, one has a key exactly if it has an entry under it. -/
theorem hasKey_iff {key : Value} {es : List (Value × Value)}
    (texts : ∀ e ∈ es, e.1.text?.isSome = true) :
    Value.hasKey key es = true ↔ key ∈ es.map Prod.fst := by
  rw [Value.hasKey, Option.isSome_iff_exists]
  constructor
  · rintro ⟨x, found⟩
    obtain ⟨k, he, same⟩ := Value.mem_of_lookup? found
    obtain ⟨s, hs⟩ := Option.isSome_iff_exists.mp (texts _ he)
    cases k with
    | text t =>
        rw [Value.text_same_iff.mp same]
        exact List.mem_map_of_mem he
    | _ => cases hs
  · intro h
    obtain ⟨⟨k, x⟩, he, rfl⟩ := List.mem_map.mp h
    obtain ⟨s, hs⟩ := Option.isSome_iff_exists.mp (texts _ he)
    cases k with
    | text t =>
        exact Option.isSome_iff_exists.mp (Value.hasKey_of_mem he (Value.same_text_iff.mpr rfl))
    | _ => cases hs

/-- The columns of some maps stand under keys that differ from each other, and these are the
keys that every map has. -/
theorem columns_spec (regular : Regular maps) (ne : maps ≠ [])
    (areMaps : ∀ m ∈ maps, ∃ kind es, m = .map kind es) :
    ∃ keys : List Value, columns maps = .ok (keys.map fun key => (key, valuesUnder key maps)) ∧
      keys.Nodup ∧ ∀ key, key ∈ keys ↔ ∀ m ∈ maps, sampleHas key m = true := by
  cases maps with
  | nil => exact absurd rfl ne
  | cons first rest =>
      obtain ⟨⟨kind, es, rfl⟩, others⟩ := List.forall_mem_cons.mp areMaps
      have texts := regular.texts _ List.mem_cons_self kind es (Value.self_mem_parts _)
      have distinct := regular.distinct _ List.mem_cons_self kind es (Value.self_mem_parts _)
      have finite := regular.finite _ List.mem_cons_self
      -- keys that the language takes for different are different values
      have nodup : (es.map Prod.fst).Nodup := by
        refine List.pairwise_map.mpr (distinct.imp_of_mem fun {e e'} he _ differ same => ?_)
        have inside : e.1 ∈ (Value.map kind es).inside := Value.key_mem_inside he
        have self := (finite.inside inside).same_self
        rw [← same, self] at differ
        cases differ
      refine ⟨_, columns_eq others finite distinct, nodup.filter _, fun key => ?_⟩
      rw [List.mem_filter, List.forall_mem_cons, List.all_eq_true, ← hasKey_iff texts]
      rfl

/-- **Rearranged maps share the same keys.** -/
theorem columns_perm (regular : Regular maps) (perm : maps.Perm maps') (ne : maps ≠ [])
    (areMaps : ∀ m ∈ maps, ∃ kind es, m = .map kind es) :
    ∃ keys keys' : List Value,
      columns maps = .ok (keys.map fun key => (key, valuesUnder key maps)) ∧
      columns maps' = .ok (keys'.map fun key => (key, valuesUnder key maps')) ∧
      keys'.Perm keys := by
  have ne' : maps' ≠ [] := fun h => ne (h ▸ perm).eq_nil
  have areMaps' : ∀ m ∈ maps', ∃ kind es, m = .map kind es :=
    fun m hm => areMaps m (perm.mem_iff.mpr hm)
  obtain ⟨keys, hkeys, nodup, mem⟩ := columns_spec regular ne areMaps
  obtain ⟨keys', hkeys', nodup', mem'⟩ := columns_spec (regular.perm perm) ne' areMaps'
  refine ⟨keys, keys', hkeys, hkeys', (List.perm_ext_iff_of_nodup nodup' nodup).mpr fun key => ?_⟩
  rw [mem, mem']
  constructor
  · exact fun h m hm => h m (perm.mem_iff.mp hm)
  · exact fun h m hm => h m (perm.mem_iff.mpr hm)

/-! ### Merging -/

/-- A merge does not depend on the order of its samples. -/
def Steady (below : List Value → Except Fault Fragment) : Prop :=
  ∀ vs ws f g, Regular vs → vs.Perm ws → below vs = .ok f → below ws = .ok g → f.Alike g

/-- A field of rearranged samples is the same up to its sample and the order below it. -/
theorem ofField_perm (steady : Steady below) {key : Value} (regular : Regular values)
    (perm : values.Perm values') (hf : ofField below key values = .ok f)
    (hg : ofField below key values' = .ok g) : f.Alike g := by
  have merged : (below values).map (named key) = .ok f →
      (below values').map (named key) = .ok g → f.Alike g := by
    intro hf hg
    obtain ⟨m, hm, rfl⟩ := map_eq_ok.mp hf
    obtain ⟨m', hm', rfl⟩ := map_eq_ok.mp hg
    exact (steady _ _ m m' regular perm hm hm').named key
  rw [ofField] at hf hg
  rw [← commonClass?_perm perm] at hg
  cases common : commonClass? values with
  | none =>
      rw [common] at hf hg
      cases hf
      cases hg
      have null : values.any Value.isNull = values'.any Value.isNull := by
        rw [Bool.eq_iff_iff, List.any_eq_true, List.any_eq_true]
        constructor
        · exact fun ⟨x, hx, h⟩ => ⟨x, perm.mem_iff.mp hx, h⟩
        · exact fun ⟨x, hx, h⟩ => ⟨x, perm.mem_iff.mpr hx, h⟩
      exact .leaf ⟨rfl, rfl, null⟩ rfl rfl
  | some tag =>
      rw [common] at hf hg
      cases tag with
      | any =>
          cases hf
          cases hg
          exact Alike.unknown.named key
      | object => exact merged hf hg
      | array => exact merged hf hg
      | _ =>
          cases hf
          cases hg
          exact .leaf ⟨rfl, rfl, rfl⟩ rfl rfl

/-- The fields of rearranged maps are alike, up to their order. -/
theorem ofMaps_perm (steady : Steady below) (regular : Regular maps) (perm : maps.Perm maps')
    (ne : maps ≠ []) (areMaps : ∀ m ∈ maps, ∃ kind es, m = .map kind es)
    {fs gs : List Fragment} (hf : ofMaps below maps = .ok fs) (hg : ofMaps below maps' = .ok gs) :
    ∃ hs, gs.Perm hs ∧ List.Forall₂ Alike fs hs := by
  obtain ⟨keys, keys', hkeys, hkeys', same⟩ := columns_perm regular perm ne areMaps
  rw [ofMaps, hkeys, ok_bind, List.mapM_map] at hf
  rw [ofMaps, hkeys', ok_bind, List.mapM_map] at hg
  obtain ⟨hs, paired, rearranged⟩ := List.perm_comp_forall₂ same.symm (mapM_eq_ok.mp hg)
  refine ⟨hs, rearranged.symm, ?_⟩
  have fields := mapM_eq_ok.mp hf
  -- the fields pair off with the keys, which both orders share
  clear hf hg hkeys hkeys' same rearranged
  induction fields generalizing hs with
  | nil =>
      cases paired
      exact .nil
  | @cons key f _ _ first _ ih =>
      cases paired with
      | cons first' others =>
          refine .cons ?_ (ih _ others)
          exact ofField_perm steady (regular.under key) (perm.filterMap _) first first'

/-- Rearranged samples merge alike. -/
theorem ofPresent_perm (steady : Steady below) {nullable : Bool} (regular : Regular vs)
    (perm : vs.Perm ws) (hf : ofPresent below nullable vs = .ok f)
    (hg : ofPresent below nullable ws = .ok g) : f.Alike g := by
  rw [ofPresent] at hf hg
  rw [← commonClass?_perm perm] at hg
  cases common : commonClass? vs with
  | none =>
      rw [common] at hf hg
      cases hf
      cases hg
      exact .leaf ⟨rfl, rfl, rfl⟩ rfl rfl
  | some tag =>
      rw [common] at hf hg
      cases tag with
      | object =>
          obtain ⟨fs, hfs, ⟨⟩⟩ := bind_eq_ok.mp hf
          obtain ⟨gs, hgs, ⟨⟩⟩ := bind_eq_ok.mp hg
          obtain ⟨ne, same⟩ := commonClass?_eq_some.mp common
          have areMaps : ∀ m ∈ vs, ∃ kind es, m = .map kind es := fun m hm =>
            map_of_classify (regular.finite m hm) (same m hm)
          obtain ⟨hs, rearranged, alike⟩ := ofMaps_perm steady regular perm ne areMaps hfs hgs
          exact .object ⟨rfl, rfl, rfl⟩ rfl rfl rfl rearranged alike
      | array =>
          obtain ⟨d, hd, ⟨⟩⟩ := bind_eq_ok.mp hf
          obtain ⟨e, he, ⟨⟩⟩ := bind_eq_ok.mp hg
          have alike := steady _ _ d e regular.items (perm.flatMap_right _) hd he
          exact .array ⟨rfl, rfl, rfl⟩ rfl rfl rfl alike
      | _ =>
          cases hf
          cases hg
          exact .leaf ⟨rfl, rfl, rfl⟩ rfl rfl

/-- **Rearranged samples are merged into fragments that are alike.** -/
theorem merge_perm (depth : Nat) : Steady (merge depth) := by
  induction depth with
  | zero =>
      intro vs ws f g _ _ hf hg
      cases hf
      cases hg
      exact .unknown
  | succ depth ih =>
      intro vs ws f g regular perm hf hg
      have present := perm.filter fun v => !v.isNull
      have sub : Regular (vs.filter fun v => !v.isNull) :=
        ⟨fun v hv => regular.finite v (List.mem_filter.mp hv).1,
          fun v hv => regular.distinct v (List.mem_filter.mp hv).1,
          fun v hv => regular.texts v (List.mem_filter.mp hv).1⟩
      simp only [merge] at hf hg
      rw [← present.length_eq, ← perm.length_eq, ← present.isEmpty_eq] at hg
      split at hf
      · rename_i none
        rw [if_pos none] at hg
        cases hf
        cases hg
        exact .unknown
      · rename_i some
        rw [if_neg some] at hg
        exact ofPresent_perm ih sub present hf hg

/-! ### Arrays -/

/-- **The schema of an array does not depend on the order of its elements**, but for the
samples and for the order in which the fields of objects are listed. -/
theorem ofValue_perm {kind : SeqKind} (perm : vs.Perm ws)
    (finite : (Value.seq kind vs).HasFiniteNumbers) (distinct : (Value.seq kind vs).HasDistinctKeys)
    (texts : (Value.seq kind vs).HasTextKeys) :
    ∃ f g, ofValue (.seq kind vs) = .ok f ∧ ofValue (.seq kind ws) = .ok g ∧ f.Alike g := by
  have regular : Regular vs := ⟨fun v hv => finite.inside hv, fun v hv => distinct.inside hv,
    fun v hv => texts.inside hv⟩
  have regular' : Regular ws := regular.perm perm
  obtain ⟨d, hd, -⟩ := ofElements_admits regular.finite regular.distinct
  obtain ⟨e, he, -⟩ := ofElements_admits regular'.finite regular'.distinct
  refine ⟨_, _, by rw [ofValue, hd, ok_bind]; rfl, by rw [ofValue, he, ok_bind]; rfl, ?_⟩
  have same := depthOfAll_perm perm
  rw [ofElements] at hd he
  rw [← same] at he
  exact .array ⟨rfl, rfl, rfl⟩ rfl rfl rfl (merge_perm _ _ _ d e regular perm hd he)

/-- Maps with their fields in different orders, and null between them. -/
def shuffled : List Value :=
  [.record [("id", .int 1), ("tags", .list [.text "a", .null])], .null,
    .record [("tags", .list [.bool true]), ("more", .null), ("id", .null)]]

theorem ofValue_perm_shuffled : shuffled.Perm shuffled.reverse ∧
    ∃ f g, ofValue (.list shuffled) = .ok f ∧ ofValue (.list shuffled.reverse) = .ok g ∧
      f.Alike g := by
  refine ⟨(List.reverse_perm _).symm, ofValue_perm (List.reverse_perm _).symm ?_ ?_ ?_⟩
  · intro d hd
    simp [shuffled, Value.record, Value.parts, Value.partsOfItems, Value.partsOfEntries] at hd
  · intro kind es hes
    simp [shuffled, Value.record, Value.parts, Value.partsOfItems, Value.partsOfEntries] at hes
    rcases hes with ⟨-, rfl⟩ | ⟨-, rfl⟩
    all_goals simp [Value.DistinctKeys, Value.same, Value.sameScalar]
  · intro kind es hes
    simp [shuffled, Value.record, Value.parts, Value.partsOfItems, Value.partsOfEntries] at hes
    rcases hes with ⟨-, rfl⟩ | ⟨-, rfl⟩
    all_goals simp [Value.text?]

end Fragment

end Docsig
