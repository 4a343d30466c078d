import Docsig.Proofs.JsonSchema.Admits
import Docsig.Proofs.Types.Validate

/-!
The schema of a definition against the validator.

Two readings of a definition say which arguments are right: the schema that it is
exported with, and the validator that runs on each argument. On JSON values they
agree, apart from buffers and pagination objects, which JSON text spells in other
ways.

* `Describes s p` is agreement of a schema with a parameter; `fields_sound` and
  `fields_complete` lift it from fields to their object.
* `ofParameter_describes` gives it for every tree of parameters.
* `Definition.issues_agree` is agreement on all arguments.

Only one direction is unconditional: a parameter of any type accepts null and so may
be missing, but a schema requires it. Completeness wants a default for it.
-/

namespace Docsig

variable {v : Value} {s : Schema} {p : Parameter} {ps : List Parameter} {tag : Tag}

/-! ### Terms of the agreement -/

/-- A type whose values JSON text spells as they are. -/
def Parameter.Plain (p : Parameter) : Prop :=
  p.type ≠ Tag.buffer.name ∧ p.type ≠ Tag.limit.name

/-- A parameter of any type has a default. -/
def Parameter.AnyDefaults (p : Parameter) : Prop :=
  p.type = Tag.any.name → p.hasDefault = true

/-- Whether the value that a parameter gets from some arguments is valid; a missing one
counts as null. -/
def Parameter.isValid (p : Parameter) (arguments : List (Value × Value)) : Bool :=
  validate (Tag.ofName? p.type) ((Value.field? p.name arguments).getD .null) p.hasDefault
    (Entry.ofNested p.schema? p.members?)

namespace Schema

/-- Agreement of a schema with a parameter on JSON values. -/
structure Describes (s : Schema) (p : Parameter) : Prop where
  sound : ∀ {v : Value}, v.IsJson → s.Admits v → (Entry.ofParameter p).accepts v = true
  complete : (∀ q ∈ p.entries, q.AnyDefaults) → ∀ {v : Value}, v.IsJson →
    (Entry.ofParameter p).accepts v = true → s.Admits v

/-! ### Objects -/

section Fields

variable {fs : List (String × Schema)} (names : (ps.map Parameter.name).Nodup)
  (fields : List.Forall₂ FieldOf ps fs)
  (agree : ∀ p ∈ ps, ∀ s, ofParameter p = .ok s → Describes s p) (json : v.IsJson)

include names fields agree json

/-- What the schema of some fields admits is a map that their entries accept. -/
theorem fields_sound (h : (ofFields fs (requiredNames ps)).Admits v) :
    Entry.fieldsAccept (ps.map Entry.ofParameter) v = true := by
  obtain ⟨es, rfl, admitted, required⟩ := (admits_ofFields (names_of_fields fields ▸ names)).mp h
  refine Entry.fieldsAccept_iff.mpr ⟨.dict, es, rfl, List.forall_mem_map.mpr fun p hp => ?_⟩
  obtain ⟨f, hf, name, described⟩ := exists_of_mem_left fields hp
  rw [Entry.ofParameter_name]
  cases found : Value.lookup? (.text p.name) es with
  | some x =>
      exact (agree p hp _ described).sound (json.lookup? found)
        (admitted f hf x (by rw [name]; exact found))
  | none =>
      -- A missing field is not required, so it has a default.
      refine Entry.accepts_null_of_default (Bool.of_not_eq_false fun lacking => ?_)
      have := required p.name (mem_requiredNames.mpr ⟨p, hp, lacking, rfl⟩)
      rw [Value.hasKey, found] at this
      cases this

/-- The schema of some fields admits the maps that their entries accept, if those of any
type have defaults. -/
theorem fields_complete (shaped : ∀ p ∈ ps, p.Shaped)
    (defaults : ∀ p ∈ ps, ∀ q ∈ p.entries, q.AnyDefaults)
    (h : Entry.fieldsAccept (ps.map Entry.ofParameter) v = true) :
    (ofFields fs (requiredNames ps)).Admits v := by
  obtain ⟨kind, es, rfl, accepted⟩ := Entry.fieldsAccept_iff.mp h
  obtain ⟨rfl, -⟩ := json.entries
  have accepted : ∀ p ∈ ps,
      (Entry.ofParameter p).accepts ((Value.field? p.name es).getD .null) = true := by
    intro p hp
    have := accepted _ (List.mem_map_of_mem hp)
    rwa [Entry.ofParameter_name] at this
  refine (admits_ofFields (names_of_fields fields ▸ names)).mpr ⟨es, rfl, ?_, ?_⟩
  · intro f hf x found
    obtain ⟨p, hp, name, described⟩ := exists_of_mem_right fields hf
    refine (agree p hp _ described).complete (defaults p hp) (json.lookup? found) ?_
    rw [name] at found
    simpa [found] using accepted p hp
  · intro name required
    obtain ⟨p, hp, lacking, rfl⟩ := mem_requiredNames.mp required
    rw [Value.hasKey, Option.isSome_iff_ne_none]
    intro missing
    -- a field that is missing counts as null, which is accepted only with a default or by any
    -- type
    have null : (Entry.ofParameter p).accepts .null = true := by
      simpa [Value.field?, missing] using accepted p hp
    have default : p.hasDefault = true := by
      rcases Entry.accepts_null (shaped p hp) null with default | any
      · exact default
      · exact defaults p hp p (self_mem_entries p) any
    rw [lacking] at default
    cases default

end Fields

/-! ### One parameter -/

/-- A default adds null to what a schema admits; any value includes it already. -/
theorem admits_finish :
    (finish p tag s).Admits v ↔
      s.Admits v ∨ p.hasDefault = true ∧ tag ≠ .any ∧ v = .null := by
  unfold finish
  split
  · rename_i null
    rw [Bool.and_eq_true_iff, bne_iff_ne] at null
    simp [admits_orNull, admits_described, null]
  · rename_i bare
    rw [Bool.and_eq_true_iff, bne_iff_ne, not_and] at bare
    rw [admits_described, or_iff_left]
    exact fun h => bare h.1 h.2.1

/-- Agreement without null is agreement. -/
theorem describes_of_bare (typed : p.type = tag.name)
    (any : tag = .any → ∀ v, s.Admits v)
    (sound : ∀ {v : Value}, v.IsJson → s.Admits v →
      validate (some tag) v false (Entry.ofNested p.schema? p.members?) = true)
    (complete : (∀ q ∈ p.entries, q.AnyDefaults) → ∀ {v : Value}, v.IsJson →
      validate (some tag) v false (Entry.ofNested p.schema? p.members?) = true → s.Admits v) :
    Describes (finish p tag s) p where
  sound := by
    intro v json h
    rw [Entry.ofParameter_accepts, typed, Tag.ofName?_name]
    rcases admits_finish.mp h with h | ⟨default, -, null⟩
    · exact validate_iff.mpr (.inr (sound json h))
    · exact validate_iff.mpr (.inl ⟨default, null⟩)
  complete := by
    intro defaults v json h
    rw [Entry.ofParameter_accepts, typed, Tag.ofName?_name] at h
    rcases validate_iff.mp h with ⟨default, null⟩ | h
    -- the schema of any value has no alternative, as it admits null by itself
    · by_cases isAny : tag = .any
      · exact admits_finish.mpr (.inl (any isAny v))
      · exact admits_finish.mpr (.inr ⟨default, isAny, null⟩)
    · exact admits_finish.mpr (.inl (complete defaults json h))

/-- An object of which no fields are known. -/
theorem admits_object (json : v.IsJson) :
    Admits [.kind .object] v ↔ Entry.fieldsAccept [] v = true := by
  rw [admits_kind, Entry.fieldsAccept]
  cases v with
  | map kind es => simp [json.entries.1, JsonKind.has, Value.isObject]
  | _ => simp [JsonKind.has, Value.isObject]

/-- An array of which no element is known. -/
theorem admits_array (json : v.IsJson) :
    Admits [.kind .array] v ↔ Entry.itemsAccept [] v = true := by
  rw [admits_kind, Entry.itemsAccept_nil]
  cases v with
  | seq kind items => simp [json.items.1, JsonKind.has, Value.isArray]
  | _ => simp [JsonKind.has, Value.isArray]

/-- The one schema of a type that is neither object nor array admits its values. -/
theorem admits_leaf (shape : p.Shaped) (plain : p.Plain) (typed : p.type = tag.name)
    (leaf : tag.hasSchema = false) (json : v.IsJson) :
    (ofTag none none ((p.members?.getD []).map Prod.fst) tag).Admits v ↔
      validate (some tag) v false (Entry.ofNested p.schema? p.members?) = true := by
  have kind {k : JsonKind} {b : Bool} (h : k.has v = b) :
      Admits [.kind k] v ↔ b = true := by rw [admits_kind, h]
  have finite : JsonKind.number.has v = v.isNumber := by
    cases v with
    | float d => exact (json _ (Value.self_mem_parts _)).symm
    | _ => rfl
  -- one case for each tag without a schema; bytes and pagination objects are excluded
  cases tag with
  | string =>
      rw [validate_string]
      exact kind (by cases v <;> rfl)
  | number =>
      rw [validate_number]
      exact kind finite
  | float =>
      rw [validate_float]
      exact kind finite
  | integer =>
      rw [validate_integer]
      exact admits_integer
  | boolean =>
      rw [validate_boolean]
      exact kind (by cases v <;> rfl)
  | any => simp [ofTag, admits_iff, validate_any]
  | enum =>
      rw [validate_enum, Entry.ofNested_enum shape typed, Entry.hasLabel_iff]
      exact admits_enum
  | query =>
      rw [validate_query, Entry.ofNested_other shape (by rw [typed]; decide),
        shape.schema?_eq_none typed rfl]
      exact admits_object json
  | buffer => exact absurd typed plain.1
  | limit => exact absurd typed plain.2
  | object => cases leaf
  | array => cases leaf

/-! ### Containers -/

section Containers

variable (shaped : ∀ q ∈ p.entries, q.Shaped)
  (below : ∀ ps, p.schema? = some ps → ∀ q ∈ ps, ∀ t, ofParameter q = .ok t → Describes t q)

include shaped below

/-- An object agrees if its fields do. -/
theorem describes_object {fields : Option Schema} (typed : p.type = Tag.object.name)
    (h : fieldsOf p.schema? = .ok fields) :
    Describes (finish p .object (ofTag fields none [] .object)) p := by
  have shape : p.Shaped := shaped p (self_mem_entries p)
  have nested := Entry.ofNested_other shape (by rw [typed]; decide)
  -- an object without fields admits every object
  rcases fieldsOf_ok.mp h with ⟨empty, rfl⟩ | ⟨ps, fs, hps, -, hfs, rfl⟩
  · refine describes_of_bare typed nofun ?_ ?_
    all_goals rw [nested, empty]
    all_goals simp only [validate_object]
    · exact fun json => (admits_object json).mp
    · exact fun _ _ json => (admits_object json).mpr
  · have names := shape.distinct ps hps
    refine describes_of_bare typed nofun ?_ ?_
    all_goals rw [nested, hps, Option.getD_some]
    all_goals simp only [validate_object]
    · exact fields_sound names hfs (below ps hps)
    · intro defaults v json
      exact fields_complete names hfs (below ps hps) json
        (fun q hq => shaped q (entries_of_field hps hq (self_mem_entries q)))
        (fun q hq r hr => defaults r (entries_of_field hps hq hr))

/-- An array agrees if its element does. -/
theorem describes_array {element : Option Schema} (typed : p.type = Tag.array.name)
    (h : elementOf p.schema? = .ok element) :
    Describes (finish p .array (ofTag none element [] .array)) p := by
  have shape : p.Shaped := shaped p (self_mem_entries p)
  have nested := Entry.ofNested_other shape (by rw [typed]; decide)
  -- an array without an entry admits every array
  rcases elementOf_ok.mp h with ⟨empty, rfl⟩ | ⟨q, ps, t, hps, ht, rfl⟩
  · refine describes_of_bare typed nofun ?_ ?_
    all_goals rw [nested, empty]
    all_goals simp only [validate_array]
    · exact fun json => (admits_array json).mp
    · exact fun _ _ json => (admits_array json).mpr
  · have hq : q ∈ q :: ps := by simp
    have agree := below _ hps q hq t ht
    obtain rfl : ps = [] := by simpa using shape.single _ hps typed
    refine describes_of_bare typed nofun ?_ ?_
    all_goals rw [nested, hps, Option.getD_some]
    all_goals simp only [validate_array, List.map_cons, List.map_nil]
    · intro v json h
      obtain ⟨items, rfl, admitted⟩ := admits_items.mp h
      exact Entry.itemsAccept_iff.mpr ⟨.list, items, rfl, fun x hx =>
        agree.sound (json.items.2 x hx) (admitted x hx)⟩
    · intro defaults v json h
      obtain ⟨kind, items, rfl, accepted⟩ := Entry.itemsAccept_iff.mp h
      obtain rfl := json.items.1
      exact admits_items.mpr ⟨items, rfl, fun x hx =>
        agree.complete (fun r hr => defaults r (entries_of_field hps hq hr))
          (json.items.2 x hx) (accepted x hx)⟩

end Containers

/-- **A parameter's schema agrees with its validator**, for every tree of fields. -/
theorem ofParameter_describes (shaped : ∀ q ∈ p.entries, q.Shaped)
    (plain : ∀ q ∈ p.entries, q.Plain) (hs : ofParameter p = .ok s) : Describes s p := by
  -- by induction on the parameter: what holds of the entries below it carries over to its
  -- fields
  induction p using Parameter.nested_induction generalizing s with
  | step p ih =>
      have below : ∀ ps, p.schema? = some ps → ∀ q ∈ ps, ∀ t, ofParameter q = .ok t →
          Describes t q := fun ps hps q hq t ht =>
        ih ps hps q hq (fun r hr => shaped r (entries_of_field hps hq hr))
          (fun r hr => plain r (entries_of_field hps hq hr)) ht
      have shape : p.Shaped := shaped p (self_mem_entries p)
      obtain ⟨tag, typed⟩ := Tag.exists_of_isName shape.registered
      cases container : tag.hasSchema with
      | false =>
          rw [ofParameter_leaf typed container] at hs
          cases hs
          have leaf {v : Value} (json : v.IsJson) :=
            admits_leaf shape (plain p (self_mem_entries p)) typed container json
          refine describes_of_bare typed ?_ (fun json => (leaf json).mp)
            (fun _ _ json => (leaf json).mpr)
          rintro rfl v
          simp [ofTag, admits_iff]
      | true =>
          rcases Tag.hasSchema_iff.mp container with rfl | rfl
          · rw [ofParameter_object typed] at hs
            obtain ⟨fields, hfields, hs⟩ := bind_eq_ok.mp hs
            cases hs
            exact describes_object shaped below typed hfields
          · rw [ofParameter_array typed] at hs
            obtain ⟨element, helement, hs⟩ := bind_eq_ok.mp hs
            cases hs
            exact describes_array shaped below typed helement

end Schema

/-! ### All arguments -/

/-- Some arguments are accepted as the fields of one object if each parameter's is
valid. -/
theorem fieldsAccept_arguments {arguments : List (Value × Value)} :
    Entry.fieldsAccept (ps.map Entry.ofParameter) (.dict arguments) = true ↔
      ∀ p ∈ ps, p.isValid arguments = true := by
  rw [Entry.fieldsAccept_iff]
  constructor
  · rintro ⟨_, _, ⟨⟩, accepted⟩ p hp
    have := accepted _ (List.mem_map_of_mem hp)
    rwa [Entry.ofParameter_name, Entry.ofParameter_accepts] at this
  · intro valid
    refine ⟨.dict, arguments, rfl, List.forall_mem_map.mpr fun p hp => ?_⟩
    rw [Entry.ofParameter_name, Entry.ofParameter_accepts]
    exact valid p hp

/-- **The schema of a definition finds no issue exactly where the validator accepts every
argument**: without issues all arguments are valid, and valid arguments raise no issue
if whatever is of any type has a default. -/
theorem Definition.issues_agree {d : Definition} {arguments : List (Value × Value)}
    (names : (d.params.map Parameter.name).Nodup)
    (shaped : ∀ q ∈ allEntries d.params, q.Shaped)
    (plain : ∀ q ∈ allEntries d.params, q.Plain) (json : (Value.dict arguments).IsJson) :
    ∃ issues, d.issues (.dict arguments) = .ok issues ∧
      (issues = [] → ∀ p ∈ d.params, p.isValid arguments = true) ∧
      ((∀ q ∈ allEntries d.params, q.AnyDefaults) →
        (∀ p ∈ d.params, p.isValid arguments = true) → issues = []) := by
  obtain ⟨fs, fields, described⟩ := Schema.ofDefinition_ok names shaped
  -- every parameter agrees with its schema, so that the object of all of them does
  have agree : ∀ p ∈ d.params, ∀ s, Schema.ofParameter p = .ok s → Schema.Describes s p :=
    fun p hp s hs => Schema.ofParameter_describes
      (fun q hq => shaped q (entries_of_mem hp hq))
      (fun q hq => plain q (entries_of_mem hp hq)) hs
  refine ⟨_, bind_eq_ok.mpr ⟨_, described, rfl⟩, ?_, ?_⟩
  · intro none
    rw [Schema.issues_eq_nil, Schema.admits_described, Schema.admits_dialect] at none
    exact fieldsAccept_arguments.mp (Schema.fields_sound names fields agree json none)
  · intro defaults valid
    rw [Schema.issues_eq_nil, Schema.admits_described, Schema.admits_dialect]
    exact Schema.fields_complete names fields agree json
      (fun p hp => shaped p (entries_of_mem hp (self_mem_entries p)))
      (fun p hp q hq => defaults q (entries_of_mem hp hq))
      (fieldsAccept_arguments.mpr valid)

/-- A definition with an object of an optional enumeration and an array. -/
def searchDefinition : Definition where
  pathname := "search"
  params :=
    [{ name := "filter", type := "object",
       schema? := some
         [{ name := "state", type := "enum", default? := some .null,
            members? := some [("new", .int 0), ("old", .int 1)] },
          { name := "ids", type := "array",
            schema? := some [{ name := "id", type := "integer" }] }] },
     { name := "depth", type := "number", default? := some (.int 10) }]

/-- Arguments for it, without the optional ones. -/
def searchArguments : List (Value × Value) :=
  [(.text "filter",
    .record [("ids", .list [.int 1, .float (.finite false 1 1)])])]

theorem Definition.issues_agree_search :
    ∃ issues, searchDefinition.issues (.dict searchArguments) = .ok issues ∧
      (issues = [] → ∀ p ∈ searchDefinition.params, p.isValid searchArguments = true) ∧
      ((∀ q ∈ allEntries searchDefinition.params, q.AnyDefaults) →
        (∀ p ∈ searchDefinition.params, p.isValid searchArguments = true) → issues = []) := by
  have shaped : ∀ q ∈ allEntries searchDefinition.params, q.Shaped := by
    intro q hq
    simp only [searchDefinition, allEntries, Parameter.entries, schemaEntries, List.cons_append,
      List.nil_append, List.mem_cons, List.not_mem_nil, or_false] at hq
    rcases hq with rfl | rfl | rfl | rfl | rfl
    all_goals
      constructor
      all_goals simp [Tag.name]
      decide
  have plain : ∀ q ∈ allEntries searchDefinition.params, q.Plain := by
    unfold Parameter.Plain
    decide
  exact Definition.issues_agree (by decide) shaped plain (by decide)

end Docsig
