import Docsig.JsonSchema.Describe
import Docsig.Proofs.Definition.Entries
import Docsig.Proofs.Result

/-!
Schemas that descriptions have.

A parameter whose entries have the shape that `EntryShape` asks for has a schema,
and so has a definition whose parameters differ in their names.

* `fieldsOf_ok` opens the schema of an object, `ofParameters_ok` that of its fields.
* `ofFields_eq`: where names differ, no field takes the place of another.
* `ofParameter_ok`, `ofDefinition_ok`: the schema exists and requires no name twice.
-/

namespace Docsig.Schema

variable {p : Parameter} {ps : List Parameter} {tag : Tag}

/-! ### Objects -/

theorem distinct_iff {names : List String} : distinct names = true ↔ names.Nodup := by
  induction names with
  | nil => simp [distinct]
  | cons name names ih => simp [distinct, ih]

theorem requiredNames_nodup (h : (ps.map Parameter.name).Nodup) : (requiredNames ps).Nodup :=
  h.sublist (List.filter_sublist.map _)

/-- What is required are the parameters without a default. -/
theorem mem_requiredNames {name : String} :
    name ∈ requiredNames ps ↔ ∃ p ∈ ps, p.hasDefault = false ∧ p.name = name := by
  simp [requiredNames, and_assoc]

/-- A field under a new name goes to the end. -/
theorem putField_new {name : String} {schema : Schema} {fields : List (String × Schema)}
    (new : name ∉ fields.map Prod.fst) :
    putField name schema fields = fields ++ [(name, schema)] := by
  induction fields with
  | nil => rfl
  | cons field fields ih =>
      obtain ⟨other, old⟩ := field
      rw [List.map_cons, List.mem_cons, not_or] at new
      rw [putField, if_neg (by simpa using Ne.symm new.1), ih new.2, List.cons_append]

/-- Fields of different names are kept in their order. -/
theorem foldl_putField {fields : List (String × Schema)} :
    ∀ {before : List (String × Schema)}, ((before ++ fields).map Prod.fst).Nodup →
      fields.foldl (fun fs (name, schema) => putField name schema fs) before
        = before ++ fields := by
  -- by induction on the fields that are still to come; the names before them are others
  induction fields with
  | nil => simp
  | cons field fields ih =>
      intro before nodup
      obtain ⟨name, schema⟩ := field
      have new : name ∉ before.map Prod.fst := by
        rw [List.map_append, List.map_cons] at nodup
        intro mem
        exact (List.nodup_append.mp nodup).2.2 name mem name (by simp) rfl
      rw [List.append_cons] at nodup ⊢
      rw [List.foldl_cons]
      change fields.foldl _ (putField name schema before) = _
      rw [putField_new new]
      exact ih nodup

/-- Fields of different names stand in the schema of their object as they are. -/
theorem ofFields_eq {fields : List (String × Schema)} {required : List String}
    (nodup : (fields.map Prod.fst).Nodup) :
    ofFields fields required = [.kind .object, .properties fields, .required required] := by
  rw [ofFields, foldl_putField (by simpa using nodup), List.nil_append]

/-- A schema belongs to a parameter as its field. -/
def FieldOf (p : Parameter) (field : String × Schema) : Prop :=
  field.1 = p.name ∧ ofParameter p = .ok field.2

/-- Each parameter has the schema under its name. -/
theorem ofParameters_ok {fields : List (String × Schema)} :
    ofParameters ps = .ok fields ↔ List.Forall₂ FieldOf ps fields := by
  induction ps generalizing fields with
  | nil => cases fields <;> simp [ofParameters]
  | cons p ps ih =>
      rw [ofParameters, bind_eq_ok]
      constructor
      · rintro ⟨schema, hp, h⟩
        obtain ⟨rest, hrest, h⟩ := bind_eq_ok.mp h
        cases h
        exact .cons ⟨rfl, hp⟩ (ih.mp hrest)
      · intro h
        cases h with
        | @cons _ field _ rest hp hrest =>
            obtain ⟨name, schema⟩ := field
            obtain ⟨rfl, hp⟩ := hp
            exact ⟨schema, hp, bind_eq_ok.mpr ⟨rest, ih.mpr hrest, rfl⟩⟩

/-- The fields of a schema have the names of the parameters. -/
theorem names_of_fields {fields : List (String × Schema)}
    (h : List.Forall₂ FieldOf ps fields) : fields.map Prod.fst = ps.map Parameter.name := by
  induction h with
  | nil => rfl
  | cons field _ ih => rw [List.map_cons, List.map_cons, field.1, ih]

/-- The schema of an object is that of its fields, if it has any. -/
theorem fieldsOf_ok {schema? : Option (List Parameter)} {fields : Option Schema} :
    fieldsOf schema? = .ok fields ↔
      schema?.getD [] = [] ∧ fields = none ∨
        ∃ ps fs, schema? = some ps ∧ ps ≠ [] ∧ List.Forall₂ FieldOf ps fs ∧
          fields = some (ofFields fs (requiredNames ps)) := by
  rcases schema? with - | (- | ⟨p, ps⟩)
  · simp [fieldsOf, eq_comm]
  · simp [fieldsOf, eq_comm]
  · rw [fieldsOf, bind_eq_ok]
    constructor
    · rintro ⟨schema, hp, h⟩
      obtain ⟨rest, hrest, h⟩ := bind_eq_ok.mp h
      cases h
      exact .inr ⟨p :: ps, (p.name, schema) :: rest, rfl, List.cons_ne_nil _ _,
        .cons ⟨rfl, hp⟩ (ofParameters_ok.mp hrest), rfl⟩
    · rintro (⟨h, -⟩ | ⟨_, fs, ⟨⟩, -, h, rfl⟩)
      · cases h
      · cases h with
        | @cons _ field _ rest hp hrest =>
            obtain ⟨name, schema⟩ := field
            obtain ⟨rfl, hp⟩ := hp
            exact ⟨schema, hp, bind_eq_ok.mpr ⟨rest, ofParameters_ok.mpr hrest, rfl⟩⟩

/-- The schema of an array's elements is that of the first entry. -/
theorem elementOf_ok {schema? : Option (List Parameter)} {element : Option Schema} :
    elementOf schema? = .ok element ↔
      schema?.getD [] = [] ∧ element = none ∨
        ∃ p ps s, schema? = some (p :: ps) ∧ ofParameter p = .ok s ∧ element = some s := by
  rcases schema? with - | (- | ⟨p, ps⟩)
  · simp [elementOf, eq_comm]
  · simp [elementOf, eq_comm]
  · rw [elementOf, bind_eq_ok]
    constructor
    · rintro ⟨s, hs, h⟩
      cases h
      exact .inr ⟨p, ps, s, rfl, hs, rfl⟩
    · rintro (⟨h, -⟩ | ⟨_, _, s, ⟨⟩, hs, rfl⟩)
      · cases h
      · exact ⟨s, hs, rfl⟩

/-! ### One parameter -/

theorem ofParameter_object (h : p.type = Tag.object.name) :
    ofParameter p = do
      let fields ← fieldsOf p.schema?
      return finish p .object (ofTag fields none [] .object) := by
  cases p
  subst h
  rw [ofParameter, Tag.ofName?_name]

theorem ofParameter_array (h : p.type = Tag.array.name) :
    ofParameter p = do
      let element ← elementOf p.schema?
      return finish p .array (ofTag none element [] .array) := by
  cases p
  subst h
  rw [ofParameter, Tag.ofName?_name]

/-- A parameter that is neither object nor array has a schema in any case. -/
theorem ofParameter_leaf (h : p.type = tag.name) (leaf : tag.hasSchema = false) :
    ofParameter p =
      .ok (finish p tag (ofTag none none ((p.members?.getD []).map Prod.fst) tag)) := by
  cases p
  subst h
  rw [ofParameter, Tag.ofName?_name]
  cases tag with
  | object => cases leaf
  | array => cases leaf
  | _ => rfl

/-! ### Existence -/

theorem isWellFormed_append {s t : Schema} :
    isWellFormed (s ++ t) = (isWellFormed s && isWellFormed t) := by
  induction s with
  | nil => simp [isWellFormed]
  | cons k ks ih => simp [isWellFormed, ih, Bool.and_assoc]

theorem described_wellFormed {s : Schema} {description : String} (h : isWellFormed s = true) :
    isWellFormed (described s description) = true := by
  unfold described
  split
  · exact h
  · rw [isWellFormed_append, h]
    rfl

/-- A description and the alternative of null keep a schema well-formed. -/
theorem finish_wellFormed {s : Schema} (h : isWellFormed s = true) :
    isWellFormed (finish p tag s) = true := by
  have inner : isWellFormed (described s p.description) = true := described_wellFormed h
  unfold finish
  split
  · simp [orNull, isWellFormed, keywordOk, allOk, inner]
  · exact inner

theorem fieldsOk_iff {fields : List (String × Schema)} :
    fieldsOk fields = true ↔ ∀ field ∈ fields, isWellFormed field.2 = true := by
  induction fields with
  | nil => simp [fieldsOk]
  | cons field fields ih =>
      obtain ⟨name, schema⟩ := field
      simp [fieldsOk, ih]

/-- An object requires no name twice if the names of its fields differ. -/
theorem ofFields_wellFormed {fs : List (String × Schema)} (names : (ps.map Parameter.name).Nodup)
    (fields : List.Forall₂ FieldOf ps fs) (ok : ∀ f ∈ fs, isWellFormed f.2 = true) :
    isWellFormed (ofFields fs (requiredNames ps)) = true := by
  rw [ofFields_eq (names_of_fields fields ▸ names)]
  simp [isWellFormed, keywordOk, fieldsOk_iff.mpr ok,
    distinct_iff.mpr (requiredNames_nodup names)]

/-- A type that is neither object nor array has one fixed schema. -/
theorem ofTag_wellFormed {labels : List String} :
    isWellFormed (ofTag none none labels tag) = true := by
  cases tag with
  | buffer =>
      show isWellFormed [.oneOf [byteList, byteText]] = true
      decide
  | limit =>
      show isWellFormed limit = true
      decide
  | _ => rfl

/-- Some parameters that each have a schema have the schemas of fields. -/
theorem ofParameters_exists (h : ∀ p ∈ ps, ∃ s, ofParameter p = .ok s ∧ isWellFormed s = true) :
    ∃ fs, List.Forall₂ FieldOf ps fs ∧ ∀ f ∈ fs, isWellFormed f.2 = true := by
  induction ps with
  | nil => exact ⟨[], .nil, by simp⟩
  | cons p ps ih =>
      obtain ⟨s, hs, ok⟩ := h p (by simp)
      obtain ⟨fs, fields, oks⟩ := ih fun q hq => h q (by simp [hq])
      exact ⟨(p.name, s) :: fs, .cons ⟨rfl, hs⟩ fields, List.forall_mem_cons.mpr ⟨ok, oks⟩⟩

section Nested

variable {schema? : Option (List Parameter)}
  (below : ∀ ps, schema? = some ps → ∀ q ∈ ps, ∃ s, ofParameter q = .ok s ∧ isWellFormed s = true)

include below

/-- An object has a schema if its fields have. -/
theorem fieldsOf_exists (distinct : ∀ ps, schema? = some ps → (ps.map Parameter.name).Nodup) :
    ∃ fields, fieldsOf schema? = .ok fields ∧
      isWellFormed (ofTag fields none [] .object) = true := by
  rcases schema? with - | (- | ⟨p, ps⟩)
  · exact ⟨none, rfl, rfl⟩
  · exact ⟨none, rfl, rfl⟩
  · obtain ⟨fs, fields, oks⟩ := ofParameters_exists (below _ rfl)
    exact ⟨_, fieldsOf_ok.mpr (.inr ⟨_, fs, rfl, List.cons_ne_nil _ _, fields, rfl⟩),
      ofFields_wellFormed (distinct _ rfl) fields oks⟩

/-- An array has a schema if its element has. -/
theorem elementOf_exists :
    ∃ element, elementOf schema? = .ok element ∧
      isWellFormed (ofTag none element [] .array) = true := by
  rcases schema? with - | (- | ⟨p, ps⟩)
  · exact ⟨none, rfl, rfl⟩
  · exact ⟨none, rfl, rfl⟩
  · obtain ⟨s, hs, ok⟩ := below _ rfl p (by simp)
    refine ⟨some s, elementOf_ok.mpr (.inr ⟨p, ps, s, rfl, hs, rfl⟩), ?_⟩
    simp [ofTag, isWellFormed, keywordOk, ok]

end Nested

/-- **A parameter of the right shape has a schema**, and this requires no name
twice. -/
theorem ofParameter_ok (shaped : ∀ q ∈ p.entries, q.Shaped) :
    ∃ s, ofParameter p = .ok s ∧ isWellFormed s = true := by
  -- by induction on the parameter: the schemas below it exist and are well-formed
  induction p using Parameter.nested_induction with
  | step p ih =>
      have below : ∀ ps, p.schema? = some ps → ∀ q ∈ ps,
          ∃ s, ofParameter q = .ok s ∧ isWellFormed s = true := fun ps hps q hq =>
        ih ps hps q hq fun r hr => shaped r (entries_of_field hps hq hr)
      have shape : p.Shaped := shaped p (self_mem_entries p)
      obtain ⟨tag, typed⟩ := Tag.exists_of_isName shape.registered
      cases container : tag.hasSchema with
      | false => exact ⟨_, ofParameter_leaf typed container, finish_wellFormed ofTag_wellFormed⟩
      | true =>
          rcases Tag.hasSchema_iff.mp container with rfl | rfl
          · obtain ⟨fields, hfields, ok⟩ := fieldsOf_exists below shape.distinct
            rw [ofParameter_object typed]
            exact ⟨_, bind_eq_ok.mpr ⟨fields, hfields, rfl⟩, finish_wellFormed ok⟩
          · obtain ⟨element, helement, ok⟩ := elementOf_exists below
            rw [ofParameter_array typed]
            exact ⟨_, bind_eq_ok.mpr ⟨element, helement, rfl⟩, finish_wellFormed ok⟩

/-! ### The definition -/

/-- **A definition of the right shape has a schema**: that of its parameters as the
fields of one object. -/
theorem ofDefinition_ok {d : Definition} (names : (d.params.map Parameter.name).Nodup)
    (shaped : ∀ q ∈ allEntries d.params, q.Shaped) :
    ∃ fs, List.Forall₂ FieldOf d.params fs ∧
      ofDefinition d = .ok
        (described (.dialect dialect :: ofFields fs (requiredNames d.params)) d.description) := by
  obtain ⟨fs, fields, oks⟩ := ofParameters_exists fun p hp =>
    ofParameter_ok fun q hq => shaped q (entries_of_mem hp hq)
  refine ⟨fs, fields, bind_eq_ok.mpr ⟨fs, ofParameters_ok.mpr fields, ?_⟩⟩
  have ok : isWellFormed (.dialect dialect :: ofFields fs (requiredNames d.params)) = true := by
    simp [isWellFormed, keywordOk, ofFields_wellFormed names fields oks]
  simp [described_wellFormed ok]

end Docsig.Schema
