import Docsig.Definition.Basic
import Docsig.Types.Tag
import Mathlib.Data.List.Nodup

/-!
Parameters as trees.

`Parameter.entries` lists a parameter and all that is nested in it, each before
its own fields, so that a property at every depth is a property of the members of
a list. `EntryShape` and `EntryForm` say what the type, the schema and the members
of one entry have to do with each other: the first is what the type engine relies
on, the second is all that reading a source guarantees.

* `mem_entries` opens one level of a tree.
* `Parameter.nested_induction` is induction over the fields of a parameter.
-/

namespace Docsig

/-! ### Everything nested in a parameter -/

mutual

def Parameter.entries : Parameter → List Parameter
  | ⟨name, type, description, default?, schema?, members?⟩ =>
      ⟨name, type, description, default?, schema?, members?⟩ :: schemaEntries schema?

def schemaEntries : Option (List Parameter) → List Parameter
  | some ps => allEntries ps
  | none => []

def allEntries : List Parameter → List Parameter
  | [] => []
  | p :: ps => p.entries ++ allEntries ps

end

theorem Parameter.entries_eq (p : Parameter) : p.entries = p :: schemaEntries p.schema? := by
  cases p; rfl

theorem mem_allEntries {ps : List Parameter} {q : Parameter} :
    q ∈ allEntries ps ↔ ∃ p ∈ ps, q ∈ p.entries := by
  induction ps with
  | nil => simp [allEntries]
  | cons p ps ih => simp [allEntries, ih]

theorem mem_schemaEntries {schema? : Option (List Parameter)} {q : Parameter} :
    q ∈ schemaEntries schema? ↔ ∃ ps, schema? = some ps ∧ ∃ p ∈ ps, q ∈ p.entries := by
  cases schema? with
  | none => simp [schemaEntries]
  | some ps => simp [schemaEntries, mem_allEntries]

/-- An entry of a parameter is the parameter itself or an entry of one of its
fields. -/
theorem mem_entries {p q : Parameter} :
    q ∈ p.entries ↔ q = p ∨ ∃ ps, p.schema? = some ps ∧ ∃ f ∈ ps, q ∈ f.entries := by
  rw [p.entries_eq, List.mem_cons, mem_schemaEntries]

/-- A parameter is one of its entries. -/
theorem self_mem_entries (p : Parameter) : p ∈ p.entries := mem_entries.mpr (.inl rfl)

/-- What stands in a field stands in the parameter. -/
theorem entries_of_field {p f q : Parameter} {ps : List Parameter} (hps : p.schema? = some ps)
    (hf : f ∈ ps) (hq : q ∈ f.entries) : q ∈ p.entries :=
  mem_entries.mpr (.inr ⟨ps, hps, f, hf, hq⟩)

/-- What stands in one of some parameters stands in them all. -/
theorem entries_of_mem {p q : Parameter} {ps : List Parameter} (hp : p ∈ ps)
    (hq : q ∈ p.entries) : q ∈ allEntries ps :=
  mem_allEntries.mpr ⟨p, hp, hq⟩

/-- A property of parameters that goes up from the fields holds of all. -/
theorem Parameter.nested_induction {motive : Parameter → Prop}
    (step : ∀ p, (∀ ps, p.schema? = some ps → ∀ q ∈ ps, motive q) → motive p) (p : Parameter) :
    motive p :=
  step p fun _ _ q _ => nested_induction step q
termination_by sizeOf p
decreasing_by
  rename_i ps hps hq
  have := List.sizeOf_lt_of_mem hq
  cases p
  simp only [mk.sizeOf_spec]
  simp only at hps
  rw [hps]
  simp only [Option.some.sizeOf_spec]
  omega

/-- The same, where a missing schema counts as one without fields. -/
theorem Parameter.fields_induction {motive : Parameter → Prop}
    (step : ∀ p, (∀ q ∈ p.schema?.getD [], motive q) → motive p) (p : Parameter) : motive p := by
  induction p using nested_induction with
  | step p ih =>
      refine step p fun q hq => ?_
      cases schema : p.schema? with
      | none => rw [schema] at hq; cases hq
      | some ps => rw [schema] at hq; exact ih ps schema q hq

/-! ### Names of tags -/

namespace Tag

theorem ofName?_name (t : Tag) : ofName? t.name = some t := by
  cases t <;> decide

theorem name_of_ofName? {s : String} {t : Tag} (h : ofName? s = some t) : s = t.name := by
  have := List.find?_some h
  exact (beq_iff_eq.mp this).symm

/-- Different tags have different names. -/
theorem name_injective : Function.Injective name := by
  intro a b h
  have := ofName?_name a
  rw [h, ofName?_name] at this
  exact (Option.some.inj this).symm

@[simp] theorem name_inj {a b : Tag} : a.name = b.name ↔ a = b := name_injective.eq_iff

theorem isName_name (t : Tag) : isName t.name = true := by
  rw [isName, ofName?_name]; rfl

/-- A registered name is the name of a tag. -/
theorem exists_of_isName {s : String} (h : isName s = true) : ∃ t : Tag, s = t.name := by
  obtain ⟨t, ht⟩ := Option.isSome_iff_exists.mp h
  exact ⟨t, name_of_ofName? ht⟩

/-- Only objects and arrays have a schema. -/
theorem hasSchema_iff {t : Tag} : t.hasSchema = true ↔ t = .object ∨ t = .array := by
  cases t <;> decide

end Tag

/-! ### The shape of one entry -/

section Shape

variable (type : String) (schema? : Option (List Parameter))
  (members? : Option (List (String × Value)))

/-- What the type engine relies on in one entry. -/
structure EntryShape : Prop where
  registered : Tag.isName type = true
  /-- Only objects and arrays have a schema. -/
  container : ∀ ps, schema? = some ps → type = Tag.object.name ∨ type = Tag.array.name
  /-- The schema of an array is the one entry of its elements. -/
  single : ∀ ps, schema? = some ps → type = Tag.array.name → ps.length = 1
  distinct : ∀ ps, schema? = some ps → (ps.map Parameter.name).Nodup
  /-- A nested entry has the default null or none. -/
  defaults : ∀ ps, schema? = some ps → ∀ q ∈ ps, q.default? = none ∨ q.default? = some .null
  /-- Only enumerations have members. -/
  enumeration : ∀ ms, members? = some ms → type = Tag.enum.name

/-- What reading a source guarantees of one entry. -/
structure EntryForm : Prop extends EntryShape type schema? members? where
  schema_ne_nil : schema? ≠ some []
  /-- Every enumeration has members. -/
  enumerated : type = Tag.enum.name → members?.isSome = true
  members_ne_nil : members? ≠ some []
  labels : ∀ ms, members? = some ms → (ms.map Prod.fst).Nodup

end Shape

/-- `EntryShape` of a parameter's own parts. -/
def Parameter.Shaped (p : Parameter) : Prop := EntryShape p.type p.schema? p.members?

/-- What is neither object nor array has no schema. -/
theorem Parameter.Shaped.schema?_eq_none {p : Parameter} {tag : Tag} (shape : p.Shaped)
    (typed : p.type = tag.name) (leaf : tag.hasSchema = false) : p.schema? = none := by
  cases h : p.schema? with
  | none => rfl
  | some ps =>
      have container := shape.container ps h
      rw [typed, Tag.name_inj, Tag.name_inj] at container
      rw [Tag.hasSchema_iff.mpr container] at leaf
      cases leaf

/-- What is no enumeration has no members. -/
theorem Parameter.Shaped.members?_eq_none {p : Parameter} (shape : p.Shaped)
    (other : p.type ≠ Tag.enum.name) : p.members? = none := by
  cases h : p.members? with
  | none => rfl
  | some ms => exact absurd (shape.enumeration ms h) other

/-- `EntryForm` of a parameter's own parts. -/
def Parameter.Formed (p : Parameter) : Prop := EntryForm p.type p.schema? p.members?

end Docsig
