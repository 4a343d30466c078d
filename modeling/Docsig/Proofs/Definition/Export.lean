import Docsig.Proofs.Definition.Entries
import Docsig.Proofs.Types.Convert

/-!
The exported text of a definition says all of it.

A definition is exported as a record. Records are told apart by their fields: `get?` of a
record reads a field back, so that equal records have equal fields, and what is stored in
a definition is found in them at every depth.

* `Definition.Exportable` are the definitions whose stored values JSON text keeps.
* `Definition.Holds.toValue`: what all values of a definition have, and lists and records
  keep, its record has. So the record is one that JSON text keeps.
* `Parameter.eq_of_toValue`, `ReturnSpec.eq_of_toValue`, `Definition.eq_of_toValue`: parts
  with one record are one.
* `Definition.export_lossless` puts these together with the round trip of JSON text.
-/

namespace Docsig

/-! ### Records -/

namespace Value

variable {name other : String} {v : Value} {v? : Option Value} {fields : List (String × Value)}

def get? (name : String) : Value → Option Value
  | map _ es => field? name es
  | _ => none

@[simp] theorem get?_record_nil : (record []).get? name = none := rfl

@[simp] theorem get?_record_cons : (record ((other, v) :: fields)).get? name =
    if other = name then some v else (record fields).get? name := by
  simp [record, get?, field?, lookup?, same, sameScalar]

@[simp] theorem get?_record_optional : (record (optionalField other v? ++ fields)).get? name =
    if other = name then v?.or ((record fields).get? name) else (record fields).get? name := by
  cases v? <;> simp [optionalField]

@[simp] theorem get?_record_last : (record (optionalField other v?)).get? name =
    if other = name then v? else none := by
  cases v? <;> simp [optionalField]

/-- Records whose fields differ keep what JSON text keeps. -/
theorem IsPlain.record (names : (fields.map Prod.fst).Nodup) (h : ∀ f ∈ fields, f.2.IsPlain) :
    (record fields).IsPlain := by
  refine .node (Bool.and_eq_true_iff.mpr ⟨?_, decide_eq_true ?_⟩) fun u hu => ?_
  · simp [text?]
  · refine List.pairwise_map.mpr ((List.pairwise_map.mp names).imp fun differ => ?_)
    simpa [same, sameScalar] using differ
  · obtain ⟨e, he, hu⟩ := List.mem_flatMap.mp hu
    obtain ⟨f, hf, rfl⟩ := List.mem_map.mp he
    simp only [List.mem_cons, List.not_mem_nil, or_false] at hu
    rcases hu with rfl | rfl
    · exact .node rfl (by simp [Value.inside])
    · exact h f hf

theorem IsPlain.list {xs : List Value} (h : ∀ x ∈ xs, x.IsPlain) : (list xs).IsPlain :=
  .node rfl h

theorem IsPlain.text (s : String) : (text s).IsPlain := .node rfl (by simp [Value.inside])

theorem IsPlain.int (n : Int) : (int n).IsPlain := .node rfl (by simp [Value.inside])

end Value

theorem optionalField_names (name : String) (v? : Option Value) :
    ((optionalField name v?).map Prod.fst).Sublist [name] := by
  cases v? <;> simp [optionalField]

theorem mem_optionalField {name : String} {v? : Option Value} {f : String × Value} :
    f ∈ optionalField name v? ↔ ∃ v, v? = some v ∧ f = (name, v) := by
  cases v? <;> simp [optionalField]

theorem parameterValues_eq (ps : List Parameter) :
    parameterValues ps = ps.map Parameter.toValue := by
  induction ps with
  | nil => rfl
  | cons p ps ih => rw [parameterValues, ih, List.map_cons]

/-! ### Stored values -/

/-- A value that is stored as definitions store it, and that JSON text keeps. -/
structure Value.IsStored (v : Value) : Prop where
  plain : v.IsPlain
  frozen : v.IsFrozen

/-- The default and the values of the members of one entry are stored values. -/
structure EntryStored (default? : Option Value) (members? : Option (List (String × Value))) :
    Prop where
  default : ∀ v, default? = some v → v.IsStored
  members : ∀ ms, members? = some ms → ∀ m ∈ ms, m.2.IsStored

/-- `EntryStored` of a parameter's own parts. -/
def Parameter.Stored (p : Parameter) : Prop := EntryStored p.default? p.members?

/-- What JSON text keeps of a definition: its defaults and members hold nothing but null,
truth values, integers, texts, and sequences and maps of them with text keys, frozen as
they are whenever a definition is made. -/
structure Definition.Exportable (d : Definition) : Prop where
  params : ∀ q ∈ allEntries d.params, q.Stored
  returns : EntryStored d.returns.default? d.returns.members?
  returned : ∀ q ∈ schemaEntries d.returns.schema?, q.Stored

/-! ### Exported records -/

section Records

variable {P : Value → Prop} {default? : Option Value} {members? : Option (List (String × Value))}

/-- A property that lists and records have when what stands in them has it. -/
structure Value.Composes (P : Value → Prop) : Prop where
  null : P null
  int (n : Int) : P (int n)
  text (s : String) : P (text s)
  list {xs : List Value} : (∀ x ∈ xs, P x) → P (list xs)
  record {fields : List (String × Value)} :
    (fields.map Prod.fst).Nodup → (∀ f ∈ fields, P f.2) → P (record fields)

/-- The default and the values of the members of one entry have a property in open form. -/
structure EntryHolds (P : Value → Prop) (default? : Option Value)
    (members? : Option (List (String × Value))) : Prop where
  default : ∀ v, default? = some v → P v.thaw
  members : ∀ ms, members? = some ms → ∀ m ∈ ms, P m.2.thaw

/-- `EntryHolds` of a parameter's own parts. -/
def Parameter.Holds (P : Value → Prop) (p : Parameter) : Prop :=
  EntryHolds P p.default? p.members?

/-- All values in a definition have a property in open form. -/
structure Definition.Holds (P : Value → Prop) (d : Definition) : Prop where
  params : ∀ q ∈ allEntries d.params, q.Holds P
  returns : EntryHolds P d.returns.default? d.returns.members?
  returned : ∀ q ∈ schemaEntries d.returns.schema?, q.Holds P

theorem EntryHolds.membersValue (hP : Value.Composes P) (h : EntryHolds P default? members?) {ms}
    (hms : members? = some ms) : P (membersValue ms) := by
  refine hP.list fun x hx => ?_
  obtain ⟨m, hm, rfl⟩ := List.mem_map.mp hx
  refine hP.list fun y hy => ?_
  simp only [List.mem_cons, List.not_mem_nil, or_false] at hy
  rcases hy with rfl | rfl
  · exact hP.text m.1
  · exact h.members ms hms m hm

/-- Optional fields have a property if their values have it. -/
theorem optionalField_forall {name : String} {v? : Option Value} (h : ∀ v, v? = some v → P v) :
    ∀ f ∈ optionalField name v?, P f.2 := by
  intro f hf
  obtain ⟨v, hv, rfl⟩ := mem_optionalField.mp hf
  exact h v hv

/-- The fields that parameters and return values share. -/
def sharedFields (default? : Option Value) (schema? : Option (List Parameter))
    (members? : Option (List (String × Value))) : List (String × Value) :=
  optionalField "defaultValue" (default?.map Value.thaw) ++
    (optionalField "schema" (schemaValue? schema?) ++
      optionalField "members" (members?.map membersValue))

/-- The exported form of a parameter: what it always has, and then what it shares with a return
value. -/
theorem Parameter.toValue_eq (p : Parameter) : p.toValue =
    .record ([("name", .text p.name), ("type", .text p.type),
      ("description", .text p.description)] ++ sharedFields p.default? p.schema? p.members?) := by
  cases p
  simp [toValue, sharedFields]

theorem ReturnSpec.toValue_eq (r : ReturnSpec) : r.toValue =
    .record ([("type", .text r.type), ("description", .text r.description)] ++
      (optionalField "name" (r.name?.map .text) ++
        sharedFields r.default? r.schema? r.members?)) := by
  simp [toValue, sharedFields]

/-- The shared fields have different names. -/
theorem sharedFields_names (default? : Option Value) (schema? : Option (List Parameter))
    (members? : Option (List (String × Value))) :
    ((sharedFields default? schema? members?).map Prod.fst).Sublist
      ["defaultValue", "schema", "members"] := by
  rw [sharedFields, List.map_append, List.map_append]
  exact (optionalField_names _ _).append
    ((optionalField_names _ _).append (optionalField_names _ _))

/-- The fields of an entry have a property if the records of its schema have it. -/
theorem EntryHolds.sharedFields (hP : Value.Composes P) {schema? : Option (List Parameter)}
    (h : EntryHolds P default? members?)
    (schema : ∀ ps, schema? = some ps → ∀ q ∈ ps, P q.toValue) :
    ∀ f ∈ sharedFields default? schema? members?, P f.2 := by
  intro f hf
  rcases List.mem_append.mp hf with hf | hf
  · refine optionalField_forall (fun v hv => ?_) f hf
    obtain ⟨u, hu, rfl⟩ := Option.map_eq_some_iff.mp hv
    exact h.default u hu
  rcases List.mem_append.mp hf with hf | hf
  · refine optionalField_forall (fun v hv => ?_) f hf
    cases schema? with
    | none => cases hv
    | some ps =>
        cases hv
        rw [parameterValues_eq]
        exact hP.list fun x hx => by
          obtain ⟨q, hq, rfl⟩ := List.mem_map.mp hx
          exact schema ps rfl q hq
  · refine optionalField_forall (fun v hv => ?_) f hf
    obtain ⟨ms, hms, rfl⟩ := Option.map_eq_some_iff.mp hv
    exact h.membersValue hP hms

/-- The record of a parameter has a property if its values at every depth have it. -/
theorem Parameter.toValue_holds (hP : Value.Composes P) (p : Parameter)
    (h : ∀ q ∈ p.entries, q.Holds P) : P p.toValue := by
  induction p using Parameter.nested_induction with
  | step p ih =>
      have own : p.Holds P := h p (self_mem_entries p)
      have fields := own.sharedFields hP fun ps hps q hq =>
        ih ps hps q hq fun e he => h e (entries_of_field hps hq he)
      rw [toValue_eq]
      refine hP.record ?_ fun f hf => ?_
      · rw [List.map_append]
        exact ((List.Sublist.refl _).append (sharedFields_names _ _ _)).nodup (by simp)
      · rcases List.mem_append.mp hf with hf | hf
        · simp only [List.mem_cons, List.not_mem_nil, or_false] at hf
          rcases hf with rfl | rfl | rfl <;> exact hP.text _
        · exact fields f hf

/-- What holds of the values of a return specification holds of its exported form. -/
theorem ReturnSpec.toValue_holds (hP : Value.Composes P) (r : ReturnSpec)
    (own : EntryHolds P r.default? r.members?)
    (below : ∀ q ∈ schemaEntries r.schema?, q.Holds P) : P r.toValue := by
  have records : ∀ ps, r.schema? = some ps → ∀ q ∈ ps, P q.toValue := by
    intro ps hps q hq
    exact q.toValue_holds hP fun e he => below e (mem_schemaEntries.mpr ⟨ps, hps, q, hq, he⟩)
  have fields := own.sharedFields hP records
  rw [toValue_eq]
  refine hP.record ?_ fun f hf => ?_
  · rw [List.map_append, List.map_append]
    exact ((List.Sublist.refl _).append
      ((optionalField_names _ _).append (sharedFields_names _ _ _))).nodup (by simp)
  · rcases List.mem_append.mp hf with hf | hf
    · simp only [List.mem_cons, List.not_mem_nil, or_false] at hf
      rcases hf with rfl | rfl <;> exact hP.text _
    · rcases List.mem_append.mp hf with hf | hf
      · refine optionalField_forall (fun v hv => ?_) f hf
        obtain ⟨s, -, rfl⟩ := Option.map_eq_some_iff.mp hv
        exact hP.text s
      · exact fields f hf

theorem Context.toValue_holds (hP : Value.Composes P) (c : Context) : P c.toValue := by
  refine hP.record (by simp) fun f hf => ?_
  simp only [List.mem_cons, List.not_mem_nil, or_false] at hf
  rcases hf with rfl | rfl | rfl
  · exact hP.text _
  · exact hP.int _
  · exact hP.int _

/-- **The record of a definition has a property if its values have it** and records keep it. -/
theorem Definition.Holds.toValue (hP : Value.Composes P) {d : Definition} (h : d.Holds P) :
    P d.toValue := by
  refine hP.record (by simp) fun f hf => ?_
  simp only [List.mem_cons, List.not_mem_nil, or_false] at hf
  -- one case for each field, in the order of the export
  rcases hf with rfl | rfl | rfl | rfl | rfl | rfl | rfl
  · exact hP.text _
  · exact hP.text _
  · cases h : d.context? with
    | none => exact hP.null
    | some c => exact c.toValue_holds hP
  · exact d.returns.toValue_holds hP h.returns h.returned
  · exact hP.int _
  · exact hP.list fun x hx => by
      obtain ⟨key, -, rfl⟩ := List.mem_map.mp hx
      exact hP.text key
  · rw [parameterValues_eq]
    exact hP.list fun x hx => by
      obtain ⟨p, hp, rfl⟩ := List.mem_map.mp hx
      exact p.toValue_holds hP fun q hq => h.params q (entries_of_mem hp hq)

/-- What the exported record of an entry is made of. -/
structure Value.IsExported (v : Value) : Prop where
  plain : v.IsPlain
  isOpen : v.IsOpen

/-- Lists and records of exported values are exported values. -/
theorem Value.IsExported.composes : Composes IsExported where
  null := ⟨.node rfl (by simp [inside]), rfl⟩
  int n := ⟨.int n, rfl⟩
  text s := ⟨.text s, rfl⟩
  list h := ⟨.list fun x hx => (h x hx).plain, .list fun x hx => (h x hx).isOpen⟩
  record names h :=
    ⟨.record names fun f hf => (h f hf).plain, .record fun f hf => (h f hf).isOpen⟩

/-- The open form of a stored value can be exported. -/
theorem Value.IsStored.thaw {v : Value} (h : v.IsStored) : v.thaw.IsExported :=
  ⟨h.plain.thaw, by rw [IsOpen, ← Value.thaw_freeze v.thaw, freeze_thaw, Value.thaw_freeze]⟩

theorem EntryStored.holds (h : EntryStored default? members?) :
    EntryHolds Value.IsExported default? members? :=
  ⟨fun v hv => (h.default v hv).thaw, fun ms hms m hm => (h.members ms hms m hm).thaw⟩

/-- The record of a definition is one that JSON text keeps. -/
theorem Definition.Exportable.toValue {d : Definition} (h : d.Exportable) :
    d.toValue.IsExported :=
  Holds.toValue Value.IsExported.composes
    ⟨fun q hq => (h.params q hq).holds, h.returns.holds, fun q hq => (h.returned q hq).holds⟩

end Records

/-! ### Records that are equal -/

/-- Lists with one image are one if members with one image are. -/
theorem eq_of_map_eq {α β : Type} {f : α → β} :
    ∀ {xs ys : List α}, (∀ x ∈ xs, ∀ y ∈ ys, f x = f y → x = y) → xs.map f = ys.map f → xs = ys
  | [], [], _, _ => rfl
  | x :: xs, y :: ys, h, eq => by
      obtain ⟨first, others⟩ := List.cons.inj eq
      rw [h x (by simp) y (by simp) first,
        eq_of_map_eq (fun x hx y hy => h x (by simp [hx]) y (by simp [hy])) others]

/-- Optional values with one image are one if values with one image are. -/
theorem eq_of_option_map_eq {α β : Type} {f : α → β} {x? y? : Option α}
    (h : ∀ x, x? = some x → ∀ y, y? = some y → f x = f y → x = y)
    (eq : x?.map f = y?.map f) : x? = y? := by
  cases x? with
  | none => exact (Option.map_eq_none_iff.mp eq.symm).symm
  | some x =>
      obtain ⟨y, rfl, hy⟩ := Option.map_eq_some_iff.mp eq.symm
      rw [h x rfl y rfl hy.symm]

section Equal

variable {default? other? : Option Value} {members? others? : Option (List (String × Value))}

/-- Stored defaults with one open form are one. -/
theorem EntryStored.default_eq (h : EntryStored default? members?)
    (h' : EntryStored other? others?) (eq : default?.map Value.thaw = other?.map Value.thaw) :
    default? = other? :=
  eq_of_option_map_eq (fun v hv w hw => (h.default v hv).frozen.eq_of_thaw (h'.default w hw).frozen)
    eq

/-- Stored members with one exported form are one. -/
theorem EntryStored.members_eq (h : EntryStored default? members?)
    (h' : EntryStored other? others?)
    (eq : members?.map membersValue = others?.map membersValue) : members? = others? := by
  refine eq_of_option_map_eq (fun ms hms ns hns eq => ?_) eq
  simp only [membersValue, Value.seq.injEq, true_and] at eq
  refine eq_of_map_eq (fun m hm n hn eq => ?_) eq
  simp only [Value.seq.injEq, true_and, List.cons.injEq, Value.text.injEq, and_true] at eq
  exact Prod.ext eq.1
    ((h.members ms hms m hm).frozen.eq_of_thaw (h'.members ns hns n hn).frozen eq.2)

theorem schemaValue?_eq (schema? : Option (List Parameter)) :
    schemaValue? schema? = schema?.map fun ps => .list (ps.map Parameter.toValue) := by
  cases schema? with
  | none => rfl
  | some ps => rw [schemaValue?, parameterValues_eq]; rfl

/-- Schemas with one exported form are one if fields with one record are. -/
theorem schema_eq {schema? other? : Option (List Parameter)}
    (h : ∀ ps, schema? = some ps → ∀ qs, other? = some qs → ∀ p ∈ ps, ∀ q ∈ qs,
      p.toValue = q.toValue → p = q)
    (eq : schemaValue? schema? = schemaValue? other?) : schema? = other? := by
  rw [schemaValue?_eq, schemaValue?_eq] at eq
  refine eq_of_option_map_eq (fun ps hps qs hqs eq => ?_) eq
  simp only [Value.seq.injEq, true_and] at eq
  exact eq_of_map_eq (h ps hps qs hqs) eq

/-- Parameters with one record agree in every field. -/
theorem Parameter.fields_eq {p q : Parameter} (eq : p.toValue = q.toValue) :
    p.name = q.name ∧ p.type = q.type ∧ p.description = q.description ∧
      p.default?.map Value.thaw = q.default?.map Value.thaw ∧
      schemaValue? p.schema? = schemaValue? q.schema? ∧
      p.members?.map membersValue = q.members?.map membersValue := by
  have field : ∀ name, p.toValue.get? name = q.toValue.get? name := fun name => by rw [eq]
  simp only [toValue_eq, sharedFields] at field
  exact ⟨by simpa using field "name", by simpa using field "type",
    by simpa using field "description", by simpa using field "defaultValue",
    by simpa using field "schema", by simpa using field "members"⟩

/-- **Parameters with one record are one**, down to the least field. -/
theorem Parameter.eq_of_toValue (p : Parameter) : ∀ {q : Parameter},
    (∀ e ∈ p.entries, e.Stored) → (∀ e ∈ q.entries, e.Stored) → p.toValue = q.toValue → p = q := by
  induction p using Parameter.nested_induction with
  | step p ih =>
      intro q hp hq eq
      have ownP : p.Stored := hp p (self_mem_entries p)
      have ownQ : q.Stored := hq q (self_mem_entries q)
      obtain ⟨name, type, description, default, schema, members⟩ := fields_eq eq
      have default := ownP.default_eq ownQ default
      have members := ownP.members_eq ownQ members
      have schema := schema_eq (fun ps hps qs hqs f hf g hg =>
        ih ps hps f hf (fun e he => hp e (entries_of_field hps hf he))
          fun e he => hq e (entries_of_field hqs hg he)) schema
      cases p
      cases q
      simp_all

/-- Return specifications with one record agree in every field. -/
theorem ReturnSpec.fields_eq {r s : ReturnSpec} (eq : r.toValue = s.toValue) :
    r.type = s.type ∧ r.description = s.description ∧ r.name?.map Value.text = s.name?.map .text ∧
      r.default?.map Value.thaw = s.default?.map Value.thaw ∧
      schemaValue? r.schema? = schemaValue? s.schema? ∧
      r.members?.map membersValue = s.members?.map membersValue := by
  have field : ∀ name, r.toValue.get? name = s.toValue.get? name := fun name => by rw [eq]
  simp only [toValue_eq, sharedFields] at field
  exact ⟨by simpa using field "type", by simpa using field "description",
    by simpa using field "name", by simpa using field "defaultValue",
    by simpa using field "schema", by simpa using field "members"⟩

/-- Return specifications with one record are one. -/
theorem ReturnSpec.eq_of_toValue {r s : ReturnSpec} (hr : EntryStored r.default? r.members?)
    (hs : EntryStored s.default? s.members?) (fieldsR : ∀ q ∈ schemaEntries r.schema?, q.Stored)
    (fieldsS : ∀ q ∈ schemaEntries s.schema?, q.Stored) (eq : r.toValue = s.toValue) : r = s := by
  obtain ⟨type, description, name, default, schema, members⟩ := fields_eq eq
  have default := hr.default_eq hs default
  have members := hr.members_eq hs members
  have name := eq_of_option_map_eq (fun x _ y _ => Value.text.inj) name
  have schema := schema_eq (fun ps hps qs hqs f hf g hg =>
    f.eq_of_toValue (fun e he => fieldsR e (mem_schemaEntries.mpr ⟨ps, hps, f, hf, he⟩))
      fun e he => fieldsS e (mem_schemaEntries.mpr ⟨qs, hqs, g, hg, he⟩)) schema
  cases r
  cases s
  simp_all

/-- A context is no null, and contexts with one record are one. -/
theorem contextValue_injective {c? d? : Option Context}
    (eq : (c?.map Context.toValue).getD .null = (d?.map Context.toValue).getD .null) :
    c? = d? := by
  cases c? with
  | none =>
      cases d? with
      | none => rfl
      | some d => cases eq
  | some c =>
      cases d? with
      | none => cases eq
      | some d =>
          cases c
          cases d
          simpa [Context.toValue, Value.record] using eq

/-- **Definitions with one record are one.** -/
theorem Definition.Exportable.eq_of_toValue {d e : Definition} (hd : d.Exportable)
    (he : e.Exportable) (eq : d.toValue = e.toValue) : d = e := by
  -- each field is read off the export by its name
  have field : ∀ name, d.toValue.get? name = e.toValue.get? name := fun name => by rw [eq]
  simp only [Definition.toValue, parameterValues_eq] at field
  have pathname : d.pathname = e.pathname := by simpa using field "pathname"
  have description : d.description = e.description := by simpa using field "description"
  have context := contextValue_injective (by simpa using field "context")
  have returns : d.returns = e.returns :=
    ReturnSpec.eq_of_toValue hd.returns he.returns hd.returned he.returned
      (by simpa using field "returns")
  have charge : d.charge = e.charge := by simpa using field "charge"
  have keys : d.keys = e.keys :=
    eq_of_map_eq (f := Value.text) (fun x _ y _ => Value.text.inj) (by simpa using field "keys")
  have params : d.params = e.params :=
    eq_of_map_eq (fun p hp q hq => p.eq_of_toValue (fun f hf => hd.params f (entries_of_mem hp hf))
      fun f hf => he.params f (entries_of_mem hq hf)) (by simpa using field "params")
  cases d
  cases e
  simp_all

end Equal

/-! ### Exported text -/

/-- **The exported text of a definition loses nothing.** It converts to the record of the
definition, and no other definition has it. -/
theorem Definition.export_lossless {d : Definition} (h : d.Exportable) :
    ∃ s, Json.text d.toValue = .ok s ∧ convert Tag.object.name (.text s) = .ok d.toValue ∧
      ∀ e : Definition, e.Exportable → Json.text e.toValue = .ok s → e = d := by
  obtain ⟨s, written, read⟩ := Json.read_text h.toValue.plain
  rw [h.toValue.isOpen] at read
  refine ⟨s, written, convert_object read rfl, fun e he other => ?_⟩
  obtain ⟨t, writtenE, readE⟩ := Json.read_text he.toValue.plain
  rw [other] at writtenE
  cases writtenE
  rw [he.toValue.isOpen, read] at readE
  exact he.eq_of_toValue h (Except.ok.inj readE).symm

/-- A definition with a nested default, a field with the default null beside one without,
members, and texts that JSON has to escape. -/
def Definition.nestedExample : Definition where
  pathname := "a \"b\".py"
  context? := some ⟨"a.py", 3, 1⟩
  keys := ["HOME"]
  params := [{
    name := "o"
    type := "object"
    default? := some (.map .frozen [(.text "é", .tuple [.int (-12), .bool true, .text "\n😀"])])
    schema? := some [
      { name := "x", default? := some .null },
      { name := "m", type := "enum", members? := some [("one", .int 1)] }] }]

theorem Definition.nestedExample_exportable : nestedExample.Exportable where
  params := by
    intro q hq
    simp only [nestedExample, allEntries, Parameter.entries, schemaEntries, List.append_nil,
      List.cons_append, List.nil_append, List.mem_cons, List.not_mem_nil, or_false] at hq
    rcases hq with rfl | rfl | rfl
    · exact ⟨by rintro _ ⟨⟩; exact ⟨by decide, rfl⟩, by rintro _ ⟨⟩⟩
    · exact ⟨by rintro _ ⟨⟩; exact ⟨by decide, rfl⟩, by rintro _ ⟨⟩⟩
    · exact ⟨by rintro _ ⟨⟩, by rintro _ ⟨⟩ _ (_ | ⟨_, ⟨⟩⟩); exact ⟨by decide, rfl⟩⟩
  returns := ⟨by rintro _ ⟨⟩, by rintro _ ⟨⟩⟩
  returned := by rintro _ ⟨⟩

theorem Definition.export_lossless_nested :
    nestedExample.Exportable ∧ ∃ s, Json.text nestedExample.toValue = .ok s ∧
      convert Tag.object.name (.text s) = .ok nestedExample.toValue ∧
      ∀ e : Definition, e.Exportable → Json.text e.toValue = .ok s → e = nestedExample :=
  ⟨nestedExample_exportable, export_lossless nestedExample_exportable⟩

end Docsig
