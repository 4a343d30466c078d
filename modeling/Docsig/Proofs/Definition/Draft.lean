import Docsig.Definition.Draft
import Docsig.Proofs.Definition.Entries
import Docsig.Proofs.Result

/-!
What a comment block that is read without a fault declares.

Every draft obeys `Built` at every depth: it takes fields only if it is an object
or an array, an array takes one, and its members agree with its type. `readFields`
is the only recursion that builds drafts, and `readFields_built` is the induction
over it. `FieldsDiffer` is what the check of names adds, and `Built.formed` carries
both over to the parameter that a draft becomes.
-/

namespace Docsig.Definition.Draft

/-! ### Members -/

/-- The labels of members that are read differ from each other and from those
before them. -/
theorem readMembers_labels :
    ∀ {texts : List String} {labels : List String} {line : Nat} {ms : List (String × Value)},
      readMembers labels line texts = .ok ms →
        (ms.map Prod.fst).Nodup ∧ ∀ l ∈ ms.map Prod.fst, l ∉ labels := by
  intro texts
  -- by induction on the lines: the labels above are handed down, so that no later one is among
  -- them
  induction texts with
  | nil =>
      intro labels line ms h
      cases h
      simp
  | cons text texts ih =>
      intro labels line ms h
      rw [readMembers] at h
      split at h
      · cases h
      split at h
      · cases h
      rename_i label value _
      obtain ⟨fresh, h⟩ := guard_eq_ok.mp h
      obtain ⟨rest, hrest, h⟩ := bind_eq_ok.mp h
      cases h
      have ⟨nodup, apart⟩ := ih hrest
      rw [List.contains_iff_mem] at fresh
      refine ⟨List.nodup_cons.mpr ⟨fun mem => apart label mem List.mem_cons_self, nodup⟩, ?_⟩
      intro l hl
      rcases List.mem_cons.mp hl with rfl | hl
      · exact fresh
      · exact fun mem => apart l hl (List.mem_cons_of_mem _ mem)

structure MembersFit (d : Draft) : Prop where
  isSome_iff : d.members?.isSome = true ↔ d.type = .enum
  ne_nil : d.members? ≠ some []
  labels : ∀ ms, d.members? = some ms → (ms.map Prod.fst).Nodup

/-- What a declaration says of its own draft. -/
theorem ofSource_fits {s : Source} {d : Draft} (h : ofSource s = .ok d) :
    d.name? = s.name? ∧ d.MembersFit := by
  unfold ofSource at h
  split at h
  · cases h
  · obtain ⟨ms, hms, h⟩ := bind_eq_ok.mp h
    obtain ⟨filled, h⟩ := guard_eq_ok.mp h
    cases h
    refine ⟨rfl, by simp, ?_, ?_⟩
    · intro eq
      rw [Option.some.inj eq] at filled
      exact filled rfl
    · intro ms' eq
      exact Option.some.inj eq ▸ (readMembers_labels hms).1
  · rename_i tag other _
    cases h
    refine ⟨rfl, ⟨?_, by simp, by simp⟩⟩
    simp only [Option.isSome_none, Bool.false_eq_true, false_iff]
    exact fun eq => other eq

/-! ### Fields -/

structure FieldsFit (type : Tag) (fields : List Draft) : Prop where
  container : fields ≠ [] → type.hasSchema = true
  single : type = .array → fields.length ≤ 1
  named : ∀ e ∈ fields, e.name?.isSome = true

/-- What a draft obeys at every depth. -/
inductive Built : Draft → Prop
  | mk {d : Draft} : d.MembersFit → FieldsFit d.type d.schema → (∀ e ∈ d.schema, Built e) → Built d

/-- Only a type with fields is a parent, and an array of one field at most. -/
theorem checkParent_ok {parent : Draft} {filled : Bool} {f : Field}
    (h : checkParent parent filled f = .ok ()) :
    parent.type.hasSchema = true ∧ (parent.type = .array → filled = false) := by
  unfold checkParent at h
  obtain ⟨container, h⟩ := guard_eq_ok.mp h
  obtain ⟨open_, -⟩ := guard_eq_ok.mp h
  refine ⟨by simpa using container, fun array => ?_⟩
  simpa [array] using open_

/-- The fields that are read for a draft fit it, and an array that has its field
already gets no other. -/
theorem readFields_built :
    ∀ {fuel : Nat} {parent : Draft} {filled : Bool} {indent : Nat} {fields rest : List Field}
      {schema : List Draft},
      readFields fuel parent filled indent fields = .ok (schema, rest) →
        FieldsFit parent.type schema ∧ (parent.type = .array → filled = true → schema = []) ∧
          ∀ e ∈ schema, e.Built := by
  have empty : ∀ type : Tag, FieldsFit type [] := fun type => ⟨by simp, by simp, by simp⟩
  intro fuel
  -- by induction on the fuel: the fields below the first one, and those beside it, are read
  -- with less
  induction fuel with
  | zero =>
      intro parent filled indent fields rest schema h
      cases h
      exact ⟨empty _, fun _ _ => rfl, by simp⟩
  | succ fuel ih =>
      intro parent filled indent fields rest schema h
      cases fields with
      | nil =>
          cases h
          exact ⟨empty _, fun _ _ => rfl, by simp⟩
      | cons f fields =>
          rw [readFields] at h
          split at h
          · cases h
            exact ⟨empty _, fun _ _ => rfl, by simp⟩
          obtain ⟨⟨⟩, parentOk, h⟩ := bind_eq_ok.mp h
          obtain ⟨draft, draftOk, h⟩ := bind_eq_ok.mp h
          obtain ⟨⟨below, left⟩, belowOk, h⟩ := bind_eq_ok.mp h
          obtain ⟨⟨siblings, left'⟩, siblingsOk, h⟩ := bind_eq_ok.mp h
          cases h
          have ⟨container, notFilled⟩ := checkParent_ok parentOk
          have ⟨name, members⟩ := ofSource_fits draftOk
          have ⟨belowFit, _, belowBuilt⟩ := ih belowOk
          have ⟨siblingsFit, alone, siblingsBuilt⟩ := ih siblingsOk
          refine ⟨⟨fun _ => container, fun array => ?_, ?_⟩, fun array full => ?_, ?_⟩
          · -- the field just read fills an array, so no sibling follows
            rw [alone array rfl]
            simp
          · intro e he
            rcases List.mem_cons.mp he with rfl | he
            · simp [name, Field.source]
            · exact siblingsFit.named e he
          · rw [notFilled array] at full
            cases full
          · intro e he
            rcases List.mem_cons.mp he with rfl | he
            · exact .mk ⟨members.isSome_iff, members.ne_nil, members.labels⟩ belowFit belowBuilt
            · exact siblingsBuilt e he

/-- A draft of a declaration is built with all of its fields. -/
theorem withFields_built {s : Source} {draft d : Draft} {fields : List Field}
    (source : ofSource s = .ok draft) (h : draft.withFields fields = .ok d) :
    d.name? = s.name? ∧ d.Built := by
  obtain ⟨⟨schema, rest⟩, read, h⟩ := bind_eq_ok.mp h
  cases h
  have ⟨name, members⟩ := ofSource_fits source
  have ⟨fit, _, built⟩ := readFields_built read
  exact ⟨name, .mk ⟨members.isSome_iff, members.ne_nil, members.labels⟩ fit built⟩

/-! ### Names of fields -/

/-- No two fields of a draft share a name, and the same holds below. -/
def FieldsDiffer (d : Draft) : Prop := ∃ scope, checkUnique scope [] d.schema = .ok ()

/-- Drafts that pass the check differ in their names, and so do the fields of each. -/
theorem checkUnique_ok :
    ∀ {ds : List Draft} {scope : String} {seen : List (Option String)},
      checkUnique scope seen ds = .ok () →
        (ds.map Draft.name?).Nodup ∧ (∀ n ∈ ds.map Draft.name?, n ∉ seen) ∧
          ∀ d ∈ ds, d.FieldsDiffer := by
  intro ds
  -- by induction on the drafts: the names above are handed down, so that no later one is among
  -- them
  induction ds with
  | nil => intro scope seen _; simp
  | cons d ds ih =>
      intro scope seen h
      rw [checkUnique] at h
      obtain ⟨fresh, h⟩ := guard_eq_ok.mp h
      obtain ⟨⟨⟩, below, h⟩ := bind_eq_ok.mp h
      have ⟨nodup, apart, rest⟩ := ih h
      rw [List.contains_iff_mem] at fresh
      refine ⟨List.nodup_cons.mpr ⟨fun mem => apart _ mem List.mem_cons_self, nodup⟩, ?_, ?_⟩
      · intro n hn
        rcases List.mem_cons.mp hn with rfl | hn
        · exact fresh
        · exact fun mem => apart n hn (List.mem_cons_of_mem _ mem)
      · intro e he
        rcases List.mem_cons.mp he with rfl | he
        · cases e
          rw [checkFields] at below
          exact ⟨_, below⟩
        · exact rest e he

/-- The fields of a draft whose fields differ. -/
theorem FieldsDiffer.fields {d : Draft} (h : d.FieldsDiffer) :
    (d.schema.map Draft.name?).Nodup ∧ ∀ e ∈ d.schema, e.FieldsDiffer := by
  obtain ⟨scope, h⟩ := h
  exact ⟨(checkUnique_ok h).1, (checkUnique_ok h).2.2⟩

/-! ### Parameters of drafts -/

theorem toParameters_eq (ds : List Draft) : toParameters ds = ds.map toParameter := by
  induction ds with
  | nil => rfl
  | cons d ds ih => rw [toParameters, ih, List.map_cons]

section ToParameter

variable (d : Draft)

theorem toParameter_name : d.toParameter.name = d.name?.getD "" := by
  cases d; rw [toParameter]

theorem toParameter_type : d.toParameter.type = d.type.name := by
  cases d; rw [toParameter]

/-- A draft has no default but the null of a nullable type. -/
theorem toParameter_default? : d.toParameter.default? = impliedDefault? d.nullable := by
  cases d; rw [toParameter]

/-- A draft without fields has no schema. -/
theorem toParameter_schema? : d.toParameter.schema? =
    if d.schema.isEmpty then none else some (d.schema.map toParameter) := by
  cases d; rw [toParameter, toParameters_eq]

theorem toParameter_members? : d.toParameter.members? =
    d.members?.map fun ms => ms.map fun (label, value) => (label, value.freeze) := by
  cases d; rw [toParameter]

end ToParameter

/-- The schema of a parameter holds the parameters of the draft's fields. -/
theorem mem_of_toParameter_schema? {d : Draft} {ps : List Parameter}
    (h : d.toParameter.schema? = some ps) : d.schema ≠ [] ∧ ps = d.schema.map toParameter := by
  rw [toParameter_schema?] at h
  split at h
  · cases h
  · rename_i filled
    exact ⟨by simpa using filled, (Option.some.inj h).symm⟩

/-- The parameters of drafts that all have names of their own have names of their
own. -/
theorem toParameter_names_nodup {ds : List Draft} (named : ∀ d ∈ ds, d.name?.isSome = true)
    (nodup : (ds.map Draft.name?).Nodup) :
    ((ds.map toParameter).map Parameter.name).Nodup := by
  have names : ds.map Draft.name? = ((ds.map toParameter).map Parameter.name).map some := by
    rw [List.map_map, List.map_map]
    refine List.map_congr_left fun d hd => ?_
    obtain ⟨name, hname⟩ := Option.isSome_iff_exists.mp (named d hd)
    simp [toParameter_name, hname]
  rw [names] at nodup
  exact nodup.of_map

/-- The members of a parameter have the labels of the draft's members. -/
theorem MembersFit.toParameter_labels {d : Draft} (fit : d.MembersFit) :
    d.toParameter.members? ≠ some [] ∧
      ∀ ms, d.toParameter.members? = some ms → (ms.map Prod.fst).Nodup := by
  rw [toParameter_members?]
  cases h : d.members? with
  | none => simp
  | some ms =>
      refine ⟨?_, ?_⟩
      · intro eq
        rw [Option.map_some, Option.some.injEq, List.map_eq_nil_iff] at eq
        exact fit.ne_nil (eq ▸ h)
      · intro ms' eq
        cases eq
        rw [List.map_map]
        exact fit.labels ms h

/-- A draft whose fields have names of their own becomes an entry in form. -/
theorem Built.toParameter_formed {d : Draft} (built : d.Built) (differ : d.FieldsDiffer) :
    d.toParameter.Formed := by
  cases built with
  | mk members fields _ =>
      have ⟨membersNil, labels⟩ := members.toParameter_labels
      -- the conditions in the order in which they are named: type, schema, fields, defaults
      -- below, members
      refine ⟨⟨?_, ?_, ?_, ?_, ?_, ?_⟩, ?_, ?_, membersNil, labels⟩
      · rw [toParameter_type]
        exact Tag.isName_name _
      · intro ps hps
        have ⟨filled, _⟩ := mem_of_toParameter_schema? hps
        rw [toParameter_type, Tag.name_inj, Tag.name_inj]
        exact Tag.hasSchema_iff.mp (fields.container filled)
      · intro ps hps array
        obtain ⟨filled, rfl⟩ := mem_of_toParameter_schema? hps
        rw [toParameter_type, Tag.name_inj] at array
        have := List.length_pos_of_ne_nil filled
        have := fields.single array
        rw [List.length_map]
        omega
      · intro ps hps
        obtain ⟨-, rfl⟩ := mem_of_toParameter_schema? hps
        exact toParameter_names_nodup fields.named differ.fields.1
      · intro ps hps q hq
        obtain ⟨-, rfl⟩ := mem_of_toParameter_schema? hps
        obtain ⟨e, -, rfl⟩ := List.mem_map.mp hq
        rw [toParameter_default?, impliedDefault?]
        split
        · exact .inr rfl
        · exact .inl rfl
      · intro ms hms
        rw [toParameter_type, members.isSome_iff.mp]
        rw [toParameter_members?] at hms
        exact Option.isSome_map .. ▸ Option.isSome_of_eq_some hms
      · intro nil
        have ⟨filled, eq⟩ := mem_of_toParameter_schema? nil
        exact filled (List.map_eq_nil_iff.mp eq.symm)
      · intro enum
        rw [toParameter_type, Tag.name_inj] at enum
        rw [toParameter_members?, Option.isSome_map]
        exact members.isSome_iff.mpr enum

/-- All that is nested in a draft becomes entries in form. -/
theorem Built.formed {d : Draft} (built : d.Built) (differ : d.FieldsDiffer) :
    ∀ q ∈ d.toParameter.entries, q.Formed := by
  induction built with
  | @mk d members fields below ih =>
      intro q hq
      rcases mem_entries.mp hq with rfl | ⟨ps, hps, f, hf, hq⟩
      · exact Built.toParameter_formed (.mk members fields below) differ
      · obtain ⟨-, rfl⟩ := mem_of_toParameter_schema? hps
        obtain ⟨e, he, rfl⟩ := List.mem_map.mp hf
        exact ih e he (differ.fields.2 e he) q hq

end Docsig.Definition.Draft
