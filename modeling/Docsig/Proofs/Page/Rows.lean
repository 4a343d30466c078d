import Docsig.Page.Row
import Docsig.Proofs.Definition.Belonging
import Docsig.Proofs.Definition.Defaults

/-!
Rows of what a comment block declares.

A draft becomes an entry and an entry becomes a row, and on all three the order is that of
the declarations: each before its own fields. `rows_laid` is that the rows of a forest have
the levels of its outline. `Listed` puts lines, entries and rows side by side, and every line
of a block that belongs to a parameter is listed (`listed_params`), and so is every field below
the return value (`listed_returns`).
-/

namespace Docsig

open Definition (Draft Formal Initial)
open Definition.Draft
open Comment (Declaration)
open Outline (levels)

/-! ### Entries of drafts -/

namespace Definition.Draft

mutual

theorem entries_toParameter : ∀ d : Draft, d.toParameter.entries = d.drafts.map toParameter
  | ⟨name?, type, nullable, line, description, schema, members?⟩ => by
      rw [Parameter.entries_eq, drafts_eq, List.map_cons, toParameter_schema?]
      dsimp only
      split
      · rename_i empty
        obtain rfl := List.isEmpty_iff.mp empty
        rfl
      · rw [schemaEntries, allEntries_toParameter schema]

/-- The entries that some drafts become are those of all drafts below, in order. -/
theorem allEntries_toParameter :
    ∀ ds : List Draft, allEntries (ds.map toParameter) = (allDrafts ds).map toParameter
  | [] => rfl
  | d :: ds => by
      rw [List.map_cons, allEntries, allDrafts, List.map_append, entries_toParameter d,
        allEntries_toParameter ds]

end

theorem schemaEntries_toParameter (d : Draft) :
    schemaEntries d.toParameter.schema? = (allDrafts d.schema).map toParameter := by
  rw [toParameter_schema?]
  split
  · rename_i empty
    rw [List.isEmpty_iff.mp empty]
    rfl
  · rw [schemaEntries, allEntries_toParameter]

end Definition.Draft

/-! ### Rows of entries -/

namespace Page

def entryRow (depth : Nat) (q : Parameter) : Row :=
  ⟨depth, q.name, q.type, q.default?.map Value.thaw,
    String.ofList (cell (describe q.description q.members?).toList)⟩

variable {ns : List Nat} {ds : List Draft} {depth : Nat} {d : Draft}

/-- A parameter has its own row first, and those of its schema one level deeper. -/
theorem rowsOf_eq (depth : Nat) (q : Parameter) :
    rowsOf depth q = entryRow depth q :: rowsOfSchema (depth + 1) q.schema? := by
  cases q
  rw [rowsOf]
  rfl

theorem rowsOfSchema_toParameter : rowsOfSchema depth d.toParameter.schema? =
    rowsOfAll depth (d.schema.map toParameter) := by
  rw [toParameter_schema?]
  split
  · rename_i empty
    rw [List.isEmpty_iff.mp empty]
    rfl
  · rw [rowsOfSchema]

/-- **Rows have the levels of the outline**, one for each draft in order. -/
theorem rows_laid (h : Laid ns ds) : rowsOfAll depth (ds.map toParameter) =
    List.zipWith entryRow ((levels ns).map (depth + ·)) ((allDrafts ds).map toParameter) := by
  -- by induction on the forest: the first tree with its fields one level deeper, and the trees
  -- beside it
  induction h generalizing depth with
  | nil => rfl
  | @cons n inner outer d ds more next hInner hOuter ihInner ihOuter =>
      have first : rowsOf depth d.toParameter =
          List.zipWith entryRow ((0 :: (levels inner).map (· + 1)).map (depth + ·))
            ((d :: allDrafts d.schema).map toParameter) := by
        have deeper : (levels inner).map (depth + 1 + ·) =
            ((levels inner).map (· + 1)).map (depth + ·) := by
          rw [List.map_map]
          exact List.map_congr_left fun k _ => by rw [Function.comp_apply, Nat.add_comm k, Nat.add_assoc]
        rw [rowsOf_eq, rowsOfSchema_toParameter, ihInner, deeper]
        rfl
      have same : ((0 :: (levels inner).map (· + 1)).map (depth + ·)).length =
          ((d :: allDrafts d.schema).map toParameter).length := by
        simp [Outline.length_levels, hInner.length]
      rw [List.map_cons, rowsOfAll, first, ihOuter,
        Outline.levels_append fun m hm => Laid.head_le more next hm, Outline.levels_cons more,
        allDrafts_cons, List.map_append, List.map_append, List.zipWith_append same]

/-! ### Lines that are listed -/

/-- An entry that stands for a declaration. A field may be left out if it may be null, and a
parameter also if the function gives it an initial value. -/
structure EnteredBy (fs : List Formal) (d : Declaration) (s : Draft.Source) (q : Parameter) :
    Prop where
  source : sourceOf? d = some s
  name : s.name? = some q.name
  type : s.type.name = q.type
  registered : Tag.isName q.type = true
  field : isField d = true → q.hasDefault = s.type.nullable
  param : isField d = false → ∃ f ∈ fs, f.name = q.name ∧
    q.hasDefault = (s.type.nullable || f.default?.isSome)

/-- Lines of a block that have their entries and rows, one for each in order. -/
inductive Listed (fs : List Formal) :
    List (Nat × Declaration) → List Parameter → List Row → Prop
  | nil : Listed fs [] [] []
  | cons {n : Nat} {d : Declaration} {s : Draft.Source} {q : Parameter}
      {ls : List (Nat × Declaration)} {qs : List Parameter} {rs : List Row} : EnteredBy fs d s q → Listed fs ls qs rs →
      Listed fs ((n, d) :: ls) (q :: qs) (entryRow n q :: rs)

variable {fs : List Formal} {ls ls' : List (Nat × Declaration)} {qs qs' : List Parameter}
  {rs rs' : List Row} {fields : List Field} {e root : Draft} {g : Group} {gs : List Group}

theorem Listed.append (h : Listed fs ls qs rs) (h' : Listed fs ls' qs' rs') :
    Listed fs (ls ++ ls') (qs ++ qs') (rs ++ rs') := by
  induction h with
  | nil => exact h'
  | cons first _ ih => exact .cons first ih

/-- The entry of a field. -/
theorem enteredBy_field {f : Field} (h : Declares f.source e) :
    EnteredBy fs f.declaration f.source e.toParameter where
  source := rfl
  name := by rw [Draft.toParameter_name, h.name]; rfl
  type := by rw [Draft.toParameter_type]; exact Tag.name_of_ofName? h.type
  registered := by rw [Draft.toParameter_type]; exact Tag.isName_name _
  field _ := by
    rw [Parameter.hasDefault, Draft.toParameter_default?, Draft.impliedDefault?, h.nullable]
    cases f.source.type.nullable <;> rfl
  param other := by cases other

/-- Fields whose drafts are known are listed at any levels. -/
theorem listed_declared {ns : List Nat} {es : List Draft} (same : ns.length = fields.length)
    (declared : List.Forall₂ (fun f e => Declares f.source e) fields es) :
    Listed fs (ns.zip (fields.map Field.declaration)) (es.map Draft.toParameter)
      (List.zipWith entryRow ns (es.map Draft.toParameter)) := by
  induction declared generalizing ns with
  | nil =>
      rw [List.map_nil, List.map_nil, List.zip_nil_right, List.zipWith_nil_right]
      exact .nil
  | cons first _ ih =>
      obtain ⟨n, ns, rfl⟩ := List.exists_cons_of_length_eq_add_one same
      exact .cons (enteredBy_field first) (ih (Nat.succ.inj same))

/-- The fields of a root are listed, from a depth on. -/
theorem listed_fields (rooted : Rooted g root) (indented : ∀ f ∈ g.fields, 1 ≤ f.indent) :
    Listed fs (g.fieldLines depth) (schemaEntries root.toParameter.schema?)
      (rowsOfSchema depth root.toParameter.schema?) := by
  obtain ⟨laid, -, declared⟩ := rooted.laid indented
  rw [Draft.schemaEntries_toParameter, rowsOfSchema_toParameter, rows_laid laid]
  refine listed_declared ?_ declared
  rw [List.length_map, Outline.length_levels, List.length_map]

/-! ### Parameters and return values -/

/-- A draft and the parameter that it becomes with a formal parameter. -/
def Matched (fs : List Formal) (d : Draft) (p : Parameter) : Prop :=
  ∃ f ∈ fs, d.name? = some f.name ∧ ∃ v?, Initial d f v? ∧ p = d.withDefault v?

/-- Parameters go with their drafts one by one. -/
theorem matchFrom_matched {position : Nat} (length : ds.length = fs.length)
    (h : Definition.matchFrom position ds fs = .ok qs) : List.Forall₂ (Matched fs) ds qs := by
  induction ds generalizing fs position qs with
  | nil =>
      cases h
      exact .nil
  | cons d ds ih =>
      obtain ⟨f, fs, rfl⟩ := List.exists_cons_of_length_eq_add_one length.symm
      obtain ⟨p, hp, h⟩ := bind_eq_ok.mp h
      obtain ⟨rest, hrest, ⟨⟩⟩ := bind_eq_ok.mp h
      obtain ⟨name, matched⟩ := Definition.matchParam_eq_ok.mp hp
      refine .cons ⟨f, List.mem_cons_self, name, matched⟩ ?_
      refine (ih (Nat.succ.inj length) hrest).imp fun _ _ ⟨f, hf, rest⟩ => ?_
      exact ⟨f, List.mem_cons_of_mem _ hf, rest⟩

/-- An initial value is there if the formal parameter has one. -/
theorem isSome_initial {f : Formal} {v? : Option Value} (h : Initial d f v?) :
    v?.isSome = f.default?.isSome := by
  cases h with
  | none absent => rw [absent]; rfl
  | literal written _ _ => rw [written]; rfl

/-- The entry of a parameter. -/
theorem enteredBy_param {p : Parameter} (head : fieldOf? g.head = none) (rooted : Rooted g root)
    (indented : ∀ f ∈ g.fields, 1 ≤ f.indent) (matched : Matched fs root p) :
    ∃ s, EnteredBy fs g.head s p := by
  obtain ⟨-, ⟨s, source, declares⟩, -⟩ := rooted.laid indented
  obtain ⟨f, hf, name, v?, initial, rfl⟩ := matched
  have own : (root.withDefault v?).name = f.name := by rw [Draft.withDefault_name, name]; rfl
  have type : (root.withDefault v?).type = root.type.name := Draft.toParameter_type root
  refine ⟨s, source, ?_, ?_, ?_, fun field => ?_, fun _ => ⟨f, hf, own.symm, ?_⟩⟩
  · rw [own, ← declares.name, name]
  · exact (Tag.name_of_ofName? declares.type).trans type.symm
  · exact type ▸ Tag.isName_name _
  · rw [isField, head] at field
    cases field
  · rw [Parameter.hasDefault, Definition.withDefault_default?, Draft.impliedDefault?,
      declares.nullable, ← isSome_initial initial]
    cases s.type.nullable <;> cases v? <;> rfl

/-- A parameter is listed with all of its fields. -/
theorem listed_param {p : Parameter} (head : fieldOf? g.head = none) (rooted : Rooted g root)
    (indented : ∀ f ∈ g.fields, 1 ≤ f.indent) (matched : Matched fs root p) :
    Listed fs (outline g.declarations) p.entries (rowsOf 0 p) := by
  obtain ⟨s, entered⟩ := enteredBy_param head rooted indented matched
  have schema : p.schema? = root.toParameter.schema? := by
    obtain ⟨f, -, -, v?, -, rfl⟩ := matched
    rfl
  rw [outline_group head indented, Parameter.entries_eq, rowsOf_eq, schema]
  exact .cons entered (listed_fields rooted indented)

/-- Groups list the parameters that they become. -/
theorem listed_groups (heads : ∀ g ∈ gs, fieldOf? g.head = none)
    (indented : ∀ g ∈ gs, ∀ f ∈ g.fields, 1 ≤ f.indent) (rooted : List.Forall₂ Rooted gs ds)
    (matched : List.Forall₂ (Matched fs) ds qs) :
    Listed fs (gs.flatMap fun g => outline g.declarations) (allEntries qs) (rowsOfAll 0 qs) := by
  induction rooted generalizing qs with
  | nil =>
      cases matched
      exact .nil
  | cons first _ ih =>
      obtain _ | ⟨matchedFirst, matched⟩ := matched
      obtain ⟨head, heads⟩ := List.forall_mem_cons.mp heads
      obtain ⟨indentedFirst, indented⟩ := List.forall_mem_cons.mp indented
      rw [List.flatMap_cons, allEntries, rowsOfAll]
      exact (listed_param head first indentedFirst matchedFirst).append (ih heads indented matched)

section Block

variable {block : List Declaration} {declared : Definition.Declared}

/-- **The lines that belong to parameters are listed**, each in its place. -/
theorem listed_params (indented : Indented block) (read : Draft.read block = .ok declared)
    (matched : List.Forall₂ (Matched fs) declared.params qs) :
    Listed fs (belonging isParam false (outline block)) (allEntries qs) (rows qs) := by
  rw [read_belonging indented read]
  exact listed_groups (fun g hg => groups_heads block g (List.mem_of_mem_filter hg))
    (fun g hg => indented.fields g (List.mem_of_mem_filter hg)) (read_rooted read).1 matched

/-- The lines of fields, one level up. -/
def fieldsUp (ls : List (Nat × Declaration)) : List (Nat × Declaration) :=
  (ls.filter fun l => isField l.2).map fun l => (l.1 - 1, l.2)

theorem fieldsUp_group (head : fieldOf? g.head = none) (indented : ∀ f ∈ g.fields, 1 ≤ f.indent) :
    fieldsUp (outline g.declarations) = g.fieldLines 0 := by
  have other : isField g.head = false := by rw [isField, head]; rfl
  rw [fieldsUp, outline_group head indented, List.filter_cons_of_neg (by simp [other]),
    List.filter_eq_self.mpr isField_fieldLines, Group.fieldLines, Group.fieldLines,
    List.zip_map_left, List.zip_map_left, List.map_map]
  refine List.map_congr_left fun l _ => ?_
  simp [Prod.map]

/-- **The lines of fields below the return value are listed**, each in its place. -/
theorem listed_returns (indented : Indented block) (read : Draft.read block = .ok declared) :
    Listed fs (fieldsUp (belonging isReturns false (outline block)))
      (schemaEntries declared.returnSpec.schema?) (rowsOfSchema 0 declared.returnSpec.schema?) := by
  rw [read_belonging indented read]
  have heads := groups_heads block
  have deep := indented.fields
  have rooted := (read_rooted read).2
  rw [Definition.Declared.returnSpec]
  -- a block declares one return value at most
  cases returned : declared.returns? with
  | none =>
      rw [returned] at rooted
      rw [List.forall₂_nil_right_iff.mp rooted]
      exact .nil
  | some root =>
      rw [returned] at rooted
      obtain ⟨g, hg⟩ : ∃ g, (groups block).2.filter (fun g => isReturns g.head) = [g] :=
        List.length_eq_one_iff.mp rooted.length_eq
      rw [hg] at rooted ⊢
      have member : g ∈ (groups block).2 := List.mem_of_mem_filter (hg ▸ List.mem_singleton_self g)
      rw [List.flatMap_cons, List.flatMap_nil, List.append_nil,
        fieldsUp_group (heads g member) (deep g member)]
      exact listed_fields (List.forall₂_cons.mp rooted).1 (deep g member)

end Block

end Page

end Docsig
