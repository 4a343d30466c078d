import Docsig.Proofs.Definition.Nesting

/-!
Blocks that can be read.

Where its declarations are in order one by one (`Orderly`), a block is read if every line
takes the fields that are nested in it.

* `exists_addGroups`: the groups are read, by the outline of each.
* `checkUnique_unique`: the check of names passes, as lines with one parent differ in names.
* `exists_read`: both, for the whole block.
-/

namespace Docsig.Definition.Draft

open Comment (Declaration)
open Outline (children parent?)

/-! ### Declarations in order -/

/-- What a draft can be made of: a registered type, with members if it is an enumeration. -/
def Source.Sound (s : Source) : Prop :=
  ∃ t, s.tag? = some t ∧
    (t = .enum → ∃ m ms, readMembers [] (s.line + 1) s.extra = .ok (m :: ms))

/-- Declarations that are in order one by one, and whose names differ. -/
structure Orderly (ds : List Declaration) : Prop where
  /-- The first is no field. -/
  starts : ∀ d ∈ ds.head?, fieldOf? d = none
  /-- Each has a draft, so none is a charge. -/
  sound : ∀ d ∈ ds, ∃ s, sourceOf? d = some s ∧ s.Sound
  indented : Indented ds
  identifiers : ∀ d ∈ ds, ∀ type name text, d.heading = .param type name text →
    Text.isIdentifier name.toList = true
  /-- At most one is a return value. -/
  returns : ds.countP (fun d => (nameOf? d).isNone) ≤ 1
  /-- Lines with the same parent, or with none, have names of their own. -/
  distinct : ∀ j < ds.length, ∀ i < j,
    parent? (ds.map indentOf) i = parent? (ds.map indentOf) j →
      (ds.map nameOf?)[i]? ≠ (ds.map nameOf?)[j]?

variable {ds : List Declaration} {g : Group} {gs : List Group} {r : Declared}
  {root : Draft} {roots : List Draft} {s : Source}

/-- A source that is sound has a draft, and no other has one. -/
theorem Source.sound_iff : s.Sound ↔ ∃ draft, ofSource s = .ok draft := by
  constructor
  · rintro ⟨t, tag, members⟩
    unfold Source.tag? at tag
    -- an unknown tag, an enumeration with its members, and any other tag
    unfold ofSource
    split
    · rename_i unknown
      rw [unknown] at tag
      cases tag
    · rename_i enum
      rw [enum] at tag
      obtain ⟨m, ms, read⟩ := members (Option.some.inj tag).symm
      rw [read]
      exact ⟨_, rfl⟩
    · exact ⟨_, rfl⟩
  · rintro ⟨draft, source⟩
    refine ⟨draft.type, ofSource_type source, fun enum => ?_⟩
    have tag : Tag.ofName? s.type.name = some .enum := enum ▸ ofSource_type source
    unfold ofSource at source
    rw [tag] at source
    obtain ⟨members, read, source⟩ := bind_eq_ok.mp source
    obtain ⟨filled, -⟩ := guard_eq_ok.mp source
    cases members with
    | nil => exact (filled rfl).elim
    | cons m ms => exact ⟨m, ms, read⟩

theorem Orderly.filter_isSourced (h : Orderly ds) : ds.filter isSourced = ds := by
  refine List.filter_eq_self.mpr fun d hd => ?_
  obtain ⟨s, source, -⟩ := h.sound d hd
  rw [isSourced, source]
  rfl

/-- A group of declarations that are in order one by one. -/
structure Group.Orderly (g : Group) : Prop where
  head : fieldOf? g.head = none
  sound : ∃ s, sourceOf? g.head = some s ∧ s.Sound
  identifier : ∀ type name text, g.head.heading = .param type name text →
    Text.isIdentifier name.toList = true
  fields : ∀ f ∈ g.fields, 1 ≤ f.indent ∧ f.source.Sound

theorem Orderly.groups (h : Orderly ds) : ∀ g ∈ (groups ds).2, g.Orderly := by
  intro g hg
  have head : g.head ∈ ds := groups_subset hg List.mem_cons_self
  refine ⟨groups_heads ds g hg, h.sound _ head, h.identifiers _ head, fun f hf => ?_⟩
  refine ⟨h.indented.fields g hg f hf, ?_⟩
  obtain ⟨s, source, sound⟩ := h.sound _ (groups_subset hg (Group.mem_declarations hf))
  cases source
  exact sound

/-- Sound fields that fit their parents are read. -/
theorem exists_withFields {draft : Draft} {fs : List Field}
    (fields : ∀ f ∈ fs, 1 ≤ f.indent ∧ f.source.Sound)
    (own : Takes draft.type (children (fs.map Field.indent) none).length)
    (fits : Fits (fs.map Field.indent) (fs.map fun f => f.source.tag?)) :
    ∃ full, draft.withFields fs = .ok full := by
  obtain ⟨schema, read⟩ : ∃ schema,
      readFields (fs.length + 1) draft false 0 (fs ++ []) = .ok (schema, []) :=
    exists_readFields (by simp) (fun f hf => (fields f hf).1) (by simp)
      (fun f hf => Source.sound_iff.mp (fields f hf).2) own fits
  rw [List.append_nil] at read
  exact ⟨_, bind_eq_ok.mpr ⟨_, read, rfl⟩⟩

/-- A group is added if it has a root, and a second return value it may not be. -/
theorem exists_addGroup (orderly : g.Orderly) (rooted : Rooted g root)
    (first : nameOf? g.head = none → r.returns? = none) :
    ∃ r', addGroup r g = .ok r' ∧ (nameOf? g.head ≠ none → r'.returns? = r.returns?) := by
  obtain ⟨s, draft, head, source, fields⟩ := rooted
  unfold nameOf? at first ⊢
  unfold addGroup
  cases heading : g.head.heading with
  | param type name text =>
      simp only [sourceOf?, heading, Option.some.injEq] at head
      subst head
      have identifier := orderly.identifier type name text heading
      exact ⟨_, guard_eq_ok.mpr ⟨by simp [identifier],
        bind_eq_ok.mpr ⟨draft, source, bind_eq_ok.mpr ⟨root, fields, rfl⟩⟩⟩, fun _ => rfl⟩
  | returns type text =>
      simp only [sourceOf?, heading, Option.some.injEq] at head first ⊢
      subst head
      exact ⟨_, guard_eq_ok.mpr ⟨by simp [first rfl],
        bind_eq_ok.mpr ⟨draft, source, bind_eq_ok.mpr ⟨root, fields, rfl⟩⟩⟩,
          fun named => (named rfl).elim⟩
  | field indent type name text =>
      have head := orderly.head
      simp [fieldOf?, heading] at head
  | charge amount => simp [sourceOf?, heading] at head

/-- **Groups are added where every line takes its children.** -/
theorem exists_addGroups (orderly : ∀ g ∈ gs, g.Orderly)
    (returns : gs.countP (fun g => (nameOf? g.head).isNone) + r.returns?.toList.length ≤ 1)
    (fits : Fits ((gs.flatMap Group.declarations).map indentOf)
      ((gs.flatMap Group.declarations).map tagOf?)) :
    ∃ r', gs.foldlM addGroup r = .ok r' := by
  -- by induction on the groups; a second return value is excluded by the count of those to come
  induction gs generalizing r with
  | nil => exact ⟨r, rfl⟩
  | cons g gs ih =>
      obtain ⟨first, orderly⟩ := List.forall_mem_cons.mp orderly
      obtain ⟨s, head, sound⟩ := first.sound
      obtain ⟨draft, source⟩ := Source.sound_iff.mp sound
      have tags : g.declarations.map tagOf? =
          some draft.type :: g.fields.map fun f => f.source.tag? := by
        rw [Group.declarations, List.map_cons, List.map_map, tagOf?, head, Option.bind_some,
          ofSource_type source]
        rfl
      rw [List.flatMap_cons, List.map_append, List.map_append, Group.indents first.head, tags] at fits
      have indented : ∀ m ∈ g.fields.map Field.indent, 0 < m := by
        intro m hm
        obtain ⟨f, hf, rfl⟩ := List.mem_map.mp hm
        exact (first.fields f hf).1
      have next := head?_indents fun g hg => (orderly g hg).head
      obtain ⟨own, inner, outer⟩ :=
        fits.split indented (fun m hm => Nat.le_of_eq (next m hm)) (by simp)
      obtain ⟨root, fields⟩ := exists_withFields first.fields own inner
      have rooted : Rooted g root := ⟨s, draft, head, source, fields⟩
      rw [List.countP_cons] at returns
      obtain ⟨next, added, same⟩ := exists_addGroup (r := r) first rooted <| by
        intro unnamed
        rw [unnamed] at returns
        cases returned : r.returns? with
        | none => rfl
        | some value => simp [returned] at returns
      obtain ⟨r', run⟩ : ∃ r', gs.foldlM addGroup next = .ok r' := by
        refine ih orderly ?_ outer
        cases name : nameOf? g.head with
        | none =>
            have one : next.returns?.toList.length ≤ 1 := by cases next.returns? <;> simp
            rw [name] at returns
            simp only [Option.isNone_none, if_true] at returns
            omega
        | some n =>
            rw [same (by simp [name])]
            omega
      exact ⟨r', by rw [List.foldlM_cons]; exact bind_eq_ok.mpr ⟨next, added, run⟩⟩

/-! ### Names -/

mutual

/-- Fields pass the check if siblings have different names at every depth. -/
theorem checkFields_unique : ∀ {d : Draft},
    (∀ e ∈ d.drafts, (e.schema.map Draft.name?).Nodup) → checkFields d = .ok ()
  | ⟨name?, type, nullable, line, description, schema, members?⟩, h => by
      rw [drafts_eq] at h
      obtain ⟨own, below⟩ := List.forall_mem_cons.mp h
      rw [checkFields]
      exact checkUnique_unique own (by simp) below

/-- Drafts pass the check of names if names differ at every depth. -/
theorem checkUnique_unique : ∀ {ds : List Draft} {scope : String} {seen : List (Option String)},
    (ds.map Draft.name?).Nodup → (∀ n ∈ ds.map Draft.name?, n ∉ seen) →
      (∀ e ∈ allDrafts ds, (e.schema.map Draft.name?).Nodup) → checkUnique scope seen ds = .ok ()
  | [], _, _, _, _, _ => rfl
  | d :: ds, scope, seen, nodup, apart, below => by
      rw [List.map_cons, List.nodup_cons] at nodup
      obtain ⟨fresh, apart⟩ := List.forall_mem_cons.mp apart
      rw [allDrafts] at below
      obtain ⟨first, rest⟩ := List.forall_mem_append.mp below
      rw [checkUnique, if_neg (by simpa using fresh), then_eq_ok]
      refine ⟨checkFields_unique first, checkUnique_unique nodup.2 (fun n hn => ?_) rest⟩
      rw [List.mem_cons, not_or]
      refine ⟨?_, apart n hn⟩
      rintro rfl
      exact nodup.1 hn

end

/-- Siblings in a forest have names of their own, if lines with the same parent do. -/
theorem Grown.siblings (h : Grown ds roots) (orderly : Orderly ds) {es : List Draft}
    {p : Option Nat}
    (es_eq : es.map some = (children (ds.map indentOf) p).map ((allDrafts roots)[·]?)) :
    (es.map Draft.name?).Nodup := by
  -- siblings have their names from the lines of one parent
  have names : (es.map Draft.name?).map some =
      (children (ds.map indentOf) p).map ((ds.map nameOf?)[·]?) := by
    have := congrArg (List.map (Option.map Draft.name?)) es_eq
    rw [List.map_map, List.map_map] at this
    rw [List.map_map, h.names]
    refine this.trans (List.map_congr_left fun i _ => ?_)
    rw [List.getElem?_map]
    rfl
  refine List.Nodup.of_map some ?_
  rw [names]
  refine (List.nodup_range.filter _).map_on fun i hi j hj same => ?_
  obtain ⟨hi, parentI⟩ := Outline.mem_children.mp hi
  obtain ⟨hj, parentJ⟩ := Outline.mem_children.mp hj
  rw [List.length_map] at hi hj
  rcases Nat.lt_trichotomy i j with less | eq | more
  · exact (orderly.distinct j hj i less (parentI.trans parentJ.symm) same).elim
  · exact eq
  · exact (orderly.distinct i hi j more (parentJ.trans parentI.symm) same.symm).elim

/-- **Declarations that are in order are read where every line takes its children.** -/
theorem exists_read (orderly : Orderly ds) (fits : Fits (ds.map indentOf) (ds.map tagOf?)) :
    ∃ r, read ds = .ok r := by
  have orphans : (groups ds).1 = [] := by
    cases ds with
    | nil => rfl
    | cons d ds => simp [groups, orderly.starts d rfl]
  have block := flatMap_groups orphans
  obtain ⟨r, run⟩ : ∃ r, (groups ds).2.foldlM addGroup {} = .ok r := by
    refine exists_addGroups orderly.groups ?_ ?_
    · have count := (heads_sublist (groups ds).2).countP_le (p := fun d => (nameOf? d).isNone)
      rw [block, List.countP_map] at count
      exact Nat.le_trans count orderly.returns
    · rwa [block]
  obtain ⟨roots, grown, params, returns⟩ := run_arranged orderly.indented orphans run
  rw [orderly.filter_isSourced] at grown
  -- in every tree the fields of one draft are siblings
  have below : ∀ root ∈ roots, ∀ e ∈ root.drafts, (e.schema.map Draft.name?).Nodup := by
    intro root hroot e he
    obtain ⟨i, hi⟩ := List.mem_iff_getElem?.mp (mem_allDrafts.mpr ⟨root, hroot, he⟩)
    exact grown.siblings orderly (grown.nested hi)
  -- the trees are the parameters and the return value
  have member : ∀ root, root ∈ roots ↔ root ∈ r.params ∨ r.returns? = some root :=
    fun _ => Arranged.mem_roots params returns
  have unique : checkUnique "parameters" [] r.params = .ok () := by
    refine checkUnique_unique ?_ (by simp) fun e he => ?_
    · rw [params]
      exact (grown.siblings orderly grown.outermost).sublist (List.filter_sublist.map _)
    · obtain ⟨root, hroot, he⟩ := mem_allDrafts.mp he
      exact below root ((member root).mpr (.inl hroot)) e he
  refine ⟨r, then_eq_ok.mpr ⟨noOrphans_eq_ok.mpr orphans, bind_eq_ok.mpr ⟨r, run,
    then_eq_ok.mpr ⟨unique, ?_⟩⟩⟩⟩
  cases returned : r.returns? with
  | none => rfl
  | some value =>
      have inside := below value ((member value).mpr (.inr returned))
      rw [drafts_eq] at inside
      obtain ⟨own, inside⟩ := List.forall_mem_cons.mp inside
      exact then_eq_ok.mpr ⟨checkUnique_unique own (by simp) inside, rfl⟩

end Docsig.Definition.Draft
