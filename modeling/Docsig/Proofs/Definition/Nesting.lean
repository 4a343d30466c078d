import Docsig.Proofs.Definition.Fields
import Docsig.Proofs.Definition.WellFormed

/-!
Indentation decides nesting.

A block of declarations is an outline: parameters and the return value are not indented,
and every field is nested in the nearest declaration above it that is indented less. The
drafts of a block are the forest of this outline (`Arranged`).

`groups_eq` takes a block apart into its groups, `addGroups_ok` and `rooted_laid` find the
draft of each, and `read_arranged` puts the forest together. A charge is no part of it.
-/

namespace Docsig.Definition.Draft

open Comment (Declaration)
open Outline (children parent?)

/-! ### Lines of a block -/

/-- The indentation of a declaration. Only fields have any. -/
def indentOf (d : Declaration) : Nat := ((fieldOf? d).map Field.indent).getD 0

/-- What the draft of a declaration is read from. A charge has no draft. -/
def sourceOf? (d : Declaration) : Option Source :=
  match d.heading with
  | .param type name text => some ⟨some name, type, text, d.line, d.extra⟩
  | .returns type text =>
      some ⟨none, type, if (returnName? type text d.extra).isSome then "" else text, d.line, d.extra⟩
  | .field _ type name text => some ⟨some name, type, text, d.line, d.extra⟩
  | .charge _ => none

def isSourced (d : Declaration) : Bool := (sourceOf? d).isSome

def tagOf? (d : Declaration) : Option Tag := (sourceOf? d).bind Source.tag?

/-- The declared name. A return value has none. -/
def nameOf? (d : Declaration) : Option String := (sourceOf? d).bind Source.name?

/-- The declaration that a field is. -/
def Field.declaration (f : Field) : Declaration :=
  ⟨.field f.indent f.type f.name f.text, f.line, f.extra⟩

/-- The declarations of a group. -/
def Group.declarations (g : Group) : List Declaration := g.head :: g.fields.map Field.declaration

/-- A draft that is made of a group. -/
def Rooted (g : Group) (root : Draft) : Prop :=
  ∃ s draft, sourceOf? g.head = some s ∧ ofSource s = .ok draft ∧
    draft.withFields g.fields = .ok root

/-- Drafts that are the forest of a block: every declaration has its draft, in order, and
the roots and the schema of every draft are the children in the outline, in order. -/
structure Grown (ds : List Declaration) (roots : List Draft) : Prop where
  declared : List.Forall₂ (fun d e => ∃ s, sourceOf? d = some s ∧ Declares s e) ds (allDrafts roots)
  outermost : roots.map some = (children (ds.map indentOf) none).map ((allDrafts roots)[·]?)
  nested : ∀ {i e}, (allDrafts roots)[i]? = some e →
    e.schema.map some = (children (ds.map indentOf) (some i)).map ((allDrafts roots)[·]?)

/-- What is read from a block is the forest of its outline. The roots with a name are the
parameters and the one without is the return value. -/
def Arranged (ds : List Declaration) (r : Declared) : Prop :=
  ∃ roots, Grown ds roots ∧ r.params = roots.filter (fun e => e.name?.isSome) ∧
    r.returns?.toList = roots.filter (fun e => e.name?.isNone)

/-- The fields of a block are indented. -/
def Indented (ds : List Declaration) : Prop := ∀ d ∈ ds, ∀ f, fieldOf? d = some f → 1 ≤ f.indent

variable {ds : List Declaration} {g : Group} {gs : List Group} {r r' : Declared}
  {d e root : Draft} {roots : List Draft} {s : Source} {f : Field}

@[simp] theorem fieldOf?_declaration (f : Field) : fieldOf? f.declaration = some f := rfl

@[simp] theorem sourceOf?_declaration (f : Field) : sourceOf? f.declaration = some f.source := rfl

@[simp] theorem indentOf_declaration (f : Field) : indentOf f.declaration = f.indent := rfl

theorem fieldOf?_eq_some {d : Declaration} : fieldOf? d = some f ↔ d = f.declaration := by
  constructor
  · intro h
    unfold fieldOf? at h
    split at h
    · rename_i heading
      cases h
      rw [Field.declaration, ← heading]
    · cases h
  · rintro rfl
    rfl

/-- What is not a field stands at the top level. -/
theorem indentOf_head {d : Declaration} (h : fieldOf? d = none) : indentOf d = 0 := by
  rw [indentOf, h]
  rfl

/-- **A block is made of the fields in front and of its groups.** -/
theorem groups_eq (ds : List Declaration) :
    ds = (groups ds).1.map Field.declaration ++ (groups ds).2.flatMap Group.declarations := by
  induction ds with
  | nil => rfl
  | cons d ds ih =>
      rw [groups]
      cases h : fieldOf? d with
      | none => simp [Group.declarations, ← ih]
      | some f => simp [fieldOf?_eq_some.mp h, ← ih]

/-- The groups of a block are all of its declarations. -/
theorem flatMap_groups (orphans : (groups ds).1 = []) :
    (groups ds).2.flatMap Group.declarations = ds := by
  conv_rhs => rw [groups_eq ds, orphans, List.map_nil, List.nil_append]

/-- The head of a group is no field. -/
theorem groups_heads (ds : List Declaration) : ∀ g ∈ (groups ds).2, fieldOf? g.head = none := by
  induction ds with
  | nil => simp [groups]
  | cons d ds ih =>
      rw [groups]
      dsimp only
      split
      · exact ih
      · rename_i head
        exact List.forall_mem_cons.mpr ⟨head, ih⟩

/-- Each group has its head first. -/
theorem heads_sublist (gs : List Group) :
    (gs.map Group.head).Sublist (gs.flatMap Group.declarations) := by
  induction gs with
  | nil => exact .slnil
  | cons g gs ih => exact (ih.trans (List.sublist_append_right _ _)).cons_cons _

/-- What a group declares, its block declares. -/
theorem groups_subset (hg : g ∈ (groups ds).2) : g.declarations ⊆ ds := by
  intro d hd
  rw [groups_eq ds]
  exact List.mem_append_right _ (List.mem_flatMap_of_mem hg hd)

theorem Group.mem_declarations (hf : f ∈ g.fields) : f.declaration ∈ g.declarations :=
  List.mem_cons_of_mem _ (List.mem_map_of_mem hf)

theorem Indented.fields (h : Indented ds) : ∀ g ∈ (groups ds).2, ∀ f ∈ g.fields, 1 ≤ f.indent :=
  fun _ hg f hf => h f.declaration (groups_subset hg (Group.mem_declarations hf)) f rfl

/-! ### What is read -/

theorem noOrphans_eq_ok {fs : List Field} : noOrphans fs = .ok () ↔ fs = [] := by
  cases fs <;> simp [noOrphans]

/-- A block that is read has no fields in front. -/
theorem read_orphans (h : read ds = .ok r) : (groups ds).1 = [] :=
  noOrphans_eq_ok.mp (then_eq_ok.mp h).1

/-- A group of declarations adds one root, or it is a charge without fields. -/
theorem addGroup_ok (head : fieldOf? g.head = none) (h : addGroup r g = .ok r') :
    (sourceOf? g.head = none ∧ g.fields = [] ∧ r'.params = r.params ∧ r'.returns? = r.returns?) ∨
      ∃ root, Rooted g root ∧
        (root.name?.isSome = true ∧ r'.params = r.params ++ [root] ∧ r'.returns? = r.returns? ∨
          root.name? = none ∧ r.returns? = none ∧ r'.params = r.params ∧
            r'.returns? = some root) := by
  unfold addGroup at h
  split at h
  · -- a parameter
    rename_i type name text heading
    obtain ⟨-, h⟩ := guard_eq_ok.mp h
    obtain ⟨draft, source, h⟩ := bind_eq_ok.mp h
    obtain ⟨root, fields, h⟩ := bind_eq_ok.mp h
    cases h
    have name : root.name? = some name := (withFields_built source fields).1
    exact .inr ⟨root, ⟨_, draft, by rw [sourceOf?, heading], source, fields⟩,
      .inl ⟨by rw [name]; rfl, rfl, rfl⟩⟩
  · -- the return value
    rename_i type text heading
    obtain ⟨first, h⟩ := guard_eq_ok.mp h
    obtain ⟨draft, source, h⟩ := bind_eq_ok.mp h
    obtain ⟨root, fields, h⟩ := bind_eq_ok.mp h
    cases h
    have name : root.name? = none := (withFields_built source fields).1
    exact .inr ⟨root, ⟨_, draft, by rw [sourceOf?, heading], source, fields⟩,
      .inr ⟨name, by simpa using first, rfl, rfl⟩⟩
  · -- the charge
    rename_i amount heading
    obtain ⟨-, h⟩ := guard_eq_ok.mp h
    obtain ⟨-, h⟩ := guard_eq_ok.mp h
    split at h
    · cases h
    · obtain ⟨none, h⟩ := then_eq_ok.mp h
      cases h
      exact .inl ⟨by rw [sourceOf?, heading], noOrphans_eq_ok.mp none, rfl, rfl⟩
  · rename_i heading
    rw [fieldOf?, heading] at head
    cases head

/-- The groups that are no charge have one root each, in order. -/
theorem addGroups_ok (heads : ∀ g ∈ gs, fieldOf? g.head = none) (h : gs.foldlM addGroup r = .ok r') :
    (∀ g ∈ gs, sourceOf? g.head = none → g.fields = []) ∧
      ∃ roots, List.Forall₂ Rooted (gs.filter fun g => isSourced g.head) roots ∧
        r'.params = r.params ++ roots.filter (fun e => e.name?.isSome) ∧
        r'.returns?.toList = r.returns?.toList ++ roots.filter (fun e => e.name?.isNone) := by
  -- by induction on the groups: what is declared so far is kept, and each group adds its tree
  -- at the end
  induction gs generalizing r with
  | nil =>
      rw [List.foldlM_nil] at h
      cases h
      exact ⟨by simp, [], .nil, by simp, by simp⟩
  | cons g gs ih =>
      rw [List.foldlM_cons] at h
      obtain ⟨next, added, h⟩ := bind_eq_ok.mp h
      obtain ⟨head, heads⟩ := List.forall_mem_cons.mp heads
      obtain ⟨charges, roots, rooted, params, returns⟩ := ih heads h
      rcases addGroup_ok head added with ⟨charge, fields, sameParams, sameReturns⟩ |
        ⟨root, rootedFirst, added⟩
      · refine ⟨List.forall_mem_cons.mpr ⟨fun _ => fields, charges⟩, roots, ?_, ?_, ?_⟩
        · rwa [List.filter_cons_of_neg (by simp [isSourced, charge])]
        · rw [params, sameParams]
        · rw [returns, sameReturns]
      · obtain ⟨s, draft, source, -⟩ := id rootedFirst
        refine ⟨List.forall_mem_cons.mpr ⟨fun charge => ?_, charges⟩, root :: roots, ?_, ?_⟩
        · rw [source] at charge
          cases charge
        · rw [List.filter_cons_of_pos (by simp [isSourced, source])]
          exact .cons rootedFirst rooted
        · rw [params, returns]
          rcases added with ⟨named, add, same⟩ | ⟨unnamed, first, same, add⟩
          · rw [add, same, List.filter_cons_of_pos (by simpa using named),
              List.filter_cons_of_neg (by simpa using Option.isSome_iff_ne_none.mp named)]
            simp
          · rw [add, same, first, List.filter_cons_of_neg (by simp [unnamed]),
              List.filter_cons_of_pos (by simp [unnamed])]
            simp

/-- The declarations that have drafts are those of the groups that are no charge. -/
theorem flatMap_declarations (charges : ∀ g ∈ gs, sourceOf? g.head = none → g.fields = []) :
    (gs.flatMap Group.declarations).filter isSourced =
      (gs.filter fun g => isSourced g.head).flatMap Group.declarations := by
  induction gs with
  | nil => rfl
  | cons g gs ih =>
      obtain ⟨charge, charges⟩ := List.forall_mem_cons.mp charges
      rw [List.flatMap_cons, List.filter_append, ih charges]
      cases source : sourceOf? g.head with
      | none => simp [isSourced, source, Group.declarations, charge source]
      | some s =>
          have head : isSourced g.head = true := by rw [isSourced, source]; rfl
          have all : g.declarations.filter isSourced = g.declarations := by
            refine List.filter_eq_self.mpr (List.forall_mem_cons.mpr ⟨head, fun d hd => ?_⟩)
            obtain ⟨f, -, rfl⟩ := List.mem_map.mp hd
            rfl
          rw [all, List.filter_cons, if_pos head, List.flatMap_cons]

/-- All fields of a group are read into its root. -/
theorem Rooted.laid (h : Rooted g root) (indented : ∀ f ∈ g.fields, 1 ≤ f.indent) :
    Laid (g.fields.map Field.indent) root.schema ∧ (∃ s, sourceOf? g.head = some s ∧ Declares s root) ∧
      List.Forall₂ (fun f e => Declares f.source e) g.fields (allDrafts root.schema) := by
  obtain ⟨s, draft, head, source, fields⟩ := h
  obtain ⟨⟨schema, rest⟩, read, fields⟩ := bind_eq_ok.mp fields
  cases fields
  obtain rfl := readFields_all (Nat.lt_succ_self _) indented read
  obtain ⟨taken, split, -, -, laid, declared⟩ := readFields_laid (Nat.lt_succ_self _) read
  rw [split, List.append_nil]
  exact ⟨laid, ⟨s, head, draft, source, rfl⟩, declared⟩

/-- The indentations of a group. -/
theorem Group.indents (head : fieldOf? g.head = none) :
    g.declarations.map indentOf = 0 :: g.fields.map Field.indent := by
  rw [declarations, List.map_cons, List.map_map, indentOf_head head]
  rfl

/-- A group starts with a line that is not indented. -/
theorem head?_indents (heads : ∀ g ∈ gs, fieldOf? g.head = none) :
    ∀ m ∈ ((gs.flatMap Group.declarations).map indentOf).head?, m = 0 := by
  cases gs with
  | nil => simp
  | cons g gs => simp [Group.declarations, indentOf_head (heads g List.mem_cons_self)]

/-- The roots of groups are the forest of their lines. -/
theorem rooted_laid (heads : ∀ g ∈ gs, fieldOf? g.head = none)
    (indented : ∀ g ∈ gs, ∀ f ∈ g.fields, 1 ≤ f.indent) (h : List.Forall₂ Rooted gs roots) :
    Laid ((gs.flatMap Group.declarations).map indentOf) roots ∧
      List.Forall₂ (fun d e => ∃ s, sourceOf? d = some s ∧ Declares s e)
        (gs.flatMap Group.declarations) (allDrafts roots) := by
  -- by induction on the groups: each is one tree, and the next one starts at the top level
  induction h with
  | nil => exact ⟨.nil, .nil⟩
  | @cons g root gs roots rooted rest ih =>
      obtain ⟨first, indented⟩ := List.forall_mem_cons.mp indented
      obtain ⟨head, heads⟩ := List.forall_mem_cons.mp heads
      obtain ⟨laidRest, declaredRest⟩ := ih heads indented
      obtain ⟨laid, source, declared⟩ := rooted.laid first
      rw [List.flatMap_cons, List.map_append, allDrafts_cons, Group.indents head]
      constructor
      · refine .cons ?_ (fun m hm => Nat.le_of_eq (head?_indents heads m hm)) laid laidRest
        intro m hm
        obtain ⟨f, hf, rfl⟩ := List.mem_map.mp hm
        exact first f hf
      · refine List.rel_append (.cons source ?_) declaredRest
        rw [List.forall₂_map_left_iff]
        exact declared.imp fun f e h => ⟨f.source, rfl, h⟩

/-- The run over the groups of a block grows the forest of its outline. -/
theorem run_arranged (indented : Indented ds) (orphans : (groups ds).1 = [])
    (run : (groups ds).2.foldlM addGroup {} = .ok r) : Arranged (ds.filter isSourced) r := by
  obtain ⟨charges, roots, rooted, params, returns⟩ := addGroups_ok (groups_heads ds) run
  have block : ds.filter isSourced =
      ((groups ds).2.filter fun g => isSourced g.head).flatMap Group.declarations := by
    rw [← flatMap_declarations charges, flatMap_groups orphans]
  obtain ⟨laid, declared⟩ := rooted_laid (fun g hg => groups_heads ds g (List.mem_of_mem_filter hg))
    (fun g hg => indented.fields g (List.mem_of_mem_filter hg)) rooted
  rw [← block] at laid declared
  exact ⟨roots, ⟨declared, laid.roots, laid.fields⟩, by simpa using params, by simpa using returns⟩

/-- **What is read from a block is the forest of its outline.** A charge is no part of it. -/
theorem read_arranged (indented : Indented ds) (h : read ds = .ok r) :
    Arranged (ds.filter isSourced) r :=
  run_arranged indented (read_orphans h) (read_ok h).1

namespace Grown

theorem tags (h : Grown ds roots) : ds.map tagOf? = (allDrafts roots).map fun e => some e.type := by
  refine map_eq_map h.declared fun d e ⟨s, source, declares⟩ => ?_
  rw [tagOf?, source, Option.bind_some, declares.type]

theorem names (h : Grown ds roots) : ds.map nameOf? = (allDrafts roots).map Draft.name? := by
  refine map_eq_map h.declared fun d e ⟨s, source, declares⟩ => ?_
  rw [nameOf?, source, Option.bind_some, declares.name]

end Grown

theorem Built.drafts (h : d.Built) : ∀ e ∈ d.drafts, e.Built := by
  induction h with
  | @mk d members fields below ih =>
      rw [drafts_eq]
      refine List.forall_mem_cons.mpr ⟨.mk members fields below, fun e he => ?_⟩
      obtain ⟨f, hf, he⟩ := mem_allDrafts.mp he
      exact ih f hf e he

/-- A draft has no more fields than its type takes. -/
theorem Built.takes (h : e.Built) : Takes e.type e.schema.length := by
  cases h with
  | mk _ fields _ =>
      exact ⟨fun some => fields.container (by simpa using some), fields.single⟩

/-- In the outline of a forest that is built every line takes its children. -/
theorem Grown.fits (h : Grown ds roots) (built : ∀ root ∈ roots, root.Built) :
    Fits (ds.map indentOf) (ds.map tagOf?) := by
  intro i t ht
  rw [h.tags, List.getElem?_map] at ht
  obtain ⟨e, he, type⟩ := Option.map_eq_some_iff.mp ht
  have count := congrArg List.length (h.nested he)
  rw [List.length_map, List.length_map] at count
  rw [← Option.some.inj type, ← count]
  obtain ⟨root, hroot, he⟩ := mem_allDrafts.mp (List.mem_of_getElem? he)
  exact ((built root hroot).drafts e he).takes

/-- The roots of a block are its parameters and its return value. -/
theorem Arranged.mem_roots (params : r.params = roots.filter fun e => e.name?.isSome)
    (returns : r.returns?.toList = roots.filter fun e => e.name?.isNone) :
    root ∈ roots ↔ root ∈ r.params ∨ r.returns? = some root := by
  rw [← Option.mem_toList, params, returns, List.mem_filter, List.mem_filter, ← and_or_left]
  cases root.name? <;> simp

end Docsig.Definition.Draft
