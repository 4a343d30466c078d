import Docsig.Proofs.Definition.Nesting

/-!
Which lines of a block belong to what.

`outline` gives every declaration of a block its level, and `belonging` picks those of one
kind with the fields below them. A block is picked group by group (`belonging_groups`): the
lines that belong to a kind are the outlines of the groups whose head is of that kind.
-/

namespace Docsig.Definition.Draft

open Comment (Declaration)
open Outline (levels)

def isField (d : Declaration) : Bool := (fieldOf? d).isSome

def isParam (d : Declaration) : Bool :=
  match d.heading with
  | .param _ _ _ => true
  | _ => false

def isReturns (d : Declaration) : Bool :=
  match d.heading with
  | .returns _ _ => true
  | _ => false

/-- The declarations of a block with their levels. -/
def outline (ds : List Declaration) : List (Nat × Declaration) := (levels (ds.map indentOf)).zip ds

/-- The lines that belong to declarations of a kind: these, and the fields below each of
them. `inside` says whether the fields at the start do. -/
def belonging (own : Declaration → Bool) (inside : Bool) :
    List (Nat × Declaration) → List (Nat × Declaration)
  | [] => []
  | l :: ls =>
      let inside := if isField l.2 then inside else own l.2
      if inside then l :: belonging own inside ls else belonging own inside ls

variable {ds es : List Declaration} {g : Group} {gs : List Group} {own : Declaration → Bool}
  {inside : Bool} {s : Source} {r : Declared} {root : Draft} {roots : List Draft}

/-! ### Groups -/

/-- Outlines are joined where the second starts at the top level. -/
theorem outline_append (h : ∀ m ∈ (es.map indentOf).head?, m = 0) :
    outline (ds ++ es) = outline ds ++ outline es := by
  have apart : ∀ m ∈ (es.map indentOf).head?, ∀ n ∈ ds.map indentOf, m ≤ n :=
    fun m hm n _ => h m hm ▸ Nat.zero_le n
  rw [outline, List.map_append, Outline.levels_append apart, List.zip_append]
  · rfl
  · rw [Outline.length_levels, List.length_map]

/-- The lines of the fields of a group, from a depth on. -/
def Group.fieldLines (g : Group) (depth : Nat) : List (Nat × Declaration) :=
  ((levels (g.fields.map Field.indent)).map (depth + ·)).zip (g.fields.map Field.declaration)

/-- The fields of a group are one level below what they are nested in, and its head is above
all of them. -/
theorem outline_group (head : fieldOf? g.head = none) (indented : ∀ f ∈ g.fields, 1 ≤ f.indent) :
    outline g.declarations = (0, g.head) :: g.fieldLines 1 := by
  have more : ∀ m ∈ g.fields.map Field.indent, 0 < m := by
    intro m hm
    obtain ⟨f, hf, rfl⟩ := List.mem_map.mp hm
    exact indented f hf
  rw [outline, Group.indents head, Outline.levels_cons more]
  simp only [Nat.add_comm _ 1]
  rfl

theorem outline_groups (heads : ∀ g ∈ gs, fieldOf? g.head = none) :
    outline (gs.flatMap Group.declarations) = gs.flatMap fun g => outline g.declarations := by
  induction gs with
  | nil => rfl
  | cons g gs ih =>
      obtain ⟨-, heads⟩ := List.forall_mem_cons.mp heads
      rw [List.flatMap_cons, outline_append (head?_indents heads), ih heads, List.flatMap_cons]

/-! ### Kinds -/

/-- Fields belong to what is above them. -/
theorem belonging_fields {ls rest : List (Nat × Declaration)} (fields : ∀ l ∈ ls, isField l.2 = true) :
    belonging own inside (ls ++ rest) =
      (if inside then ls else []) ++ belonging own inside rest := by
  induction ls with
  | nil => simp
  | cons l ls ih =>
      obtain ⟨field, fields⟩ := List.forall_mem_cons.mp fields
      rw [List.cons_append, belonging]
      simp only [field, if_true, ih fields]
      cases inside <;> simp

theorem isField_fieldLines {depth : Nat} : ∀ l ∈ g.fieldLines depth, isField l.2 = true := by
  intro l hl
  obtain ⟨f, -, eq⟩ := List.mem_map.mp (List.of_mem_zip hl).2
  rw [← eq]
  rfl

/-- **The lines that belong to a kind are those of the groups with a head of that kind.** -/
theorem belonging_groups (heads : ∀ g ∈ gs, fieldOf? g.head = none)
    (indented : ∀ g ∈ gs, ∀ f ∈ g.fields, 1 ≤ f.indent) :
    belonging own inside (outline (gs.flatMap Group.declarations)) =
      (gs.filter fun g => own g.head).flatMap fun g => outline g.declarations := by
  rw [outline_groups heads]
  induction gs generalizing inside with
  | nil => rfl
  | cons g gs ih =>
      obtain ⟨head, heads⟩ := List.forall_mem_cons.mp heads
      obtain ⟨first, indented⟩ := List.forall_mem_cons.mp indented
      have field : isField g.head = false := by rw [isField, head]; rfl
      rw [List.flatMap_cons, outline_group head first, List.cons_append, belonging]
      simp only [field, Bool.false_eq_true, if_false]
      rw [belonging_fields isField_fieldLines, ih heads indented, List.filter_cons]
      cases own g.head with
      | false => simp
      | true => simp [outline_group head first]

/-! ### What is read -/

/-- What has a draft and is no field is a parameter if it has a name, and else a return
value. -/
theorem isParam_eq {d : Declaration} (head : fieldOf? d = none) (source : sourceOf? d = some s) :
    isParam d = s.name?.isSome ∧ isReturns d = s.name?.isNone := by
  unfold sourceOf? at source
  unfold isParam isReturns
  cases heading : d.heading with
  | field indent type name text => simp [fieldOf?, heading] at head
  | charge amount => simp [heading] at source
  | param type name text =>
      simp only [heading, Option.some.injEq] at source
      subst source
      exact ⟨rfl, rfl⟩
  | returns type text =>
      simp only [heading, Option.some.injEq] at source
      subst source
      exact ⟨rfl, rfl⟩

/-- A charge is neither. -/
theorem isSourced_of_param {d : Declaration} (h : isParam d = true) : isSourced d = true := by
  unfold isParam at h
  unfold isSourced sourceOf?
  split at h
  · rename_i heading
    rw [heading]
    rfl
  · cases h

theorem isSourced_of_returns {d : Declaration} (h : isReturns d = true) : isSourced d = true := by
  unfold isReturns at h
  unfold isSourced sourceOf?
  split at h
  · rename_i heading
    rw [heading]
    rfl
  · cases h

theorem filter_isSourced (sourced : ∀ d, own d = true → isSourced d = true) :
    (gs.filter fun g => isSourced g.head).filter (fun g => own g.head) =
      gs.filter fun g => own g.head := by
  rw [List.filter_filter]
  refine List.filter_congr fun g _ => ?_
  cases kind : own g.head with
  | false => rfl
  | true => exact sourced g.head kind

/-- The name of a root is the one that its source has. -/
theorem Rooted.name (h : Rooted g root) : ∃ s, sourceOf? g.head = some s ∧ root.name? = s.name? := by
  obtain ⟨s, draft, head, source, fields⟩ := h
  exact ⟨s, head, (withFields_built source fields).1⟩

/-- Roots with a name are those of parameters, roots without one those of return values. -/
theorem rooted_kinds (heads : ∀ g ∈ gs, fieldOf? g.head = none) (h : List.Forall₂ Rooted gs roots) :
    List.Forall₂ Rooted (gs.filter fun g => isParam g.head)
        (roots.filter fun e => e.name?.isSome) ∧
      List.Forall₂ Rooted (gs.filter fun g => isReturns g.head)
        (roots.filter fun e => e.name?.isNone) := by
  induction h with
  | nil => exact ⟨.nil, .nil⟩
  | @cons g root gs roots rooted _ ih =>
      obtain ⟨head, heads⟩ := List.forall_mem_cons.mp heads
      obtain ⟨params, returns⟩ := ih heads
      obtain ⟨s, source, name⟩ := rooted.name
      obtain ⟨param, return_⟩ := isParam_eq head source
      rw [List.filter_cons, List.filter_cons, List.filter_cons, List.filter_cons, param, return_, name]
      cases s.name? with
      | none => exact ⟨params, .cons rooted returns⟩
      | some n => exact ⟨.cons rooted params, returns⟩

/-- The parameters of a block are the roots of its groups with a parameter, and its return
value is the root of the group with one. -/
theorem read_rooted (h : read ds = .ok r) :
    List.Forall₂ Rooted ((groups ds).2.filter fun g => isParam g.head) r.params ∧
      List.Forall₂ Rooted ((groups ds).2.filter fun g => isReturns g.head) r.returns?.toList := by
  have heads := groups_heads ds
  obtain ⟨-, roots, rooted, params, returns⟩ := addGroups_ok heads (read_ok h).1
  have kinds := rooted_kinds (fun g hg => heads g (List.mem_of_mem_filter hg)) rooted
  rw [filter_isSourced fun _ => isSourced_of_param,
    filter_isSourced fun _ => isSourced_of_returns] at kinds
  rw [params, returns]
  exact kinds

/-- The lines of a block that is read, by kind. -/
theorem read_belonging (indented : Indented ds) (h : read ds = .ok r) :
    belonging own inside (outline ds) =
      ((groups ds).2.filter fun g => own g.head).flatMap fun g => outline g.declarations := by
  rw [← belonging_groups (groups_heads ds) indented.fields, flatMap_groups (read_orphans h)]

/-- A block with a parameter has parameters. -/
theorem read_params_ne_nil (h : read ds = .ok r) (declared : ∃ d ∈ ds, isParam d = true) :
    r.params ≠ [] := by
  obtain ⟨d, hd, param⟩ := declared
  have rooted := (read_rooted h).1
  rw [← flatMap_groups (read_orphans h)] at hd
  obtain ⟨g, hg, hd⟩ := List.mem_flatMap.mp hd
  have head : isParam g.head = true := by
    rcases List.mem_cons.mp hd with rfl | hd
    · exact param
    · obtain ⟨f, -, rfl⟩ := List.mem_map.mp hd
      cases param
  obtain ⟨root, member, -⟩ := exists_of_mem_left rooted (List.mem_filter.mpr ⟨hg, head⟩)
  exact List.ne_nil_of_mem member

/-- What belongs to a kind stands in the order of the block. -/
theorem belonging_sublist (own : Declaration → Bool) (inside : Bool) (ls : List (Nat × Declaration)) :
    (belonging own inside ls).Sublist ls := by
  induction ls generalizing inside with
  | nil => exact .slnil
  | cons l ls ih =>
      rw [belonging]
      generalize (if isField l.2 then inside else own l.2) = within
      cases within with
      | false => exact (ih false).cons l
      | true => exact (ih true).cons_cons l

/-- What belongs to a declaration is a declaration of the block. -/
theorem mem_of_belonging {l : Nat × Declaration} (hl : l ∈ belonging own inside (outline ds)) :
    l.2 ∈ ds :=
  (List.of_mem_zip ((belonging_sublist _ _ _).subset hl)).2

end Docsig.Definition.Draft
