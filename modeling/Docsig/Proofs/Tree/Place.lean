import Docsig.Proofs.Result
import Docsig.Proofs.Tree.Edit
import Docsig.Proofs.Tree.Path
import Docsig.Tree.Place
import Mathlib.Data.List.Basic

/-!
What walks and new files leave at the places of a tree.

`kind?` says what stands at a place: nothing, a directory, or a file with its contents. A
leaf put below a directory changes that at its own place alone (`kind?_edit`), so a walk
turns the places that it passes into directories (`kind?_makeDirectories`) and a new file
adds its own (`kind?_create`).

* `exists_makeDirectories`: a walk comes to its end exactly if no file is in its way.
* `exists_createAll`, `kind?_createAll_last`: files are created one after the other exactly
  if they have room, and the last of those that are put at one place stands there.
-/

namespace Docsig

namespace Place

theorem mem_passed_start (here : Place) (segments : List String) :
    here ∈ here.passed segments := by
  cases segments <;> exact List.mem_cons_self

theorem follow_mem_passed (here : Place) (segments : List String) :
    here.follow segments ∈ here.passed segments := by
  induction segments generalizing here with
  | nil => exact List.mem_cons_self
  | cons segment segments ih => exact List.mem_cons_of_mem here (ih (here.step segment))

/-- The segments of a path are followed one part after the other. -/
theorem follow_append (here : Place) (segments more : List String) :
    here.follow (segments ++ more) = (here.follow segments).follow more :=
  List.foldl_append

/-- Proper names lead down. -/
theorem follow_names {names : List String} (proper : ∀ name ∈ names, Path.IsProper name)
    (here : Place) : here.follow names = here ++ names := by
  induction names generalizing here with
  | nil => exact (List.append_nil here).symm
  | cons name names ih =>
      obtain ⟨first, others⟩ := List.forall_mem_cons.mp proper
      have down : here.step name = here ++ [name] := by
        rw [step, if_neg first.ne_point, if_neg first.ne_above]
      rw [follow, List.foldl_cons, ← follow, ih others, down, List.append_assoc]
      rfl

end Place

namespace Tree

variable {name other segment : String} {segments : List String} {here p q : Place}
  {es : List (String × Tree)} {t t' u : Tree} {c : Definition.Contents}

/-! ### What stands at a place -/

/-- A directory, or a file with its contents. -/
inductive Kind where
  | directory
  | file (contents : Definition.Contents)
  deriving Repr

def kind : Tree → Kind
  | directory _ => .directory
  | file c => .file c

def kind? (t : Tree) (p : Place) : Option Kind := (t.at? p).map kind

theorem kind?_eq_directory : t.kind? p = some .directory ↔ ∃ es, t.at? p = some (directory es) := by
  rw [kind?, Option.map_eq_some_iff]
  constructor
  · rintro ⟨u, found, kind⟩
    cases u with
    | directory es => exact ⟨es, found⟩
    | file c => cases kind
  · rintro ⟨es, found⟩
    exact ⟨_, found, rfl⟩

theorem kind?_eq_file : t.kind? p = some (.file c) ↔ t.at? p = some (file c) := by
  rw [kind?, Option.map_eq_some_iff]
  constructor
  · rintro ⟨u, found, kind⟩
    cases u with
    | directory es => cases kind
    | file d => cases kind; exact found
  · exact fun found => ⟨_, found, rfl⟩

theorem kind?_append (found : t.at? p = some u) : t.kind? (p ++ q) = u.kind? q := by
  rw [kind?, at?_append, found]
  rfl

/-- Whatever stands below something stands below a directory. -/
theorem kind?_above {k : Kind} (below : t.kind? (p ++ [name]) = some k) :
    t.kind? p = some .directory := by
  rw [kind?, at?_append] at below
  rw [kind?_eq_directory]
  cases found : t.at? p with
  | none =>
      rw [found] at below
      cases below
  | some u =>
      rw [found] at below
      cases u with
      | directory es => exact ⟨es, rfl⟩
      | file d => cases below

/-- What a directory stands in is a directory. -/
theorem kind?_dropLast (dir : t.kind? p = some .directory) :
    t.kind? p.dropLast = some .directory := by
  rcases List.eq_nil_or_concat' p with rfl | ⟨above, name, rfl⟩
  · exact dir
  · rw [List.dropLast_concat]
    exact kind?_above dir

theorem kind?_root (dir : t.kind? p = some .directory) : t.kind? [] = some .directory := by
  cases t with
  | directory es => rfl
  | file c =>
      cases p with
      | nil => exact dir
      | cons name p => cases dir

/-! ### Leaves -/

theorem kind?_put : (directory (put name (some u) es)).kind? (other :: q) =
    if name = other then u.kind? q else (directory es).kind? (other :: q) := by
  rw [kind?, at?_put]
  split <;> rfl

/-- An entry that is put changes what stands where it differs from the one before, and
nothing else. -/
theorem kind?_put_eq {k : Option Kind}
    (below : ∀ q, u.kind? q = if q = p then k else (directory es).kind? (name :: q)) :
    (directory (put name (some u) es)).kind? q =
      if q = name :: p then k else (directory es).kind? q := by
  cases q with
  | nil => rfl
  | cons other q =>
      rw [kind?_put]
      by_cases same : name = other
      · subst same
        rw [if_pos rfl, below]
        simp
      · simp [same, Ne.symm same]

/-- A tree with nothing below it. -/
def IsLeaf (u : Tree) : Prop := ∀ q, u.kind? q = if q = [] then some u.kind else none

theorem isLeaf_file (c : Definition.Contents) : IsLeaf (file c) := by
  intro q
  cases q <;> rfl

theorem isLeaf_empty : IsLeaf empty := by
  intro q
  cases q <;> rfl

/-- Nothing stands below a place without a directory. -/
theorem kind?_below (free : t.kind? p ≠ some .directory) (ne : q ≠ []) : t.kind? (p ++ q) = none := by
  rw [kind?, at?_append]
  cases found : t.at? p with
  | none => rfl
  | some u =>
      cases u with
      | directory es => exact absurd (kind?_eq_directory.mpr ⟨es, found⟩) free
      | file d =>
          rw [Option.bind_some, at?_file ne]
          rfl

/-- **A leaf put below a directory changes what stands at its own place alone**, if no
directory was there. -/
theorem kind?_edit {change : Option Tree → Option Tree} (leaf : IsLeaf u)
    (changed : ∀ old, old.map kind ≠ some .directory → change old = some u)
    (dir : t.kind? p = some .directory) (free : t.kind? (p ++ [name]) ≠ some .directory) :
    (directory (edit change (p ++ [name]) t.entries)).kind? q =
      if q = p ++ [name] then some u.kind else t.kind? q := by
  induction p generalizing t q with
  | nil =>
      obtain ⟨es, found⟩ := kind?_eq_directory.mp dir
      cases found
      have old : change (child? name es) = some u := by
        refine changed _ fun isDirectory => free ?_
        rw [kind?, List.nil_append, at?, entries]
        cases found : child? name es with
        | none => rw [found] at isDirectory; cases isDirectory
        | some v => rw [found] at isDirectory; exact isDirectory
      rw [List.nil_append, edit, entries, old]
      refine kind?_put_eq fun q => ?_
      rw [leaf]
      split
      · rfl
      · rename_i further
        exact (kind?_below free further).symm
  | cons first p ih =>
      cases t with
      | file d => cases dir
      | directory es =>
          obtain ⟨ds, found⟩ := kind?_eq_directory.mp dir
          obtain ⟨v, hv, found⟩ := Option.bind_eq_some_iff.mp found
          have under : (directory es).under first = v := by
            rw [Tree.under, hv]
            rfl
          have down (q : Place) : (directory es).kind? (first :: q) = v.kind? q :=
            kind?_append (p := [first]) (by rw [at?, hv]; rfl)
          rw [List.cons_append, down] at free
          rw [down] at dir
          rw [List.cons_append, edit_cons change (by simp), under, entries]
          refine kind?_put_eq fun q => ?_
          rw [ih dir free, down]

/-! ### Directories -/

/-- A segment can be gone along if it holds no null character. -/
theorem enter_eq_ok (dir : t.kind? here = some .directory) :
    t.enter here segment = .ok t' ↔ ¬ Text.HasNull segment.toList ∧
      t' = if (t.at? (here.step segment)).isSome then t else t.makeDirectory (here.step segment) := by
  obtain ⟨es, found⟩ := kind?_eq_directory.mp dir
  rw [enter, guard_eq_ok, found]
  exact and_congr_right fun _ => ⟨fun h => (Except.ok.inj h).symm, fun h => h ▸ rfl⟩

/-- A segment leads nowhere, up, or to its name. -/
theorem step_cases (here : Place) (segment : String) :
    here.step segment = here ∨ here.step segment = here.dropLast ∨
      here.step segment = here ++ [segment] := by
  unfold Place.step
  split
  · exact .inl rfl
  · split
    · exact .inr (.inl rfl)
    · exact .inr (.inr rfl)

/-- A directory made where nothing stands is there afterwards, and nothing else changes. -/
theorem kind?_makeDirectory (dir : t.kind? p = some .directory)
    (absent : t.kind? (p ++ [name]) = none) : (t.makeDirectory (p ++ [name])).kind? q =
      if q = p ++ [name] then some .directory else t.kind? q := by
  refine kind?_edit isLeaf_empty (fun old file => ?_) dir (by rw [absent]; exact nofun)
  cases old with
  | none => rfl
  | some v =>
      cases v with
      | directory es => exact absurd rfl file
      | file d => rfl

/-- A segment leads to what was there before, or to a new directory. -/
theorem kind?_enter (dir : t.kind? here = some .directory) (h : t.enter here segment = .ok t') :
    t'.kind? q = if q = here.step segment ∧ t.kind? q = none then some .directory else t.kind? q := by
  obtain ⟨-, rfl⟩ := (enter_eq_ok dir).mp h
  by_cases found : (t.at? (here.step segment)).isSome
  · rw [if_pos found, if_neg]
    rintro ⟨rfl, absent⟩
    rw [Option.map_eq_none_iff.mp absent] at found
    cases found
  · -- what is missing can only be an entry that the segment names
    have absent : t.kind? (here.step segment) = none :=
      Option.map_eq_none_iff.mpr (by simpa using found)
    rcases step_cases here segment with same | up | down
    · rw [same, dir] at absent
      cases absent
    · rw [up, kind?_dropLast dir] at absent
      cases absent
    · rw [down] at absent
      rw [if_neg found, down, kind?_makeDirectory dir absent]
      exact if_congr ⟨fun here => ⟨here, here ▸ absent⟩, And.left⟩ rfl rfl

theorem kind?_enter_file (dir : t.kind? here = some .directory)
    (h : t.enter here segment = .ok t') :
    t'.kind? q = some (.file c) ↔ t.kind? q = some (.file c) := by
  rw [kind?_enter dir h]
  split
  · rename_i absent
    rw [absent.2]
    exact iff_of_false nofun nofun
  · rfl

theorem kind?_enter_step (dir : t.kind? here = some .directory)
    (h : t.enter here segment = .ok t')
    (clear : ∀ c, t.kind? (here.step segment) ≠ some (.file c)) :
    t'.kind? (here.step segment) = some .directory := by
  rw [kind?_enter dir h]
  cases found : t.kind? (here.step segment) with
  | none => exact if_pos ⟨rfl, rfl⟩
  | some k =>
      cases k with
      | directory => exact if_neg fun h => nomatch h.2
      | file c => exact absurd found (clear c)

/-- No walk starts at a file. -/
theorem makeDirectories_start (h : t.makeDirectories here segments = .ok t') :
    t.kind? here ≠ some (.file c) := by
  intro isFile
  have found := kind?_eq_file.mp isFile
  cases segments with
  | nil =>
      rw [makeDirectories, found] at h
      cases h
  | cons segment segments =>
      obtain ⟨t₁, step, -⟩ := bind_eq_ok.mp h
      rw [enter, guard_eq_ok, found] at step
      cases step.2

/-- A walk that comes to its end goes on from a directory. -/
theorem makeDirectories_step {t₁ : Tree} (dir : t.kind? here = some .directory)
    (step : t.enter here segment = .ok t₁)
    (run : t₁.makeDirectories (here.step segment) segments = .ok t') :
    t₁.kind? (here.step segment) = some .directory :=
  kind?_enter_step dir step fun _ isFile =>
    makeDirectories_start run ((kind?_enter_file dir step).mpr isFile)

/-- **A walk comes to its end exactly if no file is in its way** and no segment holds a null
character. -/
theorem exists_makeDirectories (dir : t.kind? here = some .directory) :
    (∃ t', t.makeDirectories here segments = .ok t') ↔
      (∀ s ∈ segments, ¬ Text.HasNull s.toList) ∧
        ∀ p ∈ here.passed segments, ∀ c, t.kind? p ≠ some (.file c) := by
  -- by induction on the segments: a step makes directories only, so the files in the way are
  -- those of the start
  induction segments generalizing t here with
  | nil =>
      obtain ⟨es, found⟩ := kind?_eq_directory.mp dir
      refine iff_of_true ⟨t, by rw [makeDirectories, found]⟩ ⟨by simp, fun p hp c => ?_⟩
      rw [List.mem_singleton.mp hp, dir]
      exact nofun
  | cons segment segments ih =>
      rw [List.forall_mem_cons, Place.passed, List.forall_mem_cons]
      constructor
      · rintro ⟨t', h⟩
        obtain ⟨t₁, step, run⟩ := bind_eq_ok.mp h
        obtain ⟨plain, free⟩ := (ih (makeDirectories_step dir step run)).mp ⟨t', run⟩
        refine ⟨⟨((enter_eq_ok dir).mp step).1, plain⟩, fun c => by rw [dir]; exact nofun, ?_⟩
        exact fun p hp c isFile => free p hp c ((kind?_enter_file dir step).mpr isFile)
      · rintro ⟨⟨noNull, plain⟩, -, free⟩
        have step := (enter_eq_ok dir).mpr ⟨noNull, rfl⟩
        have clear := free (here.step segment) (Place.mem_passed_start _ _)
        obtain ⟨t', run⟩ := (ih (kind?_enter_step dir step clear)).mpr
          ⟨plain, fun p hp c isFile => free p hp c ((kind?_enter_file dir step).mp isFile)⟩
        exact ⟨t', bind_eq_ok.mpr ⟨_, step, run⟩⟩

/-- **A walk turns the places that it passes into directories**, and leaves the others. -/
theorem kind?_makeDirectories (dir : t.kind? here = some .directory)
    (h : t.makeDirectories here segments = .ok t') :
    t'.kind? q = if q ∈ here.passed segments then some .directory else t.kind? q := by
  induction segments generalizing t here with
  | nil =>
      obtain ⟨es, found⟩ := kind?_eq_directory.mp dir
      rw [makeDirectories, found] at h
      cases h
      rw [Place.passed]
      by_cases same : q = here
      · rw [if_pos (List.mem_singleton.mpr same), same, dir]
      · rw [if_neg fun mem => same (List.mem_singleton.mp mem)]
  | cons segment segments ih =>
      obtain ⟨t₁, step, run⟩ := bind_eq_ok.mp h
      rw [ih (makeDirectories_step dir step run) run, Place.passed]
      by_cases later : q ∈ (here.step segment).passed segments
      · rw [if_pos later, if_pos (List.mem_cons_of_mem _ later)]
      · rw [if_neg later, kind?_enter dir step, if_neg]
        · by_cases same : q = here
          · rw [if_pos (List.mem_cons.mpr (.inl same)), same, dir]
          · rw [if_neg fun mem => (List.mem_cons.mp mem).elim same later]
        · exact fun h => later (h.1 ▸ Place.mem_passed_start _ _)

/-! ### Files -/

variable {r r' : Route} {rs : List Route}

/-- There is room for a file at the end of a route. -/
structure Fits (t : Tree) (r : Route) : Prop where
  plain : ∀ s ∈ r.directories ++ [r.name], ¬ Text.HasNull s.toList
  clear : ∀ p ∈ r.passed, ∀ c, t.kind? p ≠ some (.file c)
  free : t.kind? r.place ≠ some .directory

theorem create_eq_ok : t.create r c = .ok t' ↔ ∃ t₁,
    t.makeDirectories r.start r.directories = .ok t₁ ∧ ¬ Text.HasNull r.name.toList ∧
      t₁.kind? r.place ≠ some .directory ∧ t' = t₁.write r.place c := by
  rw [create, bind_eq_ok]
  refine exists_congr fun t₁ => and_congr_right fun _ => ?_
  rw [guard_eq_ok]
  refine and_congr_right fun _ => ?_
  cases found : t₁.at? r.place with
  | none => simp [kind?, found, eq_comm]
  | some u => cases u <;> simp [kind?, kind, found, eq_comm]

/-- **A file is created exactly if there is room for it** and its route does not lead through
its own place. -/
theorem exists_create (dir : t.kind? r.start = some .directory) :
    (∃ t', t.create r c = .ok t') ↔ t.Fits r ∧ r.place ∉ r.passed := by
  -- the walk may turn the place of the file into a directory
  have made {t₁ : Tree} (h : t.makeDirectories r.start r.directories = .ok t₁) :
      t₁.kind? r.place ≠ some .directory ↔ t.kind? r.place ≠ some .directory ∧
        r.place ∉ r.passed := by
    rw [kind?_makeDirectories dir h]
    by_cases within : r.place ∈ r.start.passed r.directories
    · simp [within, Route.passed]
    · simp [within, Route.passed]
  constructor
  · rintro ⟨t', h⟩
    obtain ⟨t₁, walk, noNull, free, -⟩ := create_eq_ok.mp h
    obtain ⟨plain, clear⟩ := (exists_makeDirectories dir).mp ⟨t₁, walk⟩
    obtain ⟨free, apart⟩ := (made walk).mp free
    exact ⟨⟨List.forall_mem_append.mpr ⟨plain, List.forall_mem_singleton.mpr noNull⟩, clear, free⟩,
      apart⟩
  · rintro ⟨⟨plain, clear, free⟩, apart⟩
    obtain ⟨plain, noNull⟩ := List.forall_mem_append.mp plain
    obtain ⟨t₁, walk⟩ := (exists_makeDirectories dir).mpr ⟨plain, clear⟩
    exact ⟨_, create_eq_ok.mpr ⟨t₁, walk, noNull r.name List.mem_cons_self,
      (made walk).mpr ⟨free, apart⟩, rfl⟩⟩

/-- **What a new file leaves**: the file, directories on its way, and everything else. -/
theorem kind?_create (dir : t.kind? r.start = some .directory) (h : t.create r c = .ok t')
    (q : Place) : t'.kind? q = if q = r.place then some (.file c)
      else if q ∈ r.passed then some .directory else t.kind? q := by
  obtain ⟨t₁, walk, -, free, rfl⟩ := create_eq_ok.mp h
  have above : t₁.kind? (r.start.follow r.directories) = some .directory := by
    rw [kind?_makeDirectories dir walk, if_pos (Place.follow_mem_passed _ _)]
  rw [write, Route.place, kind?_edit (isLeaf_file c) (fun _ _ => rfl) above free,
    kind?_makeDirectories dir walk]
  rfl

/-! ### Files one after the other -/

/-- There is room for files at the ends of some routes, none of which leads through the end
of one. -/
structure HasRoom (t : Tree) (rs : List Route) : Prop where
  fits : ∀ r ∈ rs, t.Fits r
  apart : ∀ r ∈ rs, ∀ r' ∈ rs, r.place ∉ r'.passed

/-- Room does not depend on the order of the routes. -/
theorem HasRoom.congr {rs' : List Route} (same : ∀ r, r ∈ rs ↔ r ∈ rs') :
    t.HasRoom rs ↔ t.HasRoom rs' := by
  constructor
  · rintro ⟨fits, apart⟩
    exact ⟨fun r hr => fits r ((same r).mpr hr),
      fun r hr r' hr' => apart r ((same r).mpr hr) r' ((same r').mpr hr')⟩
  · rintro ⟨fits, apart⟩
    exact ⟨fun r hr => fits r ((same r).mp hr),
      fun r hr r' hr' => apart r ((same r).mp hr) r' ((same r').mp hr')⟩

/-- Neither of two routes leads through the end of the other. -/
def Apart (r r' : Route) : Prop := r.place ∉ r'.passed ∧ r'.place ∉ r.passed

/-- A new file takes the room on its way, and that of the routes through it. -/
theorem fits_create (dir : t.kind? r.start = some .directory) (h : t.create r c = .ok t') :
    t'.Fits r' ↔ t.Fits r' ∧ Apart r r' := by
  obtain ⟨⟨-, clear, free⟩, apart⟩ := (exists_create dir).mp ⟨t', h⟩
  have left := kind?_create dir h
  constructor
  · rintro ⟨plain', clear', free'⟩
    have through : r.place ∉ r'.passed := fun mem => clear' _ mem c (by rw [left, if_pos rfl])
    have within : r'.place ∉ r.passed := by
      intro mem
      have differ : r'.place ≠ r.place := fun same => apart (same ▸ mem)
      exact free' (by rw [left, if_neg differ, if_pos mem])
    refine ⟨⟨plain', fun p hp d isFile => ?_, fun isDirectory => ?_⟩, through, within⟩
    · have differ : p ≠ r.place := fun same => through (same ▸ hp)
      have outside : p ∉ r.passed := fun mem => clear p mem d isFile
      exact clear' p hp d (by rw [left, if_neg differ, if_neg outside, isFile])
    · have differ : r'.place ≠ r.place := fun same => free (same ▸ isDirectory)
      exact free' (by rw [left, if_neg differ, if_neg within, isDirectory])
  · rintro ⟨⟨plain', clear', free'⟩, through, within⟩
    refine ⟨plain', fun p hp d isFile => ?_, fun isDirectory => ?_⟩
    · have differ : p ≠ r.place := fun same => through (same ▸ hp)
      rw [left, if_neg differ] at isFile
      split at isFile
      · cases isFile
      · exact clear' p hp d isFile
    · rw [left, if_neg within] at isDirectory
      split at isDirectory
      · cases isDirectory
      · exact free' isDirectory

/-- **The room for some files is the room for the first, and for the others after that.** -/
theorem hasRoom_cons (dir : t.kind? r.start = some .directory) (h : t.create r c = .ok t') :
    t.HasRoom (r :: rs) ↔ t'.HasRoom rs := by
  obtain ⟨fits, own⟩ := (exists_create dir).mp ⟨t', h⟩
  constructor
  · rintro ⟨all, apart⟩
    refine ⟨fun r' hr' => (fits_create dir h).mpr ⟨all r' (List.mem_cons_of_mem _ hr'), ?_, ?_⟩,
      fun r₁ h₁ r₂ h₂ => apart r₁ (List.mem_cons_of_mem _ h₁) r₂ (List.mem_cons_of_mem _ h₂)⟩
    · exact apart r List.mem_cons_self r' (List.mem_cons_of_mem _ hr')
    · exact apart r' (List.mem_cons_of_mem _ hr') r List.mem_cons_self
  · rintro ⟨all, apart⟩
    have later (r' : Route) (hr' : r' ∈ rs) : t.Fits r' ∧ Apart r r' :=
      (fits_create dir h).mp (all r' hr')
    constructor
    · exact List.forall_mem_cons.mpr ⟨fits, fun r' hr' => (later r' hr').1⟩
    · refine List.forall_mem_cons.mpr ⟨?_, fun r' hr' => ?_⟩
      · exact List.forall_mem_cons.mpr ⟨own, fun r' hr' => (later r' hr').2.1⟩
      · exact List.forall_mem_cons.mpr ⟨(later r' hr').2.2, apart r' hr'⟩

/-- A directory stays one when a file is created. -/
theorem directory_create (dir : t.kind? r.start = some .directory) (h : t.create r c = .ok t')
    (there : t.kind? p = some .directory) : t'.kind? p = some .directory := by
  obtain ⟨⟨-, -, free⟩, -⟩ := (exists_create dir).mp ⟨t', h⟩
  have differ : p ≠ r.place := fun same => free (same ▸ there)
  rw [kind?_create dir h, if_neg differ, there, ite_self]

/-- A tree with files at the ends of routes. -/
def createAll (t : Tree) (fs : List (Route × Definition.Contents)) : Except Obstacle Tree :=
  fs.foldlM (fun t f => t.create f.1 f.2) t

variable {fs : List (Route × Definition.Contents)} {f : Route × Definition.Contents}

theorem createAll_cons : t.createAll (f :: fs) = .ok t' ↔
    ∃ t₁, t.create f.1 f.2 = .ok t₁ ∧ t₁.createAll fs = .ok t' := by
  rw [createAll, List.foldlM_cons, bind_eq_ok]
  rfl

/-- **Files are created one after the other exactly if there is room for all of them.** -/
theorem exists_createAll (dirs : ∀ f ∈ fs, t.kind? f.1.start = some .directory) :
    (∃ t', t.createAll fs = .ok t') ↔ t.HasRoom (fs.map Prod.fst) := by
  induction fs generalizing t with
  | nil => exact iff_of_true ⟨t, rfl⟩ ⟨by simp, by simp⟩
  | cons f fs ih =>
      obtain ⟨dir, dirs⟩ := List.forall_mem_cons.mp dirs
      have after {t₁ : Tree} (h : t.create f.1 f.2 = .ok t₁) :=
        ih fun g hg => directory_create dir h (dirs g hg)
      rw [List.map_cons]
      constructor
      · rintro ⟨t', h⟩
        obtain ⟨t₁, first, run⟩ := createAll_cons.mp h
        exact (hasRoom_cons dir first).mpr ((after first).mp ⟨t', run⟩)
      · intro room
        obtain ⟨t₁, first⟩ := (exists_create (c := f.2) dir).mpr
          ⟨room.fits _ List.mem_cons_self, room.apart _ List.mem_cons_self _ List.mem_cons_self⟩
        obtain ⟨t', run⟩ := (after first).mpr ((hasRoom_cons dir first).mp room)
        exact ⟨t', createAll_cons.mpr ⟨t₁, first, run⟩⟩

/-- **What new files leave where none of them is**: directories on their ways, and everything
else. -/
theorem kind?_createAll (dirs : ∀ f ∈ fs, t.kind? f.1.start = some .directory)
    (h : t.createAll fs = .ok t') (other : ∀ f ∈ fs, f.1.place ≠ q) :
    t'.kind? q = if ∃ f ∈ fs, q ∈ f.1.passed then some .directory else t.kind? q := by
  induction fs generalizing t with
  | nil =>
      cases h
      simp
  | cons f fs ih =>
      obtain ⟨dir, dirs⟩ := List.forall_mem_cons.mp dirs
      obtain ⟨notFirst, other⟩ := List.forall_mem_cons.mp other
      obtain ⟨t₁, first, run⟩ := createAll_cons.mp h
      rw [ih (fun g hg => directory_create dir first (dirs g hg)) run other,
        kind?_create dir first, if_neg (Ne.symm notFirst)]
      by_cases later : ∃ g ∈ fs, q ∈ g.1.passed
      · simp [later]
      · simp [later]

/-- **The last of the files that are put at one place stands there.** -/
theorem kind?_createAll_last {before after : List (Route × Definition.Contents)}
    (dirs : ∀ g ∈ before ++ f :: after, t.kind? g.1.start = some .directory)
    (h : t.createAll (before ++ f :: after) = .ok t')
    (last : ∀ g ∈ after, g.1.place ≠ f.1.place) : t'.kind? f.1.place = some (.file f.2) := by
  induction before generalizing t with
  | nil =>
      rw [List.nil_append] at dirs h
      have room := (exists_createAll dirs).mp ⟨t', h⟩
      obtain ⟨dir, dirs⟩ := List.forall_mem_cons.mp dirs
      obtain ⟨t₁, first, run⟩ := createAll_cons.mp h
      rw [kind?_createAll (fun g hg => directory_create dir first (dirs g hg)) run last, if_neg,
        kind?_create dir first, if_pos rfl]
      rintro ⟨g, hg, through⟩
      exact room.apart f.1 (by simp) g.1 (List.mem_map_of_mem (List.mem_cons_of_mem _ hg)) through
  | cons g before ih =>
      obtain ⟨dir, dirs⟩ := List.forall_mem_cons.mp dirs
      obtain ⟨t₁, first, run⟩ := createAll_cons.mp h
      exact ih (fun g hg => directory_create dir first (dirs g hg)) run

end Tree

/-! ### Working directories -/

namespace FileSystem

theorem kind?_working (fs : FileSystem) : fs.tree.kind? fs.working = some .directory := by
  have isDirectory := fs.isDirectory_working
  rw [Tree.kind?_eq_directory]
  cases found : fs.tree.at? fs.working with
  | none =>
      rw [found] at isDirectory
      cases isDirectory
  | some u =>
      rw [found] at isDirectory
      cases u with
      | directory es => exact ⟨es, rfl⟩
      | file c => cases isDirectory

/-- Every route starts at a directory. -/
theorem kind?_start (fs : FileSystem) (path : String) :
    fs.tree.kind? (Route.ofPath fs.working path).start = some .directory := by
  rw [Route.ofPath]
  dsimp only
  split
  · exact Tree.kind?_root fs.kind?_working
  · exact fs.kind?_working

end FileSystem

end Docsig
