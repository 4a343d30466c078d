import Docsig.Proofs.Tree.Edit
import Docsig.Proofs.Tree.Path
import Docsig.Tree.Walk
import Mathlib.Data.List.Nodup

/-!
The walk over a tree.

`Found` says without any recursion over the tree which files are sources: those that
stand at the end of names that are walked. `WalkBefore` orders such names: the files of
a directory come before what its directories hold, and otherwise names decide.

* `mem_sourcesBelow`: the walk gives exactly the sources.
* `sourcesBelow_ordered`: it gives them in order, and so each of them once.
-/

namespace Docsig.Tree

open Docsig.Path (IsName)

/-! ### Trees and their sources -/

/-- A tree in which names are names, and differ within a directory. -/
inductive WellFormed : Tree → Prop
  | file {contents : Definition.Contents} : WellFormed (.file contents)
  | directory {es : List (String × Tree)} : (es.map Prod.fst).Nodup →
      (∀ e ∈ es, IsName e.1) → (∀ e ∈ es, WellFormed e.2) → WellFormed (.directory es)

/-- Names that lead to a source: directories that are walked, and then a file with one of
the extensions. -/
inductive Eligible (extensions : List String) : List String → Prop
  | file {name : String} : isSource extensions name = true → Eligible extensions [name]
  | within {name : String} {names : List String} : isWalked name = true →
      Eligible extensions names → Eligible extensions (name :: names)

/-- A source of a tree at some names; `above` is the path of the tree with a slash at its
end, and nothing for the root. -/
structure Found (extensions : List String) (above : String) (t : Tree) (names : List String)
    (s : Source) : Prop where
  path : s.path = above ++ "/".intercalate names
  contents : t.at? names = some (.file s.contents)
  eligible : Eligible extensions names

inductive WalkBefore : List String → List String → Prop
  | files {a b : String} : a < b → WalkBefore [a] [b]
  | files_first {a b : String} {bs : List String} : bs ≠ [] → WalkBefore [a] (b :: bs)
  | directories {a b : String} {as bs : List String} : a < b → as ≠ [] → bs ≠ [] →
      WalkBefore (a :: as) (b :: bs)
  | within {a : String} {as bs : List String} : WalkBefore as bs →
      WalkBefore (a :: as) (a :: bs)

variable {extensions : List String} {above name : String} {names : List String}
  {es : List (String × Tree)} {t : Tree} {s : Source}

theorem Eligible.ne_nil (h : Eligible extensions names) : names ≠ [] := by
  cases h <;> simp

/-- A file is eligible if the walk enters the directories above it and takes its name. -/
theorem eligible_concat {folders : List String} :
    Eligible extensions (folders ++ [name]) ↔
      (∀ folder ∈ folders, isWalked folder = true) ∧ isSource extensions name = true := by
  induction folders with
  | nil =>
      refine ⟨fun h => ?_, fun h => .file h.2⟩
      cases h with
      | file source => exact ⟨by simp, source⟩
      | within _ none => exact absurd rfl none.ne_nil
  | cons folder folders ih =>
      rw [List.cons_append, List.forall_mem_cons, and_assoc, ← ih]
      refine ⟨fun h => ?_, fun h => .within h.1 h.2⟩
      generalize below : folders ++ [name] = rest at h
      cases h with
      | file => simp at below
      | within walked eligible => exact ⟨walked, below ▸ eligible⟩

theorem isSource_iff : isSource extensions name = true ↔
    ¬ isHidden name = true ∧ ∃ e ∈ extensions, e.toList <:+ name.toList := by
  simp [isSource]

/-- In a directory with different names an entry is found under its name. -/
theorem child?_eq_some (nodup : (es.map Prod.fst).Nodup) :
    child? name es = some t ↔ (name, t) ∈ es := by
  induction es with
  | nil => simp [child?]
  | cons e es ih =>
      obtain ⟨other, u⟩ := e
      rw [List.map_cons, List.nodup_cons] at nodup
      rw [child?_cons, List.mem_cons, Prod.mk.injEq]
      split
      · rename_i same
        subst same
        constructor
        · rintro ⟨⟩
          exact .inl ⟨rfl, rfl⟩
        · rintro (⟨-, rfl⟩ | mem)
          · rfl
          · exact absurd (List.mem_map_of_mem mem) nodup.1
      · rename_i differ
        rw [ih nodup.2]
        exact ⟨.inr, fun h => h.resolve_left fun eq => differ eq.1.symm⟩

/-- The text of names below a directory. -/
theorem above_intercalate (ne : names ≠ []) :
    above ++ "/".intercalate (name :: names) = above ++ name ++ "/" ++ "/".intercalate names := by
  rw [String.intercalate_cons_of_ne_nil ne, String.append_assoc, String.append_assoc,
    String.append_assoc]

/-- A source of a directory is one of its files or a source of a directory in it. -/
theorem found_directory (nodup : (es.map Prod.fst).Nodup) :
    Found extensions above (.directory es) names s ↔
      (∃ name, names = [name] ∧ (name, .file s.contents) ∈ es ∧
          isSource extensions name = true ∧ s.path = above ++ name) ∨
        ∃ name rest fs, names = name :: rest ∧ (name, .directory fs) ∈ es ∧
          isWalked name = true ∧
          Found extensions (above ++ name ++ "/") (.directory fs) rest s := by
  constructor
  · rintro ⟨path, contents, eligible⟩
    -- a source is in the directory itself or below one of its directories
    cases eligible with
    | @file name source =>
        rw [at?, Option.bind_eq_some_iff] at contents
        obtain ⟨t, child, rfl⟩ : ∃ t, child? name es = some t ∧ t = .file s.contents := by
          simpa [at?, entries] using contents
        exact .inl ⟨name, rfl, (child?_eq_some nodup).mp child, source, by simpa using path⟩
    | @within name rest walked eligible =>
        rw [at?, Option.bind_eq_some_iff] at contents
        obtain ⟨t, child, contents⟩ := contents
        cases t with
        | file c =>
            cases rest with
            | nil => exact absurd rfl eligible.ne_nil
            | cons n rest => simp [at?, entries, child?] at contents
        | directory fs =>
            refine .inr ⟨name, rest, fs, rfl, (child?_eq_some nodup).mp child, walked, ?_⟩
            exact ⟨by rw [path, above_intercalate eligible.ne_nil], contents, eligible⟩
  · rintro (⟨name, rfl, mem, source, path⟩ | ⟨name, rest, fs, rfl, mem, walked, found⟩)
    · refine ⟨by simpa using path, ?_, .file source⟩
      rw [at?, Tree.entries, (child?_eq_some nodup).mpr mem]
      rfl
    · refine ⟨by rw [found.path, above_intercalate found.eligible.ne_nil], ?_,
        .within walked found.eligible⟩
      rw [at?, Tree.entries, (child?_eq_some nodup).mpr mem]
      exact found.contents

/-! ### One directory -/

/-- The files of a directory are its entries that are sources. -/
theorem mem_filesAmong :
    (name, s) ∈ filesAmong extensions above es ↔
      (name, .file s.contents) ∈ es ∧ isSource extensions name = true ∧
        s.path = above ++ name := by
  induction es with
  | nil => simp [filesAmong]
  | cons e es ih =>
      obtain ⟨other, t⟩ := e
      cases t with
      | directory fs => simp [filesAmong, ih]
      | file contents =>
          rw [filesAmong]
          split
          · rename_i source
            rw [List.mem_cons, ih, List.mem_cons]
            constructor
            · rintro (⟨rfl, rfl⟩ | ⟨mem, rest⟩)
              · exact ⟨.inl rfl, source, rfl⟩
              · exact ⟨.inr mem, rest⟩
            · rintro ⟨eq | mem, rest⟩
              · cases eq
                exact .inl (by rw [← rest.2])
              · exact .inr ⟨mem, rest⟩
          · rename_i other
            rw [ih, List.mem_cons]
            refine and_congr_left fun h => ⟨.inr, fun mem => mem.resolve_left ?_⟩
            rintro ⟨⟩
            exact other h.1

theorem filesAmong_names :
    ((filesAmong extensions above es).map Prod.fst).Sublist (es.map Prod.fst) := by
  induction es with
  | nil => exact .slnil
  | cons e es ih =>
      obtain ⟨name, t⟩ := e
      cases t with
      | directory fs => exact ih.cons _
      | file contents =>
          rw [filesAmong]
          split
          · exact ih.cons_cons _
          · exact ih.cons _

/-- What is below a directory is what is in each of its directories that the walk enters. -/
theorem mem_directoriesAmong {ss : List Source} :
    (name, ss) ∈ directoriesAmong extensions above es ↔
      ∃ fs, (name, .directory fs) ∈ es ∧ isWalked name = true ∧
        ss = sourcesBelow extensions (above ++ name ++ "/") (.directory fs) := by
  induction es with
  | nil => simp [directoriesAmong]
  | cons e es ih =>
      obtain ⟨other, t⟩ := e
      cases t with
      | file contents => simp [directoriesAmong, isDirectory, ih]
      | directory fs =>
          rw [directoriesAmong, isDirectory, Bool.true_and]
          split
          · rename_i walked
            rw [List.mem_cons, ih]
            constructor
            · rintro (⟨rfl, rfl⟩ | ⟨gs, mem, rest⟩)
              · exact ⟨fs, by simp, walked, rfl⟩
              · exact ⟨gs, by simp [mem], rest⟩
            · rintro ⟨gs, mem, walks, rfl⟩
              rcases List.mem_cons.mp mem with eq | mem
              · cases eq
                exact .inl rfl
              · exact .inr ⟨gs, mem, walks, rfl⟩
          · rename_i passed
            rw [ih]
            refine exists_congr fun gs => and_congr_left fun h => ?_
            rw [List.mem_cons]
            refine ⟨.inr, fun mem => mem.resolve_left ?_⟩
            rintro ⟨⟩
            exact passed h.1

theorem directoriesAmong_names :
    ((directoriesAmong extensions above es).map Prod.fst).Sublist (es.map Prod.fst) := by
  induction es with
  | nil => exact .slnil
  | cons e es ih =>
      obtain ⟨name, t⟩ := e
      rw [directoriesAmong]
      split
      · exact ih.cons_cons _
      · exact ih.cons _

section Sorting

variable {α : Type} {named : List (String × α)}

theorem mem_sortByName {e : String × α} : e ∈ sortByName named ↔ e ∈ named :=
  List.mem_mergeSort

/-- What is in order stays as it is. -/
theorem sortByName_of_le (ordered : named.Pairwise fun a b => a.1 ≤ b.1) :
    sortByName named = named :=
  List.mergeSort_of_pairwise (ordered.imp decide_eq_true)

/-- Things of different names are sorted strictly. -/
theorem sortByName_ordered (nodup : (named.map Prod.fst).Nodup) :
    (sortByName named).Pairwise fun a b => a.1 < b.1 := by
  have atMost : (sortByName named).Pairwise fun a b => a.1 ≤ b.1 := by
    rw [sortByName]
    refine (List.pairwise_mergeSort ?_ ?_ named).imp of_decide_eq_true
    · exact fun a b c hab hbc => decide_eq_true
        (le_trans (of_decide_eq_true hab) (of_decide_eq_true hbc))
    · exact fun a b => by simpa using le_total a.1 b.1
  have differ : (sortByName named).Pairwise fun a b => a.1 ≠ b.1 :=
    List.pairwise_map.mp (((List.mergeSort_perm named _).map Prod.fst).nodup_iff.mpr nodup)
  exact (atMost.and differ).imp fun h => lt_of_le_of_ne h.1 h.2

end Sorting

/-- The walk takes the files of a directory and what is below it. -/
theorem mem_inOrder {own : List (String × Source)} {below : List (String × List Source)} :
    s ∈ inOrder own below ↔
      (∃ name, (name, s) ∈ own) ∨ ∃ name ss, (name, ss) ∈ below ∧ s ∈ ss := by
  simp [inOrder, mem_sortByName]

/-! ### The whole tree -/

theorem found_of_file (nodup : (es.map Prod.fst).Nodup)
    (h : (name, s) ∈ filesAmong extensions above es) :
    Found extensions above (.directory es) [name] s :=
  have ⟨mem, source, path⟩ := mem_filesAmong.mp h
  (found_directory nodup).mpr (.inl ⟨name, rfl, mem, source, path⟩)

/-- **The walk gives exactly the sources of a tree.** -/
theorem mem_sourcesBelow (wf : t.WellFormed) :
    s ∈ sourcesBelow extensions above t ↔ ∃ names, Found extensions above t names s := by
  induction wf generalizing above with
  | file =>
      rw [sourcesBelow]
      refine ⟨nofun, fun ⟨names, found⟩ => ?_⟩
      obtain ⟨-, contents, eligible⟩ := found
      cases eligible <;> simp [at?, entries, child?] at contents
  | @directory es nodup _ _ ih =>
      rw [sourcesBelow, mem_inOrder]
      constructor
      · rintro (⟨name, own⟩ | ⟨name, ss, below, hs⟩)
        · exact ⟨[name], found_of_file nodup own⟩
        · obtain ⟨fs, mem, walked, rfl⟩ := mem_directoriesAmong.mp below
          obtain ⟨rest, found⟩ := (ih (name, .directory fs) mem).mp hs
          exact ⟨name :: rest,
            (found_directory nodup).mpr (.inr ⟨name, rest, fs, rfl, mem, walked, found⟩)⟩
      · rintro ⟨names, found⟩
        rcases (found_directory nodup).mp found with
          ⟨name, -, mem, source, path⟩ | ⟨name, rest, fs, -, mem, walked, found⟩
        · exact .inl ⟨name, mem_filesAmong.mpr ⟨mem, source, path⟩⟩
        · exact .inr ⟨name, _, mem_directoriesAmong.mpr ⟨fs, mem, walked, rfl⟩,
            (ih (name, .directory fs) mem).mpr ⟨rest, found⟩⟩

theorem found_of_directory (nodup : (es.map Prod.fst).Nodup) (below : ∀ e ∈ es, WellFormed e.2)
    {ss : List Source} (h : (name, ss) ∈ directoriesAmong extensions above es) (hs : s ∈ ss) :
    ∃ rest, rest ≠ [] ∧ Found extensions above (.directory es) (name :: rest) s := by
  obtain ⟨fs, mem, walked, rfl⟩ := mem_directoriesAmong.mp h
  obtain ⟨rest, found⟩ := (mem_sourcesBelow (below (name, .directory fs) mem)).mp hs
  exact ⟨rest, found.eligible.ne_nil,
    (found_directory nodup).mpr (.inr ⟨name, rest, fs, rfl, mem, walked, found⟩)⟩

/-- Of two sources of a tree, one comes before the other in the walk. -/
def Ordered (extensions : List String) (above : String) (t : Tree) (a b : Source) : Prop :=
  ∃ as bs, Found extensions above t as a ∧ Found extensions above t bs b ∧ WalkBefore as bs

/-- **The walk keeps its order**, at every depth. -/
theorem sourcesBelow_ordered (wf : t.WellFormed) :
    (sourcesBelow extensions above t).Pairwise (Ordered extensions above t) := by
  -- by induction on the tree: files first, then one directory after the other
  induction wf generalizing above with
  | file => exact .nil
  | @directory es nodup _ below ih =>
      rw [sourcesBelow, inOrder, List.pairwise_append]
      refine ⟨?_, ?_, ?_⟩
      · -- The files of the directory itself.
        refine List.pairwise_map.mpr ?_
        have own : ((filesAmong extensions above es).map Prod.fst).Nodup :=
          nodup.sublist filesAmong_names
        refine (sortByName_ordered own).imp_of_mem fun {a b} ha hb hab => ?_
        exact ⟨[a.1], [b.1], found_of_file nodup (mem_sortByName.mp ha),
          found_of_file nodup (mem_sortByName.mp hb), .files hab⟩
      · -- What its directories hold, one directory after the other.
        refine List.pairwise_flatMap.mpr ⟨?_, ?_⟩
        · intro named hnamed
          obtain ⟨name, ss⟩ := named
          have inside := mem_sortByName.mp hnamed
          obtain ⟨fs, mem, walked, rfl⟩ := mem_directoriesAmong.mp inside
          refine (ih (name, .directory fs) mem).imp ?_
          rintro a b ⟨as, bs, ha, hb, before⟩
          exact ⟨name :: as, name :: bs,
            (found_directory nodup).mpr (.inr ⟨name, as, fs, rfl, mem, walked, ha⟩),
            (found_directory nodup).mpr (.inr ⟨name, bs, fs, rfl, mem, walked, hb⟩),
            .within before⟩
        · have inner : ((directoriesAmong extensions above es).map Prod.fst).Nodup :=
            nodup.sublist directoriesAmong_names
          refine (sortByName_ordered inner).imp_of_mem fun hm hn less a ha b hb => ?_
          obtain ⟨as, neA, foundA⟩ := found_of_directory nodup below (mem_sortByName.mp hm) ha
          obtain ⟨bs, neB, foundB⟩ := found_of_directory nodup below (mem_sortByName.mp hn) hb
          exact ⟨_, _, foundA, foundB, .directories less neA neB⟩
      · -- Files come before directories.
        intro a ha b hb
        obtain ⟨⟨name, source⟩, own, rfl⟩ := List.mem_map.mp ha
        obtain ⟨⟨other, ss⟩, hss, hb⟩ := List.mem_flatMap.mp hb
        obtain ⟨rest, ne, found⟩ := found_of_directory nodup below (mem_sortByName.mp hss) hb
        exact ⟨[name], other :: rest, found_of_file nodup (mem_sortByName.mp own), found,
          .files_first ne⟩

/-! ### One order -/

/-- Whatever stands in a well-formed tree stands at names. -/
theorem names_of_at? {u : Tree} (wf : t.WellFormed) (h : t.at? names = some u) :
    ∀ name ∈ names, IsName name := by
  induction names generalizing t with
  | nil => simp
  | cons name names ih =>
      rw [at?, Option.bind_eq_some_iff] at h
      obtain ⟨v, child, h⟩ := h
      cases wf with
      | file => simp [entries, child?] at child
      | directory nodup valid below =>
          have mem := (child?_eq_some nodup).mp child
          exact List.forall_mem_cons.mpr ⟨valid _ mem, ih (below _ mem) h⟩

/-- A source of the root is found at one place. -/
theorem Found.names_eq {others : List String} (wf : t.WellFormed)
    (h : Found extensions "" t names s) (h' : Found extensions "" t others s) :
    names = others := by
  have text : "/".intercalate names = "/".intercalate others := by
    simpa using h.path.symm.trans h'.path
  exact Path.intercalate_inj (names_of_at? wf h.contents) (names_of_at? wf h'.contents) text

theorem WalkBefore.ne_nil {as bs : List String} (h : WalkBefore as bs) : as ≠ [] ∧ bs ≠ [] := by
  cases h <;> simp

/-- No two files come before each other. -/
theorem WalkBefore.asymm {as bs : List String} (h : WalkBefore as bs) : ¬ WalkBefore bs as := by
  induction h with
  | files less =>
      intro h
      cases h with
      | files less' => exact lt_asymm less less'
      | files_first ne => exact ne rfl
      | directories _ ne => exact ne rfl
      | within h => exact h.ne_nil.1 rfl
  | files_first ne =>
      intro h
      cases h with
      | files less => exact ne rfl
      | files_first ne' => exact ne' rfl
      | directories _ _ ne' => exact ne' rfl
      | within h => exact h.ne_nil.2 rfl
  | directories less neA neB =>
      intro h
      cases h with
      | files => exact neA rfl
      | files_first => exact neB rfl
      | directories less' => exact lt_asymm less less'
      | within => exact lt_irrefl _ less
  | within h ih =>
      intro h'
      cases h' with
      | files => exact h.ne_nil.1 rfl
      | files_first => exact h.ne_nil.2 rfl
      | directories less => exact lt_irrefl _ less
      | within h' => exact ih h'

/-- Of two sources, at most one comes before the other. -/
theorem Ordered.asymm {a b : Source} (wf : t.WellFormed) (h : Ordered extensions "" t a b) :
    ¬ Ordered extensions "" t b a := by
  obtain ⟨as, bs, ha, hb, before⟩ := h
  rintro ⟨bs', as', hb', ha', after⟩
  rw [Found.names_eq wf hb' hb, Found.names_eq wf ha' ha] at after
  exact before.asymm after

/-- Sources in the order of the walk are determined by which they are. -/
theorem eq_of_ordered {files others : List Source} (wf : t.WellFormed)
    (h : files.Pairwise (Ordered extensions "" t)) (h' : others.Pairwise (Ordered extensions "" t))
    (mem : ∀ s, s ∈ files ↔ s ∈ others) : files = others := by
  have differ {a b : Source} (h : Ordered extensions "" t a b) : a ≠ b := by
    rintro rfl
    exact h.asymm wf h
  have perm : files.Perm others :=
    (List.perm_ext_iff_of_nodup (h.imp differ) (h'.imp differ)).mpr mem
  exact perm.eq_of_pairwise (fun a b _ _ hab hba => absurd hba (hab.asymm wf)) h h'

end Docsig.Tree
