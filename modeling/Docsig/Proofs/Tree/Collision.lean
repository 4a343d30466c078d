import Docsig.Proofs.Tree.Key
import Mathlib.Data.List.Infix

/-!
Files of one key.

The key of a file says neither its suffix nor whether it stands for its directory. So
two files have one key if they differ in their suffixes only (`SameStem`), or if one
stands for a directory and the other is called like that directory, beside it
(`Shadows`). There is no other way: `keys_eq_iff` says so for the sources of a tree, and
what is left of it where only one extension is configured.
-/

namespace Docsig

/-- Extensions start with a point. -/
theorem Settings.extensions_point {fields : List (String × Value)} {settings : Settings}
    (h : ofFields fields = .ok settings) :
    ∀ e ∈ settings.extensions, ∃ cs, e.toList = '.' :: cs := by
  unfold ofFields at h
  split at h
  · cases h
  obtain ⟨-, -, h⟩ := bind_eq_ok.mp h
  obtain ⟨extensions, listed, h⟩ := bind_eq_ok.mp h
  obtain ⟨-, h⟩ := guard_eq_ok.mp h
  obtain ⟨charge, -, h⟩ := bind_eq_ok.mp h
  cases h
  intro e he
  unfold extensionsOf at listed
  split at listed
  · obtain ⟨v, -, named⟩ := exists_of_mem_right (mapM_eq_ok.mp listed) he
    -- an extension is a text that starts with a point, or is given one
    cases v with
    | text s =>
        cases named
        rw [withPoint]
        split
        · rename_i point
          exact ⟨_, (List.cons_head?_tail point).symm⟩
        · exact ⟨s.toList, String.toList_append⟩
    | _ => cases named
  · cases listed

namespace Tree

open Docsig.Path (IsName IsSuffix stemOf)

/-! ### How keys collide -/

/-- Whether a file stands for its directory. -/
def IsIndex (indexName : Value) (path : String) : Prop :=
  isText (Path.ofText path).stem indexName = true

/-- Paths that are equal when the last suffix of each is removed. -/
def SameStem (p q : String) : Prop :=
  (Path.ofText p).withoutSuffix? = (Path.ofText q).withoutSuffix?

/-- One file stands for a directory, and another that does not is called as the directory
is, with a suffix, beside it. -/
structure Shadows (indexName : Value) (directory name suffix p q : String) : Prop where
  not_root : directory ≠ ""
  flat : '/' ∉ name.toList
  isSuffix : IsSuffix suffix
  index_path : p = directory ++ "/" ++ name
  beside : q = directory ++ suffix
  index : IsIndex indexName p
  not_index : ¬ IsIndex indexName q

/-- `Shadows` for some directory. -/
def ShadowsSome (indexName : Value) (p q : String) : Prop :=
  ∃ directory name suffix, Shadows indexName directory name suffix p q

variable {extensions above above' names : List String} {name name' : String} {p q : Source}
  {indexName : Value} {root : Tree}

/-! ### Sources by their directory and name -/

/-- No source stands below another. -/
theorem Found.not_below (h : Found extensions "" root (above ++ [name]) p) :
    ¬ Found extensions "" root above q := by
  intro h'
  have contents := h.contents
  rw [at?_append, h'.contents, Option.bind_some, at?_file (by simp)] at contents
  cases contents

theorem Found.exists_last (h : Found extensions "" root names p) :
    ∃ above name, names = above ++ [name] :=
  (List.eq_nil_or_concat' names).resolve_left h.eligible.ne_nil

section Source

variable (wf : root.WellFormed) (h : Found extensions "" root (above ++ [name]) p)
  (h' : Found extensions "" root (above' ++ [name']) q)
include wf h

theorem Found.ofText_path : Path.ofText p.path = ⟨0, above ++ [name]⟩ := by
  rw [h.path_eq, Path.ofText_names (by simp) (names_of_at? wf h.contents)]

theorem Found.isIndex_iff : IsIndex indexName p.path ↔ isText (stemOf name) indexName = true := by
  rw [IsIndex, h.ofText_path wf, Path.stem, Path.name]
  simp

theorem Found.withoutSuffix?_eq :
    (Path.ofText p.path).withoutSuffix? = some ⟨0, above ++ [stemOf name]⟩ := by
  rw [h.ofText_path wf, Path.withoutSuffix?, if_neg (by simp), Path.stem, Path.name]
  simp

/-- A file stands in the root if its path has no slash. -/
theorem Found.top_iff : above = [] ↔ '/' ∉ p.path.toList := by
  have valid := names_of_at? wf h.contents
  rw [h.path_eq]
  constructor
  · rintro rfl
    simpa using (valid name (by simp)).no_slash
  · intro noSlash
    by_contra ne
    rw [String.intercalate_append_of_ne_nil ne (by simp)] at noSlash
    simp at noSlash

theorem Found.key_eq_empty_iff :
    "/".intercalate (keyNames indexName (above ++ [name])) = "" ↔
      IsIndex indexName p.path ∧ '/' ∉ p.path.toList := by
  have valid (n : String) (hn : n ∈ keyNames indexName (above ++ [name])) : IsName n :=
    (h.keyNames_proper wf n hn).toIsName
  rw [Path.intercalate_eq_empty_iff valid, h.isIndex_iff wf, ← h.top_iff wf, keyNames,
    lastName_concat, List.dropLast_concat]
  by_cases index : isText (stemOf name) indexName = true <;> simp [index]

include h'

/-- Two files have the same stem if they stand in one directory and differ in their suffixes. -/
theorem sameStem_iff :
    SameStem p.path q.path ↔ above = above' ∧ stemOf name = stemOf name' := by
  rw [SameStem, h.withoutSuffix?_eq wf, h'.withoutSuffix?_eq wf, Option.some_inj, Path.mk.injEq]
  simp

/-- The names of a file that stands for a directory and of one beside it. -/
theorem Shadows.exists_stem {directory n suffix : String}
    (shadows : Shadows indexName directory n suffix p.path q.path) :
    ∃ stem, stem ≠ "" ∧ above = above' ++ [stem] ∧ name = n ∧ name' = stem ++ suffix := by
  have valid := names_of_at? wf h.contents
  have valid' := names_of_at? wf h'.contents
  have slash : '/' ∈ p.path.toList := by simp [shadows.index_path]
  obtain ⟨outer, stem, rfl⟩ := (List.eq_nil_or_concat' above).resolve_left
    fun top => (h.top_iff wf).mp top slash
  simp only [List.forall_mem_append, List.forall_mem_singleton] at valid
  have path := h.path_eq
  rw [shadows.index_path, String.intercalate_append_of_ne_nil (by simp) (by simp),
    String.intercalate_singleton] at path
  obtain ⟨directory_eq, rfl⟩ := Path.append_slash_inj shadows.flat valid.2.no_slash path
  have path' := shadows.beside
  rw [directory_eq, Path.intercalate_concat, h'.path_eq] at path'
  -- the path of the other file is cut in the one way that names allow
  have beside : ∀ name ∈ outer ++ [stem ++ suffix], IsName name :=
    List.forall_mem_append.mpr ⟨valid.1.1,
      List.forall_mem_singleton.mpr (valid.1.2.append_suffix shadows.isSuffix)⟩
  obtain ⟨rfl, last⟩ := List.append_inj' (Path.intercalate_inj valid' beside path') rfl
  exact ⟨stem, valid.1.2.ne_empty, rfl, rfl, List.singleton_inj.mp last⟩

/-- An index file shadows the file beside its directory that has the name of the directory as its
stem. -/
theorem shadowsSome_iff :
    ShadowsSome indexName p.path q.path ↔
      isText (stemOf name) indexName = true ∧ ¬ isText (stemOf name') indexName = true ∧
        above = above' ++ [stemOf name'] := by
  rw [← h.isIndex_iff wf, ← h'.isIndex_iff wf]
  constructor
  · rintro ⟨directory, n, suffix, shadows⟩
    obtain ⟨stem, ne, above_eq, -, rfl⟩ := shadows.exists_stem wf h h'
    rw [Path.stemOf_append ne shadows.isSuffix]
    exact ⟨shadows.index, shadows.not_index, above_eq⟩
  · rintro ⟨index, notIndex, rfl⟩
    have valid := names_of_at? wf h.contents
    rw [List.forall_mem_append, List.forall_mem_singleton] at valid
    have noSlash := (names_of_at? wf h'.contents name' (by simp)).no_slash
    rcases Path.stemOf_cases noSlash with same | ⟨stem, suffix, ne, isSuffix, rfl⟩
    · -- The other file would have the path of the directory.
      rw [same] at h
      exact absurd h' h.not_below
    · rw [Path.stemOf_append ne isSuffix] at valid h
      refine ⟨"/".intercalate (above' ++ [stem]), name, suffix,
        Path.intercalate_ne_empty (by simp) valid.1, valid.2.no_slash, isSuffix, ?_, ?_, index,
        notIndex⟩
      · rw [h.path_eq, String.intercalate_append_of_ne_nil (by simp) (by simp),
          String.intercalate_singleton]
      · rw [h'.path_eq, Path.intercalate_concat]

end Source

/-! ### One extension -/

/-- Whether files with one extension have one key: the only way is `Shadows`, where both
files end with the last suffix of the extension. -/
def Doubles (indexName : Value) (extension p q : String) : Prop :=
  ∃ index directory suffix, indexName = .text index ∧ suffix.toList <:+ extension.toList ∧
    (IsSuffix extension → suffix = extension) ∧
    Shadows indexName directory (index ++ suffix) suffix p q

theorem Eligible.ends {extension : String} (h : Eligible [extension] (above ++ [name])) :
    isHidden name = false ∧ extension.toList <:+ name.toList := by
  simpa using isSource_iff.mp (eligible_concat.mp h).2

/-- A suffix ends with nothing else that starts with a point. -/
theorem eq_of_suffix {s suffix : String} {cs : List Char} (point : s.toList = '.' :: cs)
    (isSuffix : IsSuffix suffix) (h : s.toList <:+ suffix.toList) : s = suffix := by
  obtain ⟨ds, chars, -, last, -⟩ := isSuffix
  rw [chars, List.suffix_cons_iff] at h
  rcases h with same | within
  · exact String.toList_inj.mp (same.trans chars.symm)
  · exact absurd (within.subset (point ▸ List.mem_cons_self)) last

/-- A name ends with an extension, and that with the suffix of the name. -/
theorem suffix_of_extension {extension stem suffix : String} {cs : List Char}
    (point : extension.toList = '.' :: cs) (isSuffix : IsSuffix suffix)
    (ends : extension.toList <:+ (stem ++ suffix).toList) :
    suffix.toList <:+ extension.toList := by
  have own : suffix.toList <:+ (stem ++ suffix).toList := ⟨stem.toList, String.toList_append.symm⟩
  rcases List.suffix_or_suffix_of_suffix own ends with within | around
  · exact within
  · rw [eq_of_suffix point isSuffix around]

/-- Names with one extension have one suffix. -/
theorem eq_stemOf_append {extension stem suffix : String} {cs : List Char}
    (point : extension.toList = '.' :: cs) (isSuffix : IsSuffix suffix)
    (ends : extension.toList <:+ (stem ++ suffix).toList) (ends' : extension.toList <:+ name.toList)
    (visible : isHidden name = false) : name = stemOf name ++ suffix := by
  obtain ⟨before, split⟩ := (suffix_of_extension point isSuffix ends).trans ends'
  have name_eq : name = String.ofList before ++ suffix :=
    String.toList_inj.mp (by rw [String.toList_append, String.toList_ofList, split])
  have ne : String.ofList before ≠ "" := by
    intro empty
    obtain ⟨ds, chars, -⟩ := isSuffix
    rw [name_eq, empty, isHidden, String.toList_append, chars] at visible
    cases visible
  rw [name_eq, Path.stemOf_append ne isSuffix]

/-- Names with one extension differ in their stems. -/
theorem eq_of_stemOf_eq {extension : String} {cs : List Char}
    (point : extension.toList = '.' :: cs) (ends : extension.toList <:+ name.toList)
    (ends' : extension.toList <:+ name'.toList) (visible : isHidden name = false)
    (visible' : isHidden name' = false) (noSlash : '/' ∉ name.toList)
    (noSlash' : '/' ∉ name'.toList) (h : stemOf name = stemOf name') : name = name' := by
  rcases Path.stemOf_cases noSlash with same | ⟨stem, suffix, ne, isSuffix, rfl⟩
  · rcases Path.stemOf_cases noSlash' with same' | ⟨stem, suffix, ne, isSuffix, rfl⟩
    · rw [← same, h, same']
    · rw [eq_stemOf_append point isSuffix ends' ends visible, h, Path.stemOf_append ne isSuffix]
  · rw [eq_stemOf_append point isSuffix ends ends' visible', ← h, Path.stemOf_append ne isSuffix]

/-! ### Equal keys -/

theorem isText_iff {s : String} {v : Value} : isText s v = true ↔ v = .text s := by
  cases v <;> simp [isText]

/-- Two keys are equal for one stem, or where an index file stands for the directory of that stem.
-/
theorem keyNames_eq_iff :
    keyNames indexName (above ++ [name]) = keyNames indexName (above' ++ [name']) ↔
      (above = above' ∧ stemOf name = stemOf name') ∨
        (isText (stemOf name) indexName = true ∧ ¬ isText (stemOf name') indexName = true ∧
          above = above' ++ [stemOf name']) ∨
        (isText (stemOf name') indexName = true ∧ ¬ isText (stemOf name) indexName = true ∧
          above' = above ++ [stemOf name]) := by
  rw [keyNames, keyNames, lastName_concat, lastName_concat, List.dropLast_concat,
    List.dropLast_concat]
  -- by whether each of the two files stands for its directory
  by_cases index : isText (stemOf name) indexName = true
  · by_cases index' : isText (stemOf name') indexName = true
    · -- Both stand for a directory, and so they have one stem.
      have stems : stemOf name = stemOf name' :=
        Value.text.inj ((isText_iff.mp index).symm.trans (isText_iff.mp index'))
      simp [index', stems]
    · have stems : stemOf name ≠ stemOf name' := fun same => index' (same ▸ index)
      simp [index, index', stems]
  · by_cases index' : isText (stemOf name') indexName = true
    · have stems : stemOf name ≠ stemOf name' := fun same => index (same ▸ index')
      simp [index, index', stems, eq_comm]
    · simp [index, index']

/-- With a single extension, one file shadows another in one way. -/
theorem ShadowsSome.doubles {extension : String} {cs : List Char} (wf : root.WellFormed)
    (point : extension.toList = '.' :: cs)
    (hp : Found [extension] "" root (above ++ [name]) p)
    (hq : Found [extension] "" root (above' ++ [name']) q)
    (h : ShadowsSome indexName p.path q.path) : Doubles indexName extension p.path q.path := by
  obtain ⟨directory, n, suffix, shadows⟩ := h
  obtain ⟨stem, -, rfl, rfl, rfl⟩ := shadows.exists_stem wf hp hq
  obtain ⟨visible, ends⟩ := hp.eligible.ends
  obtain ⟨-, ends'⟩ := hq.eligible.ends
  have within := suffix_of_extension point shadows.isSuffix ends'
  have name_eq := eq_stemOf_append point shadows.isSuffix ends' ends visible
  obtain ⟨ds, chars, -⟩ := shadows.isSuffix
  refine ⟨stemOf name, directory, suffix, isText_iff.mp ((hp.isIndex_iff wf).mp shadows.index),
    within, fun isSuffix => eq_of_suffix chars isSuffix within, ?_⟩
  rwa [← name_eq]

/-- **Two sources of a tree have one key exactly if they differ in their suffixes only, or
if one stands for a directory and the other is called like it, beside it.** Only a file
that stands for the root has the empty key, and with a single extension no two files
differ in their suffixes only. -/
theorem keys_eq_iff {fields : List (String × Value)} {settings : Settings}
    (accepted : Settings.ofFields fields = .ok settings) (wf : root.WellFormed)
    (hp : p ∈ root.sources settings.extensions) (hq : q ∈ root.sources settings.extensions)
    (differ : p.path ≠ q.path) :
    ∃ k l, key settings.indexName p.path = .ok k ∧ key settings.indexName q.path = .ok l ∧
      (k = l ↔ SameStem p.path q.path ∨ ShadowsSome settings.indexName p.path q.path ∨
        ShadowsSome settings.indexName q.path p.path) ∧
      (k = "" ↔ IsIndex settings.indexName p.path ∧ '/' ∉ p.path.toList) ∧
      ∀ extension, settings.extensions = [extension] →
        (k = l ↔ Doubles settings.indexName extension p.path q.path ∨
          Doubles settings.indexName extension q.path p.path) := by
  obtain ⟨names, hp⟩ := (mem_sourcesBelow wf).mp hp
  obtain ⟨names', hq⟩ := (mem_sourcesBelow wf).mp hq
  obtain ⟨above, name, rfl⟩ := hp.exists_last
  obtain ⟨above', name', rfl⟩ := hq.exists_last
  -- keys are texts of names, which read back as these names
  have keys : "/".intercalate (keyNames settings.indexName (above ++ [name])) =
        "/".intercalate (keyNames settings.indexName (above' ++ [name'])) ↔
      SameStem p.path q.path ∨ ShadowsSome settings.indexName p.path q.path ∨
        ShadowsSome settings.indexName q.path p.path := by
    rw [sameStem_iff wf hp hq, shadowsSome_iff wf hp hq, shadowsSome_iff wf hq hp,
      ← keyNames_eq_iff]
    exact ⟨Path.intercalate_inj (fun n hn => (hp.keyNames_proper wf n hn).toIsName)
      (fun n hn => (hq.keyNames_proper wf n hn).toIsName), congrArg _⟩
  refine ⟨_, _, hp.key_eq wf, hq.key_eq wf, keys, hp.key_eq_empty_iff wf, fun e single => ?_⟩
  obtain ⟨cs, point⟩ := Settings.extensions_point accepted e (by simp [single])
  rw [single] at hp hq
  rw [keys]
  constructor
  · rintro (stems | shadows | shadows)
    · obtain ⟨rfl, stems⟩ := (sameStem_iff wf hp hq).mp stems
      obtain ⟨visible, ends⟩ := hp.eligible.ends
      obtain ⟨visible', ends'⟩ := hq.eligible.ends
      have same := eq_of_stemOf_eq point ends ends' visible visible'
        (names_of_at? wf hp.contents name (by simp)).no_slash
        (names_of_at? wf hq.contents name' (by simp)).no_slash stems
      exact absurd (by rw [hp.path_eq, hq.path_eq, same]) differ
    · exact .inl (shadows.doubles wf point hp hq)
    · exact .inr (shadows.doubles wf point hq hp)
  · rintro (⟨_, _, _, -, -, -, shadows⟩ | ⟨_, _, _, -, -, -, shadows⟩)
    · exact .inr (.inl ⟨_, _, _, shadows⟩)
    · exact .inr (.inr ⟨_, _, _, shadows⟩)

/-- A directory that has a definition itself, and a file beside it that is called so too. -/
def doubled : Tree :=
  .directory [("a", .directory [("__main__.py", .file (.text "def f(): pass\n"))]),
    ("a.py", .file (.text "def f(): pass\n"))]

theorem doubled_wellFormed : doubled.WellFormed := by
  refine .directory (by decide) (by decide) ?_
  simp only [List.forall_mem_cons]
  exact ⟨.directory (by decide) (by decide) (by simpa using .file), .file, by simp⟩

theorem keys_eq_iff_doubled :
    key (.text "__main__") "a/__main__.py" = key (.text "__main__") "a.py" ∧
      (Doubles (.text "__main__") ".py" "a/__main__.py" "a.py" ∨
        Doubles (.text "__main__") ".py" "a.py" "a/__main__.py") := by
  have inner : ⟨"a/__main__.py", .text "def f(): pass\n"⟩ ∈ doubled.sources [".py"] :=
    (mem_sourcesBelow doubled_wellFormed).mpr
      ⟨["a", "__main__.py"], rfl, rfl, .within (by decide) (.file (by decide))⟩
  have beside : ⟨"a.py", .text "def f(): pass\n"⟩ ∈ doubled.sources [".py"] :=
    (mem_sourcesBelow doubled_wellFormed).mpr ⟨["a.py"], rfl, rfl, .file (by decide)⟩
  have accepted : Settings.ofFields [] = .ok Settings.standard := rfl
  obtain ⟨k, l, hk, hl, -, -, single⟩ :=
    keys_eq_iff accepted doubled_wellFormed inner beside (by decide)
  have same : key (.text "__main__") "a/__main__.py" = key (.text "__main__") "a.py" := rfl
  exact ⟨same, (single ".py" rfl).mp (Except.ok.inj (hk.symm.trans (same.trans hl)))⟩

/-- Of an extension with several points, the last suffix counts. -/
example : key (.text "m.a") "x.a/m.a.b" = .ok "x.a" ∧ key (.text "m.a") "x.a.b" = .ok "x.a" :=
  ⟨rfl, rfl⟩

end Tree

end Docsig
