import Docsig.Proofs.Definition.WellFormed
import Docsig.Proofs.Tree.Walk
import Docsig.Tree.Load

/-!
Loading a tree.

A load takes the files of the walk one by one. `Loads` says what one file becomes and
`Fails` how it ends the load; `Outcome` is the run over all files, where those that are
done already have taken their keys (`collect_outcome`). `Overlaid` says what becomes of
the mapping that is there before.

* `kept_isWalk`, `IsWalk.unique`: the files of a load are those that are found and not
  skipped, in one order.
* `load_outcome`: a load succeeds exactly if all files parse under different keys, and
  otherwise the first file that does not ends it.
-/

namespace Docsig

/-! ### Mappings laid over others -/

namespace Definitions

variable {k k' : String} {d : Definition} {ds seed loaded : Definitions}

/-- A key that is there keeps its place. -/
theorem put_keys_of_mem (h : k ∈ ds.map Prod.fst) :
    (put k d ds).map Prod.fst = ds.map Prod.fst := by
  induction ds with
  | nil => cases h
  | cons e es ih =>
      rw [put]
      by_cases same : e.1 = k
      · simp [same]
      · have mem : k ∈ es.map Prod.fst := (List.mem_cons.mp h).resolve_left (Ne.symm same)
        rw [if_neg (by simpa using same), List.map_cons, ih mem, List.map_cons]

/-- A new key goes to the end. -/
theorem put_keys_of_new (h : k ∉ ds.map Prod.fst) :
    (put k d ds).map Prod.fst = ds.map Prod.fst ++ [k] := by
  induction ds with
  | nil => rfl
  | cons e es ih =>
      rw [List.map_cons, List.mem_cons, not_or] at h
      rw [put, if_neg (by simpa using Ne.symm h.1), List.map_cons, ih h.2]
      rfl

theorem find?_cons {e : String × Definition} :
    find? k (e :: ds) = if e.1 = k then some e.2 else find? k ds := by
  by_cases same : e.1 = k <;> simp [find?, same]

/-- A definition that is put is found under its key, and the others as before. -/
theorem find?_put : (put k d ds).find? k' = if k = k' then some d else ds.find? k' := by
  induction ds with
  | nil => rw [put, find?_cons]
  | cons e es ih =>
      rw [put]
      by_cases same : e.1 = k
      · rw [if_pos (by simpa using same), find?_cons, find?_cons, same]
        split <;> rfl
      · rw [if_neg (by simpa using same), find?_cons, ih, find?_cons]
        by_cases other : e.1 = k'
        · rw [if_pos other, if_neg fun eq => same (other.trans eq.symm), if_pos other]
        · rw [if_neg other, if_neg other]

theorem find?_eq_none (h : k ∉ ds.map Prod.fst) : ds.find? k = none := by
  induction ds with
  | nil => rfl
  | cons e es ih =>
      rw [List.map_cons, List.mem_cons, not_or] at h
      rw [find?_cons, if_neg (Ne.symm h.1), ih h.2]

/-- A mapping laid over another: the keys of the other keep their places, new ones follow,
and what is laid over counts. -/
structure Overlaid (seed loaded ds : Definitions) : Prop where
  keys : ds.map Prod.fst =
    seed.map Prod.fst ++ (loaded.map Prod.fst).filter fun k => k ∉ seed.map Prod.fst
  values : ∀ k, ds.find? k = (loaded.find? k).or (seed.find? k)

/-- The overlay lays mappings of different keys over others. -/
theorem overlay_overlaid (nodup : (loaded.map Prod.fst).Nodup) :
    Overlaid seed loaded (seed.overlay loaded) := by
  induction loaded generalizing seed with
  | nil => exact ⟨by simp [overlay], fun k => by simp [overlay, find?]⟩
  | cons e es ih =>
      obtain ⟨k, d⟩ := e
      obtain ⟨new, nodup⟩ := List.nodup_cons.mp nodup
      have ⟨keys, values⟩ : Overlaid (put k d seed) es (overlay (put k d seed) es) := ih nodup
      have step : overlay seed ((k, d) :: es) = overlay (put k d seed) es := rfl
      refine ⟨?_, fun k' => ?_⟩
      · rw [step, keys, List.map_cons, List.filter_cons]
        by_cases mem : k ∈ seed.map Prod.fst
        · rw [put_keys_of_mem mem, if_neg (by simpa using mem)]
        · rw [put_keys_of_new mem, if_pos (by simpa using mem), List.append_assoc,
            List.singleton_append]
          refine congrArg (fun rest => seed.map Prod.fst ++ k :: rest)
            (List.filter_congr fun k' hk' => ?_)
          have other : k' ≠ k := fun eq => new (eq ▸ hk')
          simp [other]
      · rw [step, values k', find?_put, find?_cons]
        by_cases same : k = k'
        · subst same
          rw [find?_eq_none new, if_pos rfl, if_pos rfl]
          rfl
        · rw [if_neg same, if_neg same]

end Definitions

namespace Tree

/-! ### Files to load -/

/-- The path that an entry of a list of files to skip stands for. -/
def skippedText (s : String) : String :=
  (Path.ofText (String.ofList (s.toList.map fun c => if c = '\\' then '/' else c))).text

/-- Lists of texts name files to skip. -/
theorem skippedBy_ok {settings : Settings} {ignore : Value} {always further : List String}
    (config : listed settings.ignore = .ok (always.map .text))
    (call : listedIfAny ignore = .ok (further.map .text)) :
    skippedBy settings ignore = .ok ((always ++ further).map skippedText) := by
  have paths (ss : List String) : skippedPaths (ss.map .text) = .ok (ss.map skippedText) := by
    rw [skippedPaths, mapM_eq_ok, List.forall₂_map_left_iff, List.forall₂_map_right_iff]
    exact List.forall₂_same.mpr fun s _ => rfl
  rw [skippedBy, config, ok_bind, call, ok_bind, ← List.map_append, paths]

/-- The files that a load takes: the sources of the tree that are not skipped, in the
order of the walk. -/
structure IsWalk (root : Tree) (extensions skipped : List String) (files : List Source) :
    Prop where
  mem : ∀ s, s ∈ files ↔
    (∃ names, Found extensions "" root names s) ∧ isSkipped skipped s.path = .ok false
  ordered : files.Pairwise (Ordered extensions "" root)

/-- **A tree has one walk.** -/
theorem IsWalk.unique {root : Tree} {extensions skipped : List String} {files others : List Source}
    (wf : root.WellFormed) (h : IsWalk root extensions skipped files)
    (h' : IsWalk root extensions skipped others) : files = others :=
  eq_of_ordered wf h.ordered h'.ordered fun s => (h.mem s).trans (h'.mem s).symm

/-- The sources among some that are not skipped. -/
def kept (skipped : List String) (sources : List Source) : List Source :=
  sources.filter fun s =>
    match isSkipped skipped s.path with
    | .ok skip => !skip
    | .error _ => false

/-- Sources are kept unless they are skipped. -/
theorem mem_kept {skipped : List String} {sources : List Source} {s : Source} :
    s ∈ kept skipped sources ↔ s ∈ sources ∧ isSkipped skipped s.path = .ok false := by
  rw [kept, List.mem_filter]
  cases isSkipped skipped s.path <;> simp

/-- The sources that are not skipped are a walk. -/
theorem kept_isWalk {root : Tree} (extensions skipped : List String) (wf : root.WellFormed) :
    IsWalk root extensions skipped (kept skipped (root.sources extensions)) where
  mem s := by rw [mem_kept, sources, mem_sourcesBelow wf]
  ordered := (sourcesBelow_ordered wf).sublist List.filter_sublist

/-- A path that can be asked for its last name. -/
def Named (path : String) : Prop := (Path.ofText path).segments ≠ []

/-- The path of a source ends in the name of a file. -/
theorem Found.named {root : Tree} {extensions names : List String} {s : Source}
    (wf : root.WellFormed) (h : Found extensions "" root names s) : Named s.path := by
  have path : s.path = "/".intercalate names := by simpa using h.path
  rw [Named, path, Path.ofText_names h.eligible.ne_nil (names_of_at? wf h.contents)]
  exact h.eligible.ne_nil

theorem Named.withoutSuffix? {path : String} (h : Named path) :
    ∃ stem, (Path.ofText path).withoutSuffix? = some stem :=
  ⟨_, if_neg (by simpa [Named] using h)⟩

theorem Named.isSkipped_ok {path : String} (h : Named path) (skipped : List String) :
    ∃ skip, isSkipped skipped path = .ok skip := by
  obtain ⟨stem, found⟩ := h.withoutSuffix?
  rw [isSkipped, found]
  exact ⟨_, rfl⟩

theorem Named.key_ok {path : String} (h : Named path) (indexName : Value) :
    ∃ k, key indexName path = .ok k := by
  obtain ⟨stem, found⟩ := h.withoutSuffix?
  simp only [key, found]
  split
  · exact ⟨_, rfl⟩
  · exact ⟨_, rfl⟩

/-! ### The run over the files -/

section Run

variable (indexName : Value) (charge : Int)

/-- The entry that a file is loaded as. -/
structure Loads (s : Source) (e : String × Definition) : Prop where
  key : key indexName s.path = .ok e.1
  parsed : parse charge s = .ok e.2
  pathname : e.2.pathname = s.path

/-- No two files have the same key. -/
def DistinctKeys (files : List Source) : Prop :=
  files.Pairwise fun a b => key indexName a.path ≠ key indexName b.path

/-- How a file ends a load after some others: it repeats the key of one of them, or it has
a new key but does not parse. -/
def Fails (before : List Source) (s : Source) (fault : Fault) : Prop :=
  ∃ k, key indexName s.path = .ok k ∧
    ((∃ earlier ∈ before, key indexName earlier.path = .ok k ∧
        fault = .repeatedKey s.path k earlier.path) ∨
      (∀ earlier ∈ before, key indexName earlier.path ≠ .ok k) ∧
        parse charge s = .error fault)

/-- What a load makes of files when others are done. -/
structure Outcome (done files : List Source) (result : Except Fault Definitions) : Prop where
  loaded : ∀ ds, result = .ok ds →
    List.Forall₂ (Loads indexName charge) files ds ∧
      (DistinctKeys indexName done → DistinctKeys indexName (done ++ files))
  failed : ∀ fault, result = .error fault →
    ∃ before s after, files = before ++ s :: after ∧
      (∃ ds, List.Forall₂ (Loads indexName charge) before ds) ∧
      (DistinctKeys indexName done → DistinctKeys indexName (done ++ before)) ∧
      Fails indexName charge (done ++ before) s fault

/-- The keys that files have taken. -/
def Taken (done : List Source) (taken : List (String × String)) : Prop :=
  ∀ k path, (k, path) ∈ taken ↔ ∃ s ∈ done, key indexName s.path = .ok k ∧ s.path = path

variable {indexName charge} {done files : List Source} {s : Source} {k : String}
  {taken : List (String × String)}

/-- A definition has the path of the source it was parsed from. -/
theorem parse_pathname {d : Definition} (h : parse charge s = .ok d) : d.pathname = s.path := by
  obtain ⟨parts, ps, -, -, rfl⟩ := Definition.parse_ok (mapError_eq_ok.mp h)
  rfl

theorem Taken.nil : Taken indexName [] [] := fun _ _ => by simp

/-- A file with a new key is done. -/
theorem Taken.add (h : Taken indexName done taken) (hk : key indexName s.path = .ok k) :
    Taken indexName (done ++ [s]) ((k, s.path) :: taken) := by
  intro k' path
  rw [List.mem_cons, h k' path, Prod.mk.injEq]
  constructor
  · rintro (⟨rfl, rfl⟩ | ⟨t, ht, rest⟩)
    · exact ⟨s, by simp, hk, rfl⟩
    · exact ⟨t, by simp [ht], rest⟩
  · rintro ⟨t, ht, hkey, hpath⟩
    rcases List.mem_append.mp ht with ht | ht
    · exact .inr ⟨t, ht, hkey, hpath⟩
    · obtain rfl := List.mem_singleton.mp ht
      rw [hk] at hkey
      exact .inl ⟨(Except.ok.inj hkey).symm, hpath.symm⟩

theorem DistinctKeys.add (h : DistinctKeys indexName done)
    (fresh : ∀ earlier ∈ done, key indexName earlier.path ≠ key indexName s.path) :
    DistinctKeys indexName (done ++ [s]) :=
  List.pairwise_append.mpr ⟨h, List.pairwise_singleton _ _, fun a ha _ hb =>
    List.mem_singleton.mp hb ▸ fresh a ha⟩

theorem Outcome.nil : Outcome indexName charge done [] (.ok []) where
  loaded ds h := by
    cases h
    exact ⟨.nil, fun distinct => by rwa [List.append_nil]⟩
  failed fault h := nomatch h

/-- A file that fails ends the run. -/
theorem Outcome.stop {fault : Fault} (h : Fails indexName charge done s fault) :
    Outcome indexName charge done (s :: files) (.error fault) where
  loaded ds h := nomatch h
  failed fault' h' := by
    cases h'
    exact ⟨[], s, files, rfl, ⟨[], .nil⟩, fun distinct => by rwa [List.append_nil],
      by rwa [List.append_nil]⟩

/-- A file that loads leaves the others to the run. -/
theorem Outcome.next {e : String × Definition} {result : Except Fault Definitions}
    (loads : Loads indexName charge s e)
    (fresh : ∀ earlier ∈ done, key indexName earlier.path ≠ key indexName s.path)
    (h : Outcome indexName charge (done ++ [s]) files result) :
    Outcome indexName charge done (s :: files) (do return e :: (← result)) where
  loaded ds hds := by
    obtain ⟨rest, hrest, hds⟩ := bind_eq_ok.mp hds
    cases hds
    have ⟨paired, distinct⟩ := h.loaded rest hrest
    exact ⟨.cons loads paired, fun old => List.append_cons .. ▸ distinct (old.add fresh)⟩
  failed fault hfault := by
    rcases bind_eq_error.mp hfault with hfault | ⟨_, _, h⟩
    · obtain ⟨before, t, after, rfl, ⟨ds, paired⟩, distinct, fails⟩ := h.failed fault hfault
      refine ⟨s :: before, t, after, rfl, ⟨e :: ds, .cons loads paired⟩, ?_, ?_⟩
      · exact fun old => List.append_cons .. ▸ distinct (old.add fresh)
      · exact List.append_cons .. ▸ fails
    · cases h

/-- **A load runs over the files that are not skipped**, each of them in turn. -/
theorem collect_outcome {skipped : List String} {sources : List Source}
    (named : ∀ s ∈ sources, Named s.path) (h : Taken indexName done taken) :
    Outcome indexName charge done (kept skipped sources)
      (collect indexName charge skipped taken sources) := by
  -- by induction on the sources: those done so far have their keys taken
  induction sources generalizing done taken with
  | nil => exact .nil
  | cons s sources ih =>
      obtain ⟨hs, rest⟩ := List.forall_mem_cons.mp named
      obtain ⟨skip, hskip⟩ := hs.isSkipped_ok skipped
      obtain ⟨k, hk⟩ := hs.key_ok indexName
      rw [kept, List.filter_cons, ← kept, hskip]
      cases skip with
      | true =>
          simp only [collect, decision, hskip, ok_bind]
          exact ih rest h
      | false =>
          cases found : taken.find? fun t => t.1 == k with
          | some t =>
              obtain ⟨k', earlier⟩ := t
              obtain rfl : k' = k := by simpa using List.find?_some found
              obtain ⟨t, ht, hkey, rfl⟩ := (h _ _).mp (List.mem_of_find?_eq_some found)
              simp only [collect, decision, hskip, hk, ok_bind, found]
              exact .stop ⟨_, hk, .inl ⟨t, ht, hkey, rfl⟩⟩
          | none =>
              have fresh : ∀ earlier ∈ done, key indexName earlier.path ≠ .ok k := by
                intro t ht hkey
                have := List.find?_eq_none.mp found _ ((h k t.path).mpr ⟨t, ht, hkey, rfl⟩)
                simp at this
              simp only [collect, decision, hskip, hk, ok_bind, found]
              cases parsed : parse charge s with
              | error fault => exact .stop ⟨k, hk, .inr ⟨fresh, parsed⟩⟩
              | ok d =>
                  exact .next (e := (k, d)) ⟨hk, parsed, parse_pathname parsed⟩
                    (hk ▸ fresh) (ih rest (h.add hk))

/-- Files that load under different keys have entries under different keys. -/
theorem keys_nodup {ds : Definitions} (paired : List.Forall₂ (Loads indexName charge) files ds)
    (distinct : DistinctKeys indexName files) : (ds.map Prod.fst).Nodup := by
  have keys : files.map (fun s => key indexName s.path) = ds.map fun e => .ok e.1 := by
    clear distinct
    induction paired with
    | nil => rfl
    | cons loads _ ih => rw [List.map_cons, List.map_cons, loads.key, ih]
  have nodup : (ds.map fun e => (Except.ok e.1 : Except Fault String)).Nodup :=
    keys ▸ List.pairwise_map.mpr distinct
  exact List.pairwise_map.mpr ((List.pairwise_map.mp nodup).imp fun differ eq =>
    differ (congrArg Except.ok eq))

/-- Files that all parse under different keys do not fail. -/
theorem not_fails {before after : List Source} {fault : Fault}
    (parse_ok : ∃ d, parse charge s = .ok d)
    (distinct : DistinctKeys indexName (before ++ s :: after)) :
    ¬ Fails indexName charge before s fault := by
  rintro ⟨k, hk, ⟨earlier, mem, hkey, -⟩ | ⟨-, parsed⟩⟩
  · exact (List.pairwise_append.mp distinct).2.2 earlier mem s (by simp) (hkey.trans hk.symm)
  · obtain ⟨d, hd⟩ := parse_ok
    rw [parsed] at hd
    cases hd

/-- A run over all files succeeds exactly if they parse under different keys. -/
theorem Outcome.succeeds {result : Except Fault Definitions}
    (h : Outcome indexName charge [] files result) :
    (∃ ds, result = .ok ds) ↔
      (∀ s ∈ files, ∃ d, parse charge s = .ok d) ∧ DistinctKeys indexName files := by
  constructor
  · rintro ⟨ds, rfl⟩
    have ⟨paired, distinct⟩ := h.loaded ds rfl
    refine ⟨fun s hs => ?_, distinct .nil⟩
    obtain ⟨e, -, loads⟩ := exists_of_mem_left paired hs
    exact ⟨e.2, loads.parsed⟩
  · rintro ⟨parses, distinct⟩
    cases result with
    | ok ds => exact ⟨ds, rfl⟩
    | error fault =>
        obtain ⟨before, s, after, rfl, -, -, fails⟩ := h.failed fault rfl
        exact absurd fails (not_fails (parses s (by simp)) distinct)

end Run

section Directory

variable {settings : Settings} {es : List (String × Tree)} {ignore : Value}
  {always further : List String}

/-- Whatever is skipped, a run over the sources of a tree has an outcome. -/
theorem sources_outcome {root : Tree} (wf : root.WellFormed) (settings : Settings)
    (skipped : List String) :
    Outcome settings.indexName settings.defaultCharge []
      (kept skipped (root.sources settings.extensions))
      (collect settings.indexName settings.defaultCharge skipped []
        (root.sources settings.extensions)) := by
  refine collect_outcome (fun s hs => ?_) .nil
  obtain ⟨names, found⟩ := (mem_sourcesBelow wf).mp hs
  exact found.named wf

/-- Loading a directory alone is a run over the files of its walk. -/
theorem loadAlone_outcome (wf : (directory es).WellFormed)
    (config : listed settings.ignore = .ok (always.map .text))
    (call : listedIfAny ignore = .ok (further.map .text)) :
    Outcome settings.indexName settings.defaultCharge []
      (kept ((always ++ further).map skippedText) ((directory es).sources settings.extensions))
      (loadAlone settings (some (directory es)) ignore) := by
  rw [loadAlone, rootOf, ok_bind, skippedBy_ok config call, ok_bind]
  exact sources_outcome wf settings _

/-- **What a load does.** Of a directory it takes the sources that are not skipped, in the
order of the walk. It succeeds exactly if all of them parse and no two have the same key;
then their entries, one for each file and under its key, are laid over the seed. Otherwise
the fault is that of the first file that repeats the key of an earlier one or does not
parse. -/
theorem load_outcome (seed : Definitions) (wf : (directory es).WellFormed)
    (config : listed settings.ignore = .ok (always.map .text))
    (call : listedIfAny ignore = .ok (further.map .text)) :
    ∃ files, IsWalk (directory es) settings.extensions ((always ++ further).map skippedText)
        files ∧
      (∀ s ∈ files, ∃ k, key settings.indexName s.path = .ok k) ∧
      ((∃ ds, load settings (some (directory es)) ignore seed = .ok ds) ↔
        (∀ s ∈ files, ∃ d, parse settings.defaultCharge s = .ok d) ∧
          DistinctKeys settings.indexName files) ∧
      (∀ ds, load settings (some (directory es)) ignore seed = .ok ds →
        ∃ loaded, List.Forall₂ (Loads settings.indexName settings.defaultCharge) files loaded ∧
          (loaded.map Prod.fst).Nodup ∧ Definitions.Overlaid seed loaded ds) ∧
      ∀ fault, load settings (some (directory es)) ignore seed = .error fault →
        ∃ before s after, files = before ++ s :: after ∧
          (∀ b ∈ before, ∃ d, parse settings.defaultCharge b = .ok d) ∧
          DistinctKeys settings.indexName before ∧
          Fails settings.indexName settings.defaultCharge before s fault := by
  have walk := kept_isWalk settings.extensions ((always ++ further).map skippedText) wf
  have outcome := loadAlone_outcome wf config call
  refine ⟨_, walk, fun s hs => ?_, ?_, ?_, ?_⟩
  · obtain ⟨names, found⟩ := ((walk.mem s).mp hs).1
    exact (found.named wf).key_ok settings.indexName
  -- the seed decides nothing: with it a load fails exactly where it fails alone
  · rw [← outcome.succeeds]
    exact ⟨fun ⟨_, h⟩ => have ⟨loaded, h, _⟩ := bind_eq_ok.mp h; ⟨loaded, h⟩,
      fun ⟨_, h⟩ => ⟨_, bind_eq_ok.mpr ⟨_, h, rfl⟩⟩⟩
  · intro ds h
    obtain ⟨loaded, alone, rest⟩ := bind_eq_ok.mp h
    cases rest
    have ⟨paired, distinct⟩ := outcome.loaded loaded alone
    have nodup := keys_nodup paired (distinct .nil)
    exact ⟨loaded, paired, nodup, Definitions.overlay_overlaid nodup⟩
  -- nothing fails after the sources are loaded, so the fault is theirs
  · intro fault h
    rcases bind_eq_error.mp h with alone | ⟨_, _, h⟩
    · obtain ⟨before, s, after, files, ⟨ds, paired⟩, distinct, fails⟩ :=
        outcome.failed fault alone
      refine ⟨before, s, after, files, fun b hb => ?_, distinct .nil, fails⟩
      obtain ⟨e, -, loads⟩ := exists_of_mem_left paired hb
      exact ⟨e.2, loads.parsed⟩
    · cases h

end Directory

/-- A directory with a source, a hidden file and a directory that stands for a
definition. -/
def shelf : List (String × Tree) :=
  [("part.py", .file (.text "def f():\n    pass\n")), (".part.py", .file (.text "")),
    ("whole", .directory [("__main__.py", .file (.text "def g():\n    pass\n"))])]

theorem shelf_wellFormed : (directory shelf).WellFormed := by
  refine .directory (by decide) (by decide) ?_
  simp only [shelf, List.forall_mem_cons]
  exact ⟨.file, .file, .directory (by decide) (by decide) (by simpa using .file), by simp⟩

theorem load_outcome_shelf :
    ∃ files, IsWalk (directory shelf) [".py"] (["./part"].map skippedText) files ∧
      ((∃ ds, load Settings.standard (some (directory shelf)) (.list [.text "./part"]) [] =
          .ok ds) ↔
        (∀ s ∈ files, ∃ d, parse 1 s = .ok d) ∧ DistinctKeys (.text "__main__") files) := by
  have config : listed Settings.standard.ignore = .ok (([] : List String).map .text) := rfl
  have call : listedIfAny (.list [.text "./part"]) = .ok (["./part"].map .text) := rfl
  have ⟨files, walk, _, succeeds, _⟩ := load_outcome [] shelf_wellFormed config call
  exact ⟨files, walk, succeeds⟩

end Tree

end Docsig
