import Docsig.Page.Write
import Docsig.Proofs.Tree.Key
import Docsig.Proofs.Tree.Place

/-!
The files of the pages.

Keys of sources have different files, but for the empty key and the key "index": these two
share the index file (`place_eq_iff`). A page is rendered and written before the next one is,
and that is as good as rendering all pages first and creating their files then
(`writePages_eq_ok`).

`writeAll_outcome` says of what a load gives when its pages can be written, and what the
tree holds afterwards: where keys have one place, the page of the greatest of them.
-/

namespace Docsig

namespace Page

open Docsig.Tree
open Docsig.Path (IsName IsProper)

variable {k k' directory : String} {fs : FileSystem} {t t' : Tree} {e : String × Definition}
  {page : String × String} {ds es : Definitions} {pages : List (String × String)}

/-! ### Files of keys -/

/-- The empty key goes by the name of another. -/
theorem fileName_eq_iff :
    fileName k = fileName k' ↔ k = k' ∨ k = "" ∧ k' = "index" ∨ k = "index" ∧ k' = "" := by
  have named (k : String) (h : k ≠ "") : (if k.isEmpty then "index" else k) = k :=
    if_neg (by simpa using h)
  rw [fileName, fileName, String.append_left_inj]
  by_cases empty : k = "" <;> by_cases empty' : k' = ""
  · simp [empty, empty']
  · subst empty
    rw [named k' empty']
    have differ : "" ≠ k' := Ne.symm empty'
    simpa [differ] using eq_comm
  · subst empty'
    rw [named k empty]
    simp [empty]
  · rw [named k empty, named k' empty']
    simp [empty, empty']

/-- A proper name with the extension of pages is one. -/
theorem isProper_page {name : String} (h : IsProper name) : IsProper (name ++ ".md") := by
  -- a name that ends in the suffix is longer than what is no name
  have long : 3 ≤ (name ++ ".md").length := by
    rw [String.length_append]
    exact Nat.le_add_left 3 name.length
  have differ (s : String) (short : s.length < 3) : name ++ ".md" ≠ s := by
    rintro rfl
    exact absurd long (Nat.not_le.mpr short)
  exact ⟨⟨differ "" (by decide), differ "." (by decide),
    by simpa [String.toList_append] using h.no_slash⟩, differ ".." (by decide)⟩

/-- The file of a key is at proper names. -/
theorem fileName_names (h : IsKey k) :
    ∃ names, names ≠ [] ∧ (∀ name ∈ names, IsProper name) ∧
      fileName k = "/".intercalate names := by
  obtain ⟨names, proper, rfl⟩ := h
  rcases List.eq_nil_or_concat' names with rfl | ⟨above, name, rfl⟩
  · exact ⟨["index.md"], by simp, by decide, rfl⟩
  · have nonempty := Path.intercalate_ne_empty (by simp) fun name hname => (proper name hname).toIsName
    obtain ⟨properAbove, properLast⟩ := List.forall_mem_append.mp proper
    refine ⟨above ++ [name ++ ".md"], by simp, ?_, ?_⟩
    · exact List.forall_mem_append.mpr ⟨properAbove, List.forall_mem_singleton.mpr
        (isProper_page (properLast name List.mem_cons_self))⟩
    · rw [fileName, if_neg (by simpa using nonempty), Path.intercalate_concat]

def route (directory : String) (fs : FileSystem) (key : String) : Route :=
  .ofPath fs.working (outputPath directory key)

def place (directory : String) (fs : FileSystem) (key : String) : Place :=
  (route directory fs key).place

/-- The place that a directory of pages leads to. -/
def base (directory : String) (fs : FileSystem) : Place :=
  (if Path.isAbsolute directory then [] else fs.working : Place).follow (Path.segmentsOf directory)

/-- The page of a key is below the directory of the pages. -/
theorem place_names {names : List String} (ne : names ≠ [])
    (proper : ∀ name ∈ names, IsProper name) (file : fileName k = "/".intercalate names) :
    place directory fs k = base directory fs ++ names := by
  have valid (name : String) (h : name ∈ names) : IsName name := (proper name h).toIsName
  have relative := Path.isAbsolute_names ne valid
  have start : Path.isAbsolute (Path.join directory ("/".intercalate names)) =
      Path.isAbsolute directory := (Path.join_relative relative).1
  have segments : Path.segmentsOf (Path.join directory ("/".intercalate names)) =
      Path.segmentsOf directory ++ names := by
    rw [(Path.join_relative relative).2, Path.segmentsOf_names ne valid]
  obtain ⟨above, name, rfl⟩ := (List.eq_nil_or_concat' names).resolve_left ne
  rw [place, route, Route.place, Route.ofPath, outputPath, file, start, segments,
    ← List.append_assoc, List.dropLast_concat, List.getLast?_concat, Option.getD_some,
    Place.follow_append, Place.follow_names (List.forall_mem_append.mp proper).1, base,
    List.append_assoc]

/-- **Keys of sources have one place exactly if one is empty and the other the index.** -/
theorem place_eq_iff (h : IsKey k) (h' : IsKey k') : place directory fs k = place directory fs k' ↔
    k = k' ∨ k = "" ∧ k' = "index" ∨ k = "index" ∧ k' = "" := by
  obtain ⟨names, ne, proper, file⟩ := fileName_names h
  obtain ⟨names', ne', proper', file'⟩ := fileName_names h'
  rw [← fileName_eq_iff, place_names ne proper file, place_names ne' proper' file', file, file',
    List.append_cancel_left_eq]
  exact ⟨congrArg _, Path.intercalate_inj (fun name h => (proper name h).toIsName)
    fun name h => (proper' name h).toIsName⟩

/-! ### Pages -/

theorem renderPage_eq_ok :
    renderPage e = .ok page ↔ render e.2 (some e.1) = .ok page.2 ∧ e.1 = page.1 := by
  rw [renderPage, bind_eq_ok]
  obtain ⟨key, text⟩ := page
  simp

/-- The file that a page is written to, and the way to it. -/
def pageFile (directory : String) (fs : FileSystem) (page : String × String) :
    Route × Definition.Contents :=
  (route directory fs page.1, .text page.2)

/-- A page is written if there is one and its file can be created. -/
theorem writePage_eq_ok :
    writePage directory fs.working t e = .ok t' ↔ ∃ page, renderPage e = .ok page ∧
      t.create (pageFile directory fs page).1 (pageFile directory fs page).2 = .ok t' := by
  rw [writePage, bind_eq_ok]
  constructor
  · rintro ⟨text, rendered, created⟩
    exact ⟨(e.1, text), renderPage_eq_ok.mpr ⟨mapError_eq_ok.mp rendered, rfl⟩,
      mapError_eq_ok.mp created⟩
  · rintro ⟨⟨key, text⟩, rendered, created⟩
    obtain ⟨rendered, rfl⟩ := renderPage_eq_ok.mp rendered
    exact ⟨text, mapError_eq_ok.mpr rendered, mapError_eq_ok.mpr created⟩

/-- **Pages are written if all of them can be rendered and their files can be created.** -/
theorem writePages_eq_ok :
    es.foldlM (writePage directory fs.working) t = .ok t' ↔
      ∃ pages, es.mapM renderPage = .ok pages ∧
        t.createAll (pages.map (pageFile directory fs)) = .ok t' := by
  induction es generalizing t with
  | nil =>
      constructor
      · rintro ⟨⟩
        exact ⟨[], rfl, rfl⟩
      · rintro ⟨pages, all, created⟩
        cases all
        cases created
        rfl
  | cons e es ih =>
      rw [List.foldlM_cons, bind_eq_ok]
      constructor
      · rintro ⟨t₁, step, run⟩
        obtain ⟨page, rendered, first⟩ := writePage_eq_ok.mp step
        obtain ⟨pages, all, rest⟩ := ih.mp run
        exact ⟨page :: pages, mapM_eq_ok.mpr (.cons rendered (mapM_eq_ok.mp all)),
          createAll_cons.mpr ⟨t₁, first, rest⟩⟩
      · rintro ⟨pages, all, created⟩
        cases mapM_eq_ok.mp all with
        | cons rendered others =>
            obtain ⟨t₁, first, rest⟩ := createAll_cons.mp created
            exact ⟨t₁, writePage_eq_ok.mpr ⟨_, rendered, first⟩,
              ih.mpr ⟨_, mapM_eq_ok.mpr others, rest⟩⟩

/-! ### Mappings -/

/-- Pages come under the keys of their definitions, in order. -/
theorem renderAll_keys (h : renderAll ds = .ok pages) :
    pages.map Prod.fst = (sortByName ds).map Prod.fst := by
  have paired := mapM_eq_ok.mp h
  rw [← List.forall₂_eq_eq_eq, List.forall₂_map_left_iff, List.forall₂_map_right_iff]
  exact (paired.imp fun _ _ rendered => (renderPage_eq_ok.mp rendered).2.symm).flip

theorem renderAll_mem (h : renderAll ds = .ok pages) :
    k ∈ pages.map Prod.fst ↔ k ∈ ds.map Prod.fst := by
  simp [renderAll_keys h, mem_sortByName]

/-- Pages come in the order of their keys. -/
theorem renderAll_ordered (distinct : (ds.map Prod.fst).Nodup) (h : renderAll ds = .ok pages) :
    pages.Pairwise fun a b => a.1 < b.1 := by
  have ordered := List.pairwise_map.mpr (sortByName_ordered distinct)
  rw [← renderAll_keys h] at ordered
  exact List.pairwise_map.mp ordered

def routes (directory : String) (fs : FileSystem) (ds : Definitions) : List Route :=
  ds.map fun e => route directory fs e.1

/-- Pages need the room of the files of their mapping. -/
theorem hasRoom_pages (h : renderAll ds = .ok pages) :
    t.HasRoom ((pages.map (pageFile directory fs)).map Prod.fst) ↔
      t.HasRoom (routes directory fs ds) := by
  refine HasRoom.congr fun r => ?_
  have ofPages : (pages.map (pageFile directory fs)).map Prod.fst =
      (pages.map Prod.fst).map (route directory fs) := by
    simp [pageFile, Function.comp_def]
  have ofKeys : routes directory fs ds = (ds.map Prod.fst).map (route directory fs) := by
    simp [routes, Function.comp_def]
  rw [ofPages, ofKeys, List.mem_map, List.mem_map]
  simp only [renderAll_mem h]

theorem outputPaths_eq (h : renderAll ds = .ok pages) :
    ((sortByName ds).map fun e => outputPath directory e.1) =
      pages.map fun page => outputPath directory page.1 := by
  have := congrArg (List.map (outputPath directory)) (renderAll_keys h)
  rw [List.map_map, List.map_map] at this
  exact this.symm

/-- **A mapping is written if it can be rendered and its files can be created.** -/
theorem writeAll_eq_ok {written : List String} :
    writeAll ds directory fs = .ok (written, t') ↔ ∃ pages, renderAll ds = .ok pages ∧
      written = pages.map (fun page => outputPath directory page.1) ∧
      fs.tree.createAll (pages.map (pageFile directory fs)) = .ok t' := by
  rw [writeAll, bind_eq_ok]
  constructor
  · rintro ⟨_, run, ⟨⟩⟩
    obtain ⟨pages, rendered, created⟩ := writePages_eq_ok.mp run
    exact ⟨pages, rendered, outputPaths_eq rendered, created⟩
  · rintro ⟨pages, rendered, rfl, created⟩
    refine ⟨_, writePages_eq_ok.mpr ⟨pages, rendered, created⟩, ?_⟩
    rw [outputPaths_eq rendered, pure_eq_ok]

theorem dirs_pages (directory : String) (fs : FileSystem) (pages : List (String × String)) :
    ∀ f ∈ pages.map (pageFile directory fs), fs.tree.kind? f.1.start = some .directory :=
  List.forall_mem_map.mpr fun _ _ => fs.kind?_start _

/-- The page of the greatest key with a place stands there. -/
theorem kind?_page (distinct : (ds.map Prod.fst).Nodup) (rendered : renderAll ds = .ok pages)
    (created : fs.tree.createAll (pages.map (pageFile directory fs)) = .ok t')
    (hpage : page ∈ pages) (last : ∀ later ∈ pages, page.1 < later.1 →
      place directory fs later.1 ≠ place directory fs page.1) :
    t'.kind? (place directory fs page.1) = some (.file (.text page.2)) := by
  have ordered := renderAll_ordered distinct rendered
  have dirs := dirs_pages directory fs pages
  obtain ⟨before, after, rfl⟩ := List.append_of_mem hpage
  rw [List.map_append, List.map_cons] at created dirs
  have others : ∀ g ∈ after.map (pageFile directory fs),
      g.1.place ≠ (pageFile directory fs page).1.place := by
    refine List.forall_mem_map.mpr fun later hlater => ?_
    have greater := (List.pairwise_cons.mp (List.pairwise_append.mp ordered).2.1).1 later hlater
    exact last later (by simp [hlater]) greater
  exact kind?_createAll_last (f := pageFile directory fs page) dirs created others

/-- **What becomes of the pages of a load.** The keys that come from its sources have one place
exactly if one is empty and the other is "index"; those that were there before may lead
anywhere. Pages are written exactly if they can be rendered and there is room for their files.
Then a page stands in its place, unless a greater key has that place too; the directories on
the ways are made, and nothing else changes. -/
theorem writeAll_outcome {settings : Settings} {root : Tree} {ignore : Value}
    {seed ds : Definitions} (wf : root.WellFormed) (distinct : (seed.map Prod.fst).Nodup)
    (loaded : load settings (some root) ignore seed = .ok ds) (directory : String)
    (fs : FileSystem) :
    (∀ k ∈ ds.map Prod.fst, k ∉ seed.map Prod.fst → IsKey k) ∧
    (∀ k k', IsKey k → IsKey k' → (place directory fs k = place directory fs k' ↔
      k = k' ∨ k = "" ∧ k' = "index" ∨ k = "index" ∧ k' = "")) ∧
    ((∃ result, writeAll ds directory fs = .ok result) ↔
      (∃ pages, renderAll ds = .ok pages) ∧ fs.tree.HasRoom (routes directory fs ds)) ∧
    ∀ written t', writeAll ds directory fs = .ok (written, t') → ∃ pages,
      renderAll ds = .ok pages ∧
      written = pages.map (fun page => outputPath directory page.1) ∧
      (∀ page ∈ pages, (∀ later ∈ pages, page.1 < later.1 →
          place directory fs later.1 ≠ place directory fs page.1) →
        t'.kind? (place directory fs page.1) = some (.file (.text page.2))) ∧
      ∀ p, (∀ page ∈ pages, place directory fs page.1 ≠ p) →
        t'.kind? p = if ∃ page ∈ pages, p ∈ (route directory fs page.1).passed
          then some .directory else fs.tree.kind? p := by
  have ⟨nodup, keys⟩ := load_keys wf distinct loaded
  refine ⟨keys, fun k k' => place_eq_iff, ?_, ?_⟩
  · constructor
    · rintro ⟨⟨written, t'⟩, h⟩
      obtain ⟨pages, rendered, -, created⟩ := writeAll_eq_ok.mp h
      -- the ways of the pages are those of the keys, so that there is room for both or none
      have room := (exists_createAll (dirs_pages directory fs pages)).mp ⟨t', created⟩
      exact ⟨⟨pages, rendered⟩, (hasRoom_pages rendered).mp room⟩
    · rintro ⟨⟨pages, rendered⟩, room⟩
      obtain ⟨t', created⟩ := (exists_createAll (dirs_pages directory fs pages)).mpr
        ((hasRoom_pages rendered).mpr room)
      exact ⟨_, writeAll_eq_ok.mpr ⟨pages, rendered, rfl, created⟩⟩
  · intro written t' h
    obtain ⟨pages, rendered, rfl, created⟩ := writeAll_eq_ok.mp h
    refine ⟨pages, rendered, rfl, fun page => kind?_page nodup rendered created, fun p other => ?_⟩
    rw [kind?_createAll (dirs_pages directory fs pages) created (List.forall_mem_map.mpr other)]
    simp only [List.mem_map, exists_exists_and_eq_and]
    rfl

/-! ### Two definitions in one file -/

/-- A directory that has a definition itself, beside one called "index". -/
def twins : Tree :=
  .directory [("__main__.py", .file (.text "# Root\ndef main(): pass\n")),
    ("index.py", .file (.text "def main(): pass\n"))]

theorem twins_wellFormed : twins.WellFormed := by
  refine .directory (by decide) (by decide) ?_
  simp only [List.forall_mem_cons]
  exact ⟨.file, .file, by simp⟩

theorem twins_sources : twins.sources [".py"] =
    [⟨"__main__.py", .text "# Root\ndef main(): pass\n"⟩,
      ⟨"index.py", .text "def main(): pass\n"⟩] := by
  have own : filesAmong [".py"] "" twins.entries =
      [("__main__.py", ⟨"__main__.py", .text "# Root\ndef main(): pass\n"⟩),
        ("index.py", ⟨"index.py", .text "def main(): pass\n"⟩)] := rfl
  have below : directoriesAmong [".py"] "" twins.entries = [] := by
    simp [twins, entries, directoriesAmong, isDirectory]
  rw [sources, twins, sourcesBelow, inOrder]
  rw [twins, entries] at own below
  rw [own, below, sortByName_of_le (by decide), sortByName_of_le .nil]
  rfl

/-- The two definitions are loaded, and their pages differ. -/
theorem load_twins : ∃ root index rootPage indexPage,
    load Settings.standard (some twins) .null [] = .ok [("", root), ("index", index)] ∧
      render root (some "") = .ok rootPage ∧ render index (some "index") = .ok indexPage ∧
      rootPage ≠ indexPage := by
  have differ : ∃ root ∈ (parse 1 ⟨"__main__.py", .text "# Root\ndef main(): pass\n"⟩).toOption,
      ∃ index ∈ (parse 1 ⟨"index.py", .text "def main(): pass\n"⟩).toOption,
      ∃ rootPage ∈ (render root (some "")).toOption,
      ∃ indexPage ∈ (render index (some "index")).toOption, rootPage ≠ indexPage := by
    decide +kernel
  obtain ⟨root, hroot, index, hindex, rootPage, hrootPage, indexPage, hindexPage, differ⟩ := differ
  refine ⟨root, index, rootPage, indexPage, ?_, mem_toOption.mp hrootPage,
    mem_toOption.mp hindexPage, differ⟩
  have alone : loadAlone Settings.standard (some twins) .null =
      collect (.text "__main__") 1 [] [] (twins.sources [".py"]) := rfl
  have rootKey : decision (.text "__main__") [] [] "__main__.py" = .ok (.take "") := rfl
  have indexKey : decision (.text "__main__") [] [("", "__main__.py")] "index.py" =
      .ok (.take "index") := rfl
  rw [load, alone, twins_sources]
  simp only [collect, rootKey, indexKey, mem_toOption.mp hroot, mem_toOption.mp hindex, ok_bind]
  rfl

def emptySystem : FileSystem := ⟨empty, [], rfl⟩

def indexRoute : Route := ⟨[], ["docs"], "index.md"⟩

theorem route_root : route "docs" emptySystem "" = indexRoute := by
  decide

theorem route_index : route "docs" emptySystem "index" = indexRoute := by
  decide

theorem hasRoom_index : emptySystem.tree.HasRoom [indexRoute, indexRoute] := by
  have fits : emptySystem.tree.Fits indexRoute := by
    refine ⟨by decide, fun p hp c isFile => ?_, fun isDirectory => ?_⟩
    · have passed : p = [] ∨ p = ["docs"] := by
        simpa [Route.passed, Place.passed, indexRoute, Place.step] using hp
      rcases passed with rfl | rfl <;> cases isFile
    · cases isDirectory
  exact ⟨by simp [fits], by decide⟩

theorem writeAll_outcome_twins : ∃ ds, load Settings.standard (some twins) .null [] = .ok ds ∧
    ((∃ result, writeAll ds "docs" emptySystem = .ok result) ↔
      (∃ pages, renderAll ds = .ok pages) ∧
        emptySystem.tree.HasRoom (routes "docs" emptySystem ds)) := by
  obtain ⟨root, index, -, -, loaded, -⟩ := load_twins
  have distinct : (([] : Definitions).map Prod.fst).Nodup := List.nodup_nil
  exact ⟨_, loaded, (writeAll_outcome twins_wellFormed distinct loaded "docs" emptySystem).2.2.1⟩

/-- Both pages are written to the index file, and that of the directory itself is lost. -/
theorem writeAll_replaces : ∃ ds pages t',
    load Settings.standard (some twins) .null [] = .ok ds ∧ renderAll ds = .ok pages ∧
      writeAll ds "docs" emptySystem = .ok (["docs/index.md", "docs/index.md"], t') ∧
      ∃ page ∈ pages, t'.kind? (place "docs" emptySystem page.1) ≠ some (.file (.text page.2)) := by
  obtain ⟨root, index, rootPage, indexPage, loaded, renderRoot, renderIndex, differ⟩ := load_twins
  have rendered : renderAll [("", root), ("index", index)] =
      .ok [("", rootPage), ("index", indexPage)] := by
    rw [renderAll, sortByName_of_le (by simp)]
    exact mapM_eq_ok.mpr (.cons (renderPage_eq_ok.mpr ⟨renderRoot, rfl⟩)
      (.cons (renderPage_eq_ok.mpr ⟨renderIndex, rfl⟩) .nil))
  have room : emptySystem.tree.HasRoom (([("", rootPage), ("index", indexPage)].map
      (pageFile "docs" emptySystem)).map Prod.fst) := by
    simp only [List.map_cons, List.map_nil, pageFile, route_root, route_index]
    exact hasRoom_index
  obtain ⟨t', created⟩ := (exists_createAll (dirs_pages "docs" emptySystem _)).mpr room
  have written : ["docs/index.md", "docs/index.md"] =
      [("", rootPage), ("index", indexPage)].map fun page => outputPath "docs" page.1 := by
    simp only [List.map_cons, List.map_nil]
    decide
  refine ⟨_, _, t', loaded, rendered, writeAll_eq_ok.mpr ⟨_, rendered, written, created⟩,
    ("", rootPage), by simp, ?_⟩
  -- the page of the greater key comes later
  have greatest : ∀ later ∈ [("", rootPage), ("index", indexPage)], ¬ "index" < later.1 := by
    simp only [List.forall_mem_cons]
    decide
  have replaced := kind?_page (by simp) rendered created
    (List.mem_cons_of_mem ("", rootPage) List.mem_cons_self)
    fun later hlater greater => absurd greater (greatest later hlater)
  have same : place "docs" emptySystem "" = place "docs" emptySystem "index" := by
    rw [place, place, route_root, route_index]
  intro kept
  rw [same, replaced] at kept
  exact differ (by simpa using kept.symm)

end Page

end Docsig
