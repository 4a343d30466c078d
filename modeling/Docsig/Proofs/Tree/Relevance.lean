import Docsig.Proofs.Tree.Change
import Docsig.Proofs.Tree.Key

/-!
What a load does not look at.

A load takes files at some names (`Takes`) and passes over the others: those that are
skipped, hidden, below a hidden or a cache directory, or without one of the extensions
(`PassedOver`). A run over the sources is a run over those that are not skipped
(`collect_kept`), and these are the walk of any tree that agrees where files are taken
(`IsWalk.congr`). So the order of entries makes no difference, nor does any file that is
passed over.

* `load_congr`: trees that agree where files are taken load alike.
* `load_relevant`: other orders, and files passed over that are changed, removed or added.

Nothing is said of what is logged: a skipped source is named there.
-/

namespace Docsig.Tree

open Docsig.Path (IsName)

variable {settings : Settings} {ignore : Value} {extensions skipped names p : List String}
  {name : String} {es fs : List (String × Tree)} {t u : Tree} {s : Source}

/-! ### Files that are taken -/

/-- Names at which a load takes a file. -/
structure Takes (settings : Settings) (ignore : Value) (names : List String) : Prop where
  eligible : Eligible settings.extensions names
  unskipped : ∃ skipped, skippedBy settings ignore = .ok skipped ∧
    isSkipped skipped ("/".intercalate names) = .ok false

/-- Names at which a load passes over a file, and why. -/
inductive PassedOver (settings : Settings) (ignore : Value) : List String → Prop
  | skipped {names skipped : List String} : skippedBy settings ignore = .ok skipped →
      isSkipped skipped ("/".intercalate names) = .ok true → PassedOver settings ignore names
  | hidden {folders : List String} {name : String} : isHidden name = true →
      PassedOver settings ignore (folders ++ [name])
  | below {folders : List String} {folder name : String} : folder ∈ folders →
      isHidden folder = true ∨ folder = cacheName → PassedOver settings ignore (folders ++ [name])
  | extension {folders : List String} {name : String} :
      (∀ extension ∈ settings.extensions, ¬ extension.toList <:+ name.toList) →
      PassedOver settings ignore (folders ++ [name])

theorem isWalked_iff : isWalked name = true ↔ ¬ (isHidden name = true ∨ name = cacheName) := by
  simp [isWalked]

theorem PassedOver.not_takes (h : PassedOver settings ignore names) :
    ¬ Takes settings ignore names := by
  rintro ⟨eligible, others, call, unskipped⟩
  cases h with
  | skipped call' skip =>
      obtain rfl := Except.ok.inj (call'.symm.trans call)
      rw [skip] at unskipped
      cases unskipped
  | hidden hidden => exact (isSource_iff.mp (eligible_concat.mp eligible).2).1 hidden
  | below mem unwalked => exact isWalked_iff.mp ((eligible_concat.mp eligible).1 _ mem) unwalked
  | extension none =>
      obtain ⟨e, he, suffix⟩ := (isSource_iff.mp (eligible_concat.mp eligible).2).2
      exact none e he suffix

/-! ### Trees with the same files to take -/

/-- Trees that hold the same files where a load takes them. -/
def Agree (settings : Settings) (ignore : Value) (t u : Tree) : Prop :=
  ∀ names contents, Takes settings ignore names →
    (t.at? names = some (file contents) ↔ u.at? names = some (file contents))

theorem Agree.symm (h : Agree settings ignore t u) : Agree settings ignore u t :=
  fun names contents takes => (h names contents takes).symm

/-- A source that is not skipped is found in both of two trees. -/
theorem Agree.found (h : Agree settings ignore t u)
    (call : skippedBy settings ignore = .ok skipped)
    (unskipped : isSkipped skipped s.path = .ok false)
    (found : Found settings.extensions "" t names s) : Found settings.extensions "" u names s where
  path := found.path
  contents := by
    have path : s.path = "/".intercalate names := by simpa using found.path
    exact (h names s.contents ⟨found.eligible, skipped, call, path ▸ unskipped⟩).mp found.contents
  eligible := found.eligible

/-- **A walk of one tree is a walk of the other.** -/
theorem IsWalk.congr {files : List Source} (h : Agree settings ignore t u)
    (call : skippedBy settings ignore = .ok skipped)
    (walk : IsWalk t settings.extensions skipped files) :
    IsWalk u settings.extensions skipped files where
  mem s := by
    rw [walk.mem]
    constructor
    · rintro ⟨⟨names, found⟩, unskipped⟩
      exact ⟨⟨names, h.found call unskipped found⟩, unskipped⟩
    · rintro ⟨⟨names, found⟩, unskipped⟩
      exact ⟨⟨names, h.symm.found call unskipped found⟩, unskipped⟩
  ordered := by
    refine walk.ordered.imp_of_mem fun {a b} ha hb before => ?_
    obtain ⟨as, bs, foundA, foundB, before⟩ := before
    exact ⟨as, bs, h.found call ((walk.mem a).mp ha).2 foundA,
      h.found call ((walk.mem b).mp hb).2 foundB, before⟩

/-! ### The run over them -/

/-- **A run over sources is a run over those that are not skipped.** -/
theorem collect_kept {indexName : Value} {charge : Int} {taken : List (String × String)}
    {sources : List Source} (named : ∀ s ∈ sources, Named s.path) :
    collect indexName charge skipped taken (kept skipped sources) =
      collect indexName charge skipped taken sources := by
  induction sources generalizing taken with
  | nil => rfl
  | cons s sources ih =>
      obtain ⟨hs, rest⟩ := List.forall_mem_cons.mp named
      obtain ⟨skip, found⟩ := hs.isSkipped_ok skipped
      rw [kept, List.filter_cons, ← kept, found]
      cases skip with
      | true =>
          rw [if_neg (by simp), ih rest, collect, decision, found]
          rfl
      | false =>
          rw [if_pos (by simp), collect, collect]
          refine bind_congr fun decided => ?_
          cases decided with
          | skip => exact ih rest
          | take key => simp only [ih rest]

/-- **Directories that agree where files are taken load alike.** -/
theorem load_congr (seed : Definitions) (wf : (directory es).WellFormed)
    (wf' : (directory fs).WellFormed) (h : Agree settings ignore (directory es) (directory fs)) :
    load settings (some (directory fs)) ignore seed =
      load settings (some (directory es)) ignore seed := by
  have named {root : Tree} (wf : root.WellFormed) (s : Source)
      (hs : s ∈ root.sources settings.extensions) : Named s.path := by
    obtain ⟨names, found⟩ := (mem_sourcesBelow wf).mp hs
    exact found.named wf
  have alone : loadAlone settings (some (directory fs)) ignore =
      loadAlone settings (some (directory es)) ignore := by
    rw [loadAlone, loadAlone, rootOf, rootOf, ok_bind, ok_bind]
    cases call : skippedBy settings ignore with
    | error fault => rfl
    | ok skipped =>
        have walk := (kept_isWalk settings.extensions skipped wf).congr h call
        have same := (kept_isWalk settings.extensions skipped wf').unique wf' walk
        rw [ok_bind, ok_bind, ← collect_kept (named wf'), same, collect_kept (named wf)]
  rw [load, load, alone]

/-! ### Changes that make no difference -/

theorem agree_rearranged (wf : t.WellFormed) (h : Rearranged t u) : Agree settings ignore t u :=
  fun _ _ _ => (at?_rearranged wf h).symm

theorem agree_write {c : Definition.Contents} (passed : PassedOver settings ignore p) (ne : p ≠ [])
    (room : t.obstacle? p = none) : Agree settings ignore t (t.write p c) := by
  intro names contents takes
  have other : names ≠ p := fun eq => passed.not_takes (eq ▸ takes)
  rw [at?_write ne room]
  simp [other]

theorem agree_remove {c : Definition.Contents} (wf : (directory es).WellFormed)
    (passed : PassedOver settings ignore p) (found : (directory es).at? p = some (file c)) :
    Agree settings ignore (directory es) ((directory es).remove p) := by
  intro names contents takes
  have other : names ≠ p := fun eq => passed.not_takes (eq ▸ takes)
  rw [at?_remove wf found]
  simp [other]

theorem remove_directory : ∃ fs, (directory es).remove p = directory fs := by
  rw [remove]
  split
  · exact ⟨_, rfl⟩
  · exact ⟨_, rfl⟩

/-- A directory has no room for a file in its own place. -/
theorem ne_nil_of_room (room : (directory es).obstacle? p = none) : p ≠ [] := by
  rintro rfl
  cases room

/-- **What a load does not look at.** A load gives the same mapping, or the same fault, for
any other tree that holds the same files where the load takes them. So it does when entries
are listed in another order, and when a file that it passes over gets other contents, is
removed or is added. -/
theorem load_relevant (settings : Settings) (ignore : Value) (seed : Definitions)
    (wf : (directory es).WellFormed) :
    (∀ fs, (directory fs).WellFormed → Agree settings ignore (directory es) (directory fs) →
      load settings (some (directory fs)) ignore seed =
        load settings (some (directory es)) ignore seed) ∧
    (∀ u, Rearranged (directory es) u →
      load settings (some u) ignore seed = load settings (some (directory es)) ignore seed) ∧
    ∀ p, PassedOver settings ignore p →
      (∀ c d, (directory es).at? p = some (file c) →
        load settings (some ((directory es).write p d)) ignore seed =
          load settings (some (directory es)) ignore seed) ∧
      (∀ c, (directory es).at? p = some (file c) →
        load settings (some ((directory es).remove p)) ignore seed =
          load settings (some (directory es)) ignore seed) ∧
      ∀ d, (∀ name ∈ p, IsName name) → (directory es).obstacle? p = none →
        load settings (some ((directory es).write p d)) ignore seed =
          load settings (some (directory es)) ignore seed := by
  -- a file is written in the same way whether one is there or only room for it
  have written (p : List String) (d : Definition.Contents) (passed : PassedOver settings ignore p)
      (valid : ∀ name ∈ p, IsName name) (room : (directory es).obstacle? p = none) :
      load settings (some ((directory es).write p d)) ignore seed =
        load settings (some (directory es)) ignore seed :=
    load_congr seed wf (wellFormed_write wf valid) (agree_write passed (ne_nil_of_room room) room)
  refine ⟨fun fs => load_congr seed wf, fun u h => ?_, fun p passed => ⟨?_, ?_, ?_⟩⟩
  · cases u with
    | file c => cases h.isDirectory
    | directory fs => exact load_congr seed wf (wf.rearranged h) (agree_rearranged wf h)
  · exact fun c d found => written p d passed (names_of_at? wf found) (room_of_at? found)
  · intro c found
    have agree := agree_remove wf passed found
    have wf' : ((directory es).remove p).WellFormed := wellFormed_remove wf
    obtain ⟨fs, eq⟩ := @remove_directory p es
    rw [eq] at agree wf' ⊢
    exact load_congr seed wf wf' agree
  · exact fun d => written p d passed

/-- The shelf read backwards, with its skipped file broken, without its hidden file, and with
a file in the cache. -/
theorem load_relevant_shelf :
    let ignore : Value := .list [.text "./part"]
    let broken : Definition.Contents := .text "def f("
    let loaded := load Settings.standard (some (directory shelf)) ignore []
    load Settings.standard (some (directory shelf.reverse)) ignore [] = loaded ∧
      load Settings.standard (some ((directory shelf).write ["part.py"] broken)) ignore [] =
        loaded ∧
      load Settings.standard (some ((directory shelf).remove [".part.py"])) ignore [] = loaded ∧
      load Settings.standard (some ((directory shelf).write ["__pycache__", "whole.py"] broken))
        ignore [] = loaded := by
  intro ignore broken loaded
  have ⟨_, rearranged, others⟩ := load_relevant Settings.standard ignore [] shelf_wellFormed
  have call : skippedBy Settings.standard ignore = .ok (["./part"].map skippedText) := rfl
  have part : PassedOver Settings.standard ignore ["part.py"] := .skipped call (by cbv)
  have hidden : PassedOver Settings.standard ignore ([] ++ [".part.py"]) := .hidden (by decide)
  have cached : PassedOver Settings.standard ignore (["__pycache__"] ++ ["whole.py"]) :=
    .below List.mem_cons_self (.inr rfl)
  exact ⟨rearranged _ (.order (List.reverse_perm shelf).symm), (others _ part).1 _ broken rfl,
    (others _ hidden).2.1 _ rfl, (others _ cached).2.2 broken (by decide) rfl⟩

end Docsig.Tree
