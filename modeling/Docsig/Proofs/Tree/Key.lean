import Docsig.Proofs.Tree.Load

/-!
The keys of a load.

A key is a text of proper names with slashes between them, and the empty text for the
root. Names that are not hidden start with no point, and so do their stems: what a load
adds to a mapping has keys (`load_keys`), whatever its files are called.
-/

namespace Docsig

namespace Path

variable {name : String} {names : List String}

/-- A visible name is proper. -/
theorem isProper_of_visible (nonempty : name ≠ "") (noSlash : '/' ∉ name.toList)
    (visible : Tree.isHidden name = false) : IsProper name where
  ne_empty := nonempty
  ne_point := by
    rintro rfl
    exact absurd visible (by decide)
  no_slash := noSlash
  ne_above := by
    rintro rfl
    exact absurd visible (by decide)

theorem stemLength_pos {cs : List Char} (h : cs ≠ []) : 0 < stemLength cs := by
  have := List.length_pos_iff.mpr h
  rw [stemLength]
  grind

/-- The stem of a visible name is a visible name. -/
theorem stemOf_isProper (h : IsName name) (visible : Tree.isHidden name = false) :
    IsProper (stemOf name) := by
  have nonempty : name.toList ≠ [] := fun nil => h.ne_empty (String.toList_inj.mp nil)
  obtain ⟨c, cs, chars⟩ := List.exists_cons_of_ne_nil nonempty
  obtain ⟨n, length⟩ := Nat.exists_eq_succ_of_ne_zero (stemLength_pos nonempty).ne'
  have stem : (stemOf name).toList = c :: cs.take n := by
    rw [stemOf, String.toList_ofList, length, chars, List.take_succ_cons]
  refine isProper_of_visible ?_ ?_ ?_
  · intro empty
    rw [empty] at stem
    cases stem
  · intro slash
    rw [stem, ← List.take_succ_cons, ← chars] at slash
    exact h.no_slash (List.mem_of_mem_take slash)
  · rw [Tree.isHidden, stem]
    rw [Tree.isHidden, chars] at visible
    exact visible

theorem text_names (ne : names ≠ []) : text ⟨0, names⟩ = "/".intercalate names := by
  rw [text, if_neg (by simpa using ne)]
  exact String.empty_append

end Path

namespace Tree

open Docsig.Path (IsName IsProper)

/-! ### Keys -/

/-- Proper names with slashes between them. -/
def IsKey (k : String) : Prop :=
  ∃ names : List String, (∀ name ∈ names, IsProper name) ∧ k = "/".intercalate names

variable {extensions names : List String} {s : Source} {k : String} {indexName : Value}

theorem Eligible.visible (h : Eligible extensions names) :
    ∀ name ∈ names, isHidden name = false := by
  induction h with
  | file source =>
      rw [isSource, Bool.and_eq_true_iff] at source
      simpa using source.1
  | within walked _ ih =>
      rw [isWalked, Bool.and_eq_true_iff] at walked
      exact List.forall_mem_cons.mpr ⟨by simpa using walked.1, ih⟩

/-- The path of a source is its names with slashes between. -/
theorem Found.path_eq {root : Tree} (h : Found extensions "" root names s) :
    s.path = "/".intercalate names := by
  simpa using h.path

/-- The names on the way to a source are proper. -/
theorem Found.proper {root : Tree} (wf : root.WellFormed)
    (h : Found extensions "" root names s) : ∀ name ∈ names, IsProper name := by
  intro name hname
  have valid := names_of_at? wf h.contents name hname
  exact Path.isProper_of_visible valid.ne_empty valid.no_slash (h.eligible.visible name hname)

def lastName (names : List String) : String := names.getLast?.getD ""

/-- The names of the key of a file: those of its directory, if the file stands for that,
and otherwise its own without the suffix. -/
def keyNames (indexName : Value) (names : List String) : List String :=
  if isText (Path.stemOf (lastName names)) indexName then names.dropLast
  else names.dropLast ++ [Path.stemOf (lastName names)]

theorem lastName_concat (above : List String) (name : String) :
    lastName (above ++ [name]) = name := by
  simp [lastName]

/-- The names of a key are proper. -/
theorem Found.keyNames_proper {root : Tree} (wf : root.WellFormed)
    (h : Found extensions "" root names s) :
    ∀ name ∈ keyNames indexName names, IsProper name := by
  have proper := h.proper wf
  have visible := h.eligible.visible
  obtain rfl | ⟨above, name, rfl⟩ := List.eq_nil_or_concat' names
  · exact absurd rfl h.eligible.ne_nil
  · rw [List.forall_mem_append, List.forall_mem_singleton] at proper visible
    rw [keyNames, List.dropLast_concat, lastName_concat]
    split
    · exact proper.1
    · exact List.forall_mem_append.mpr ⟨proper.1,
        List.forall_mem_singleton.mpr (Path.stemOf_isProper proper.2.toIsName visible.2)⟩

/-- **The key of a source.** -/
theorem Found.key_eq {root : Tree} (wf : root.WellFormed)
    (h : Found extensions "" root names s) :
    key indexName s.path = .ok ("/".intercalate (keyNames indexName names)) := by
  have proper := h.proper wf
  have ne := h.eligible.ne_nil
  rw [key, h.path_eq, Path.ofText_names ne fun name hname => (proper name hname).toIsName, keyNames]
  change (if isText (Path.stemOf (lastName names)) indexName then _ else _) = _
  split
  · -- The file stands for its directory.
    rw [directoryKey, Path.parent]
    obtain top | top := eq_or_ne names.dropLast []
    · rw [top]
      rfl
    · have notPoint : Path.text ⟨0, names.dropLast⟩ ≠ "." := by
        intro point
        have read := Path.ofText_names top fun name hname =>
          (proper name (List.dropLast_subset names hname)).toIsName
        rw [← Path.text_names top, point] at read
        exact top (congrArg Path.segments read).symm
      rw [if_neg (by simpa using notPoint), Path.text_names top]
  · -- The file has a name of its own.
    rw [Path.withoutSuffix?, if_neg (by simpa using ne)]
    exact congrArg _ (Path.text_names (by simp))

/-- The key of a source is made of proper names. -/
theorem Found.isKey {root : Tree} (wf : root.WellFormed) (h : Found extensions "" root names s)
    (hk : key indexName s.path = .ok k) : IsKey k := by
  rw [h.key_eq wf] at hk
  exact ⟨_, h.keyNames_proper wf, (Except.ok.inj hk).symm⟩

end Tree

/-! ### Mappings -/

theorem Definitions.Overlaid.distinct {seed loaded ds : Definitions} (h : Overlaid seed loaded ds)
    (hs : (seed.map Prod.fst).Nodup) (hl : (loaded.map Prod.fst).Nodup) :
    (ds.map Prod.fst).Nodup := by
  rw [h.keys]
  refine List.Nodup.append hs (hl.filter _) fun k old new => ?_
  rw [List.mem_filter, decide_eq_true_eq] at new
  exact new.2 old

/-- **The keys of a load.** Each of them is there once, and those that were not there before
are proper names with slashes between them. -/
theorem Tree.load_keys {settings : Settings} {root : Tree} {ignore : Value}
    {seed ds : Definitions} (wf : root.WellFormed) (distinct : (seed.map Prod.fst).Nodup)
    (h : load settings (some root) ignore seed = .ok ds) :
    (ds.map Prod.fst).Nodup ∧ ∀ k ∈ ds.map Prod.fst, k ∉ seed.map Prod.fst → IsKey k := by
  obtain ⟨loaded, alone, h⟩ := bind_eq_ok.mp h
  cases h
  obtain ⟨t, isRoot, alone⟩ := bind_eq_ok.mp alone
  obtain ⟨skipped, -, alone⟩ := bind_eq_ok.mp alone
  obtain rfl : root = t := by
    cases root with
    | file c => cases isRoot
    | directory es => cases isRoot; rfl
  have ⟨paired, differ⟩ := (sources_outcome wf settings skipped).loaded loaded alone
  have nodup := keys_nodup paired (differ .nil)
  -- a key that the seed has not got was loaded, and so is that of a source
  have overlaid : Definitions.Overlaid seed loaded (seed.overlay loaded) :=
    Definitions.overlay_overlaid nodup
  refine ⟨overlaid.distinct distinct nodup, fun k hk new => ?_⟩
  rw [overlaid.keys, List.mem_append, List.mem_filter] at hk
  obtain ⟨e, he, rfl⟩ := List.mem_map.mp (hk.resolve_left new).1
  obtain ⟨s, hs, loads⟩ := exists_of_mem_right paired he
  obtain ⟨names, found⟩ := (mem_sourcesBelow wf).mp (mem_kept.mp hs).1
  exact found.isKey wf loads.key

end Docsig
