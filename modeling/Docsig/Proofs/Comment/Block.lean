import Docsig.Comment.Block
import Docsig.Proofs.Comment.Line
import Docsig.Proofs.Result
import Docsig.Proofs.Text.Line

/-!
What a comment block is made of.

The lines that continue a declaration are lines of the block without the white space around
them, so every character of theirs stands in the source (`readBlock_extra`).
-/

namespace Docsig.Comment

variable {ls : List Line} {ds : List Declaration} {t : String}

theorem lineText_subset (stripped : List Char) : lineText stripped ⊆ stripped := by
  refine List.Subset.trans (Text.trimEnd_subset _) ?_
  have drop : stripped.drop 1 ⊆ stripped := (List.drop_suffix 1 stripped).subset
  split
  · rename_i cs eq
    rw [eq] at drop
    exact List.Subset.trans (List.subset_cons_self _ _) drop
  · exact drop

theorem mem_continuation (h : t ∈ continuation ls) : ∃ l ∈ ls, t.toList = Text.trim l.text := by
  obtain ⟨cs, hcs, rfl⟩ := List.mem_map.mp h
  obtain ⟨l, hl, rfl⟩ := List.mem_map.mp (List.mem_filter.mp hcs).1
  exact ⟨l, hl, String.toList_ofList⟩

/-- What a declaration says below its heading stands on lines of the block. -/
theorem readDeclarations_extra (h : readDeclarations ls = .ok ds) {d : Declaration} (hd : d ∈ ds)
    (ht : t ∈ d.extra) : ∃ l ∈ ls, t.toList = Text.trim l.text := by
  induction ls generalizing ds with
  | nil =>
      cases h
      cases hd
  | cons l rest ih =>
      rw [readDeclarations] at h
      split at h
      · dsimp only at h
        split at h
        · cases h
        · obtain ⟨below, read, h⟩ := bind_eq_ok.mp h
          cases h
          -- the first declaration takes its lines up to the next; a later one stands further
          -- down
          rcases List.mem_cons.mp hd with rfl | hd
          · obtain ⟨l', hl', eq⟩ := mem_continuation ht
            have left := (List.takeWhile_prefix _).subset hl'
            exact ⟨l', List.mem_cons_of_mem _ left, eq⟩
          · obtain ⟨l', hl', eq⟩ := ih read hd
            exact ⟨l', List.mem_cons_of_mem _ hl', eq⟩
      · obtain ⟨l', hl', eq⟩ := ih h hd
        exact ⟨l', List.mem_cons_of_mem _ hl', eq⟩

/-- **What continues a declaration stands on one line of the source.** -/
theorem readBlock_extra {isLine : Nat → List Char → Bool} {source : List (List Char)} {n : Nat}
    {block : Block} (run : RunTo isLine source n ls) (h : readBlock ls = .ok block)
    {d : Declaration} (hd : d ∈ block.declarations) (ht : t ∈ d.extra) :
    ∃ raw ∈ source, t.toList ⊆ raw := by
  obtain ⟨ds, read, h⟩ := bind_eq_ok.mp h
  cases h
  obtain ⟨l, hl, eq⟩ := readDeclarations_extra read hd ht
  obtain ⟨raw, here, _, text⟩ := run.lines l hl
  refine ⟨raw, List.mem_of_getElem? here, ?_⟩
  rw [eq, text]
  exact List.Subset.trans (Text.trim_subset _)
    (List.Subset.trans (lineText_subset _) (Text.trim_subset raw))

end Docsig.Comment
