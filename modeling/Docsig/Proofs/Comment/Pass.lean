import Docsig.Proofs.Comment.Layout

/-!
Reading a comment block in one pass.

`Progress` is what has been read after some lines. A line that starts a declaration takes a blank
line directly above the first one out of the description again; so what has been read is not a
part of what will be, and the invariant is the layout of the lines so far.

* `Layout.progress_push`: one more line keeps up with the layout of the lines.
* `readBlock_eq_foldlM`: the pass over all lines reads the block.
-/

namespace Docsig.Comment

open Text (isBlankText)

/-! ### Progress -/

/-- What has been read of a block: the lines of the description and the declarations. -/
structure Progress where
  description : List (List Char)
  declarations : List Declaration

/-- A declaration that goes on with a line; a blank line adds nothing. -/
def Declaration.continued (d : Declaration) (l : Line) : Declaration :=
  if isBlankText l.text then d
  else { d with extra := d.extra ++ [String.ofList (Text.trim l.text)] }

/-- Reads one more line. The first declaration takes a blank line above it out of the
description. -/
def Progress.step (p : Progress) (l : Line) : Except BlockFault Progress :=
  if isDeclarationLine l then
    match l.heading with
    | .error fault => .error ⟨fault, l.number⟩
    | .ok heading => .ok
        ⟨if p.declarations.isEmpty then dropFinalBlank p.description else p.description,
          p.declarations ++ [⟨heading, l.number, []⟩]⟩
  else
    match p.declarations.getLast? with
    | none => .ok ⟨p.description ++ [l.text], []⟩
    | some last => .ok ⟨p.description, p.declarations.dropLast ++ [last.continued l]⟩

/-- What has been read when the lines so far are laid out in a way. -/
def Layout.progress (t : Layout) : Except BlockFault Progress :=
  (t.sections.mapM Section.read).map (⟨t.description, ·⟩)

/-! ### One more line -/

theorem continuation_concat (ls : List Line) (l : Line) : continuation (ls ++ [l]) =
    if isBlankText l.text then continuation ls
    else continuation ls ++ [String.ofList (Text.trim l.text)] := by
  simp only [continuation_eq, List.filter_append, List.map_append]
  split
  · rename_i blank
    simp [blank]
  · rename_i filled
    simp [filled]

/-- One more line of a section goes on with its declaration. -/
theorem Section.read_push (s : Section) (l : Line) (other : isDeclarationLine l = false) :
    (s.push l other).read = s.read.map (·.continued l) := by
  rw [read, read]
  cases own : s.head.heading with
  | error => simp [push, own, Except.map]
  | ok heading =>
      simp only [push, own, Except.map, continuation_concat, Declaration.continued]
      split <;> rfl

/-- The description of a layout with one more section. -/
theorem Layout.description_concat (above : List Line) (ss : List Section) (s : Section)
    (plain : ∀ l ∈ above, isDeclarationLine l = false) :
    (⟨above, ss ++ [s], plain⟩ : Layout).description =
      if ss.isEmpty then dropFinalBlank (⟨above, ss, plain⟩ : Layout).description
      else (⟨above, ss, plain⟩ : Layout).description := by
  cases ss <;> rfl

/-- **Reading one more line keeps up with the layout of the lines.** -/
theorem Layout.progress_push (t : Layout) (l : Line) :
    (t.push l).progress = t.progress >>= (·.step l) := by
  obtain ⟨above, sections, plain⟩ := t
  unfold push
  split
  · rename_i starts
    rw [progress, progress, mapM_concat, description_concat]
    cases read : sections.mapM Section.read with
    | error => rfl
    | ok ds =>
        -- The blank line is taken out once: later sections find the description settled.
        have first : ds.isEmpty = sections.isEmpty := by
          cases mapM_eq_ok.mp read <;> rfl
        rw [ok_bind, Section.read]
        simp only [Except.map, ok_bind, Progress.step, if_pos starts, first]
        cases l.heading <;> rfl
  dsimp only
  split
  · rename_i other none
    subst none
    simp only [progress, description, List.mapM_nil, if_true, List.map_append, pure_eq_ok,
      Except.map, ok_bind, Progress.step, if_neg other]
    rfl
  · rename_i other ne
    obtain ⟨ss, s, rfl⟩ := (List.eq_nil_or_concat' sections).resolve_left ne
    simp only [progress, List.dropLast_concat, List.getLast_append_singleton, mapM_concat,
      Section.read_push, description_concat]
    cases ss.mapM Section.read with
    | error => rfl
    | ok ds =>
        cases s.read with
        | error => rfl
        | ok d => simp [Except.map, Progress.step, other]

/-! ### All lines -/

/-- Reading lines after those of a layout. -/
theorem Layout.progress_foldl (t : Layout) (ls : List Line) :
    (ls.foldl Layout.push t).progress = t.progress >>= fun p => ls.foldlM Progress.step p := by
  induction ls generalizing t with
  | nil => exact (bind_pure t.progress).symm
  | cons l ls ih =>
      rw [List.foldl_cons, ih, t.progress_push, bind_assoc]
      rfl

/-- **A block is read in one pass over its lines.** -/
theorem readBlock_eq_foldlM (ls : List Line) :
    readBlock ls = (ls.foldlM Progress.step ⟨[], []⟩).map fun p =>
      ⟨joinLines p.description, p.declarations⟩ := by
  have pass : (Layout.ofLines ls).progress = ls.foldlM Progress.step ⟨[], []⟩ :=
    Layout.progress_foldl _ ls
  rw [← pass, Layout.progress]
  conv_lhs => rw [← Layout.ofLines_lines ls, readBlock_lines]
  cases (Layout.ofLines ls).sections.mapM Section.read <;> rfl

end Docsig.Comment
