import Docsig.Proofs.Comment.Declaration
import Docsig.Proofs.Text.Blank

/-!
How the lines of a comment block are laid out.

A `Layout` cuts a list of lines into the lines above the first declaration and one section for
each declaration: the line that starts it and the lines that continue it. Every list of lines
has one layout, and `readBlock_layout` says in its terms what a block is, so that no line is
lost and nothing is read that is not written.

* `readBlock_lines`: reading a layout reads its sections, one after the other.
* `readBlock_lines_eq_ok`: the block that is read is the one that is laid out.
-/

namespace Docsig.Comment

open Text (isBlankText)

variable {l : Line} {ls body : List Line} {d : Declaration}

/-! ### Layouts -/

/-- A line that starts a declaration, and the lines that continue it. -/
@[ext]
structure Section where
  head : Line
  body : List Line
  starts : isDeclarationLine head = true
  plain : ∀ l ∈ body, isDeclarationLine l = false

def Section.lines (s : Section) : List Line := s.head :: s.body

/-- The lines above the first declaration, and the sections of the declarations. -/
@[ext]
structure Layout where
  above : List Line
  sections : List Section
  plain : ∀ l ∈ above, isDeclarationLine l = false

def Layout.lines (t : Layout) : List Line := t.above ++ t.sections.flatMap Section.lines

/-- Lines that declare nothing end where the first section starts. -/
theorem span_sections (plain : ∀ l ∈ body, isDeclarationLine l = false) (ss : List Section) :
    (body ++ ss.flatMap Section.lines).takeWhile (fun l => !isDeclarationLine l) = body ∧
      (body ++ ss.flatMap Section.lines).dropWhile (fun l => !isDeclarationLine l) =
        ss.flatMap Section.lines := by
  refine span_iff.mpr ⟨rfl, by simpa using plain, ?_⟩
  cases ss with
  | nil => nofun
  | cons s ss =>
      rintro _ ⟨⟩
      rw [s.starts]
      rfl

/-- Lines are cut at their first at sign in one way. -/
theorem cut_unique {body' : List Line} {ss ss' : List Section}
    (plain : ∀ l ∈ body, isDeclarationLine l = false)
    (plain' : ∀ l ∈ body', isDeclarationLine l = false)
    (eq : body ++ ss.flatMap Section.lines = body' ++ ss'.flatMap Section.lines) :
    body = body' ∧ ss.flatMap Section.lines = ss'.flatMap Section.lines := by
  obtain ⟨own, below⟩ := span_sections plain ss
  obtain ⟨own', below'⟩ := span_sections plain' ss'
  rw [eq] at own below
  exact ⟨own.symm.trans own', below.symm.trans below'⟩

theorem sections_unique {ss ss' : List Section}
    (eq : ss.flatMap Section.lines = ss'.flatMap Section.lines) : ss = ss' := by
  induction ss generalizing ss' with
  | nil =>
      cases ss' with
      | nil => rfl
      | cons => cases eq
  | cons s ss ih =>
      cases ss' with
      | nil => cases eq
      | cons s' ss' =>
          obtain ⟨head, rest⟩ := List.cons_eq_cons.mp eq
          obtain ⟨body, below⟩ := cut_unique s.plain s'.plain rest
          rw [Section.ext head body, ih below]

/-- **A list of lines has at most one layout.** -/
theorem Layout.lines_injective {t t' : Layout} (eq : t.lines = t'.lines) : t = t' := by
  obtain ⟨above, below⟩ := cut_unique t.plain t'.plain eq
  exact Layout.ext above (sections_unique below)

/-! ### One more line -/

/-- A section that goes on with a line. -/
def Section.push (s : Section) (l : Line) (other : isDeclarationLine l = false) : Section :=
  ⟨s.head, s.body ++ [l], s.starts, List.forall_mem_append.mpr ⟨s.plain, by simpa using other⟩⟩

/-- A layout that goes on with a line: the line starts a section, continues the last one or, if
there is none, stands above. -/
def Layout.push (t : Layout) (l : Line) : Layout :=
  if starts : isDeclarationLine l = true then
    ⟨t.above, t.sections ++ [⟨l, [], starts, nofun⟩], t.plain⟩
  else
    have other : isDeclarationLine l = false := Bool.eq_false_iff.mpr starts
    if ne : t.sections = [] then
      ⟨t.above ++ [l], [], List.forall_mem_append.mpr ⟨t.plain, by simpa using other⟩⟩
    else ⟨t.above, t.sections.dropLast ++ [(t.sections.getLast ne).push l other], t.plain⟩

/-- One more line of the layout is one more line below. -/
theorem Layout.push_lines (t : Layout) (l : Line) : (t.push l).lines = t.lines ++ [l] := by
  obtain ⟨above, sections, plain⟩ := t
  unfold push
  split
  · simp [lines, Section.lines]
  dsimp only
  split
  · rename_i none
    subst none
    simp [lines]
  · rename_i ne
    obtain ⟨ss, s, rfl⟩ := (List.eq_nil_or_concat' sections).resolve_left ne
    simp [lines, Section.lines, Section.push]

theorem Layout.foldl_push_lines (t : Layout) (ls : List Line) :
    (ls.foldl Layout.push t).lines = t.lines ++ ls := by
  induction ls generalizing t with
  | nil => exact (List.append_nil _).symm
  | cons l ls ih => rw [List.foldl_cons, ih, t.push_lines, List.append_assoc, List.singleton_append]

def Layout.ofLines (ls : List Line) : Layout := ls.foldl Layout.push ⟨[], [], nofun⟩

@[simp] theorem Layout.ofLines_lines (ls : List Line) : (Layout.ofLines ls).lines = ls :=
  Layout.foldl_push_lines _ ls

/-! ### What is read from a layout -/

/-- The heading that a line is read as. -/
def Line.heading (l : Line) : Except Fault Heading :=
  readHeading (String.ofList (Text.trim l.text)) ((Text.trim l.text).drop 1)

def Section.read (s : Section) : Except BlockFault Declaration :=
  match s.head.heading with
  | .error fault => .error ⟨fault, s.head.number⟩
  | .ok heading => .ok ⟨heading, s.head.number, continuation s.body⟩

/-- The lines of the description: those above, without a blank one directly above a section. -/
def Layout.description (t : Layout) : List (List Char) :=
  if t.sections = [] then t.above.map Line.text else dropFinalBlank (t.above.map Line.text)

theorem readDeclarations_above (plain : ∀ l ∈ body, isDeclarationLine l = false) :
    readDeclarations (body ++ ls) = readDeclarations ls := by
  induction body with
  | nil => rfl
  | cons l body ih =>
      obtain ⟨other, plain⟩ := List.forall_mem_cons.mp plain
      rw [List.cons_append, readDeclarations, if_neg (by simp [other]), ih plain]

/-- Each section is read by itself. -/
theorem readDeclarations_sections (ss : List Section) :
    readDeclarations (ss.flatMap Section.lines) = ss.mapM Section.read := by
  induction ss with
  | nil => rfl
  | cons s ss ih =>
      have own := (span_sections s.plain ss).1
      rw [List.flatMap_cons, Section.lines, List.cons_append, readDeclarations, if_pos s.starts,
        own, readDeclarations_above s.plain, ih, List.mapM_cons, Section.read]
      change (match s.head.heading with | .error fault => _ | .ok heading => _) = _
      cases s.head.heading <;> rfl

/-- The lines of a layout that start a declaration are the first lines of its sections. -/
theorem filter_lines (t : Layout) :
    t.lines.filter isDeclarationLine = t.sections.map Section.head := by
  have none {body : List Line} (plain : ∀ l ∈ body, isDeclarationLine l = false) :
      body.filter isDeclarationLine = [] :=
    List.filter_eq_nil_iff.mpr fun l here => by rw [plain l here]; exact Bool.false_ne_true
  have own (s : Section) : s.lines.filter isDeclarationLine = [s.head] := by
    rw [Section.lines, List.filter_cons_of_pos s.starts, none s.plain]
  rw [Layout.lines, List.filter_append, none t.plain, List.nil_append, List.filter_flatMap,
    List.map_eq_flatMap]
  simp only [own]

theorem description_lines (t : Layout) : description t.lines = joinLines t.description := by
  have own : t.lines.takeWhile (fun l => !isDeclarationLine l) = t.above :=
    (span_sections t.plain t.sections).1
  have any : t.lines.any isDeclarationLine = true ↔ ¬ t.sections = [] := by
    rw [← List.map_eq_nil_iff, ← filter_lines, List.filter_eq_nil_iff, List.any_eq_true]
    simp only [not_forall, not_not, exists_prop]
  rw [description, Layout.description, own]
  by_cases none : t.sections = []
  · rw [if_neg fun h => any.mp h none, if_pos none]
  · rw [if_pos (any.mpr none), if_neg none]

/-- **Reading a layout reads its sections, one after the other.** -/
theorem readBlock_lines (t : Layout) :
    readBlock t.lines = (t.sections.mapM Section.read).map (⟨joinLines t.description, ·⟩) := by
  rw [readBlock, description_lines, Layout.lines, readDeclarations_above t.plain,
    readDeclarations_sections]
  rfl

/-! ### Blocks -/

/-- What a section declares: the heading of its first line, with the number of that line, and
the lines below it, without blank ones and without the white space around them. -/
structure Section.Declares (s : Section) (d : Declaration) : Prop extends DeclaredOn s.head d where
  extra : d.extra = (s.body.filter fun l => !isBlankText l.text).map fun l =>
    String.ofList (Text.trim l.text)

/-- The lines that the description is made of: all that stand above, but not a blank line
directly above a section. -/
inductive Layout.Describes (t : Layout) : List Line → Prop
  | whole : (t.sections ≠ [] → ∀ l ∈ t.above.getLast?, isBlankText l.text = false) →
      Describes t t.above
  | separated {lines : List Line} {l : Line} : t.sections ≠ [] → t.above = lines ++ [l] →
      isBlankText l.text = true → Describes t lines

/-- A block that is laid out in a way. -/
structure Layout.Holds (t : Layout) (block : Block) : Prop where
  description : ∃ lines, t.Describes lines ∧ block.description = joinLines (lines.map Line.text)
  declarations : List.Forall₂ Section.Declares t.sections block.declarations

theorem continuation_eq (ls : List Line) : continuation ls =
    (ls.filter fun l => !isBlankText l.text).map fun l => String.ofList (Text.trim l.text) := by
  have same : ((fun cs : List Char => decide (cs ≠ [])) ∘ fun l : Line => Text.trim l.text) =
      fun l => !isBlankText l.text := by
    funext l
    rw [Function.comp_apply, decide_not, ← Bool.decide_coe (isBlankText l.text)]
    simp only [Text.trim_eq_nil_iff]
  rw [continuation, List.filter_map, same, List.map_map]
  rfl

/-- A section is read as the declaration that it is the heading and the body of. -/
theorem Section.read_eq_ok {s : Section} : s.read = .ok d ↔ s.Declares d := by
  rw [Section.read]
  constructor
  · intro read
    split at read
    · cases read
    · rename_i heading own
      cases read
      exact ⟨⟨rfl, own⟩, continuation_eq _⟩
  · rintro ⟨⟨number, own⟩, extra⟩
    obtain ⟨heading, line, more⟩ := d
    cases number
    cases extra
    rw [show s.head.heading = .ok heading from own, ← continuation_eq]

theorem dropFinalBlank_concat (texts : List (List Char)) (text : List Char) :
    dropFinalBlank (texts ++ [text]) = if isBlankText text then texts else texts ++ [text] := by
  simp [dropFinalBlank]

/-- The lines that describe are all above the first declaration, without a blank one right above
it. -/
theorem Layout.describes_iff {t : Layout} {texts : List (List Char)} :
    (∃ lines, t.Describes lines ∧ texts = lines.map Line.text) ↔ texts = t.description := by
  constructor
  · rintro ⟨lines, described, rfl⟩
    cases described with
    | whole kept =>
        rw [Layout.description]
        split
        · rfl
        · rename_i some
          -- only the last line above matters, if there is one
          obtain none | ⟨lines, l, last⟩ := List.eq_nil_or_concat' t.above
          · rw [none]
            rfl
          · have filled := kept some l (by rw [last, List.getLast?_concat]; rfl)
            rw [last, List.map_append, List.map_singleton, dropFinalBlank_concat, filled]
            rfl
    | separated some last blank =>
        rw [Layout.description, if_neg some, last, List.map_append, List.map_singleton,
          dropFinalBlank_concat, if_pos blank]
  · rintro rfl
    rw [Layout.description]
    split
    · rename_i none
      exact ⟨t.above, .whole fun some => (some none).elim, rfl⟩
    · rename_i some
      obtain none | ⟨lines, l, last⟩ := List.eq_nil_or_concat' t.above
      · exact ⟨t.above, .whole fun _ => by simp [none], by rw [none]; rfl⟩
      rw [last, List.map_append, List.map_singleton, dropFinalBlank_concat]
      split
      · rename_i blank
        exact ⟨lines, .separated some last blank, rfl⟩
      · rename_i filled
        refine ⟨t.above, .whole fun _ => ?_, by rw [last, List.map_append, List.map_singleton]⟩
        rw [last, List.getLast?_concat]
        rintro _ ⟨⟩
        exact Bool.eq_false_iff.mpr filled

/-- A layout can be read exactly if every line that starts with an at sign is a heading. -/
theorem exists_readBlock_lines (t : Layout) : (∃ block, readBlock t.lines = .ok block) ↔
    ∀ l ∈ t.lines, isDeclarationLine l = true → ∃ h, l.heading = .ok h := by
  have heads : (∀ l ∈ t.lines, isDeclarationLine l = true → ∃ h, l.heading = .ok h) ↔
      ∀ s ∈ t.sections, ∃ h, s.head.heading = .ok h := by
    rw [← List.forall_mem_map (f := Section.head) (P := fun l => ∃ h, l.heading = .ok h),
      ← filter_lines]
    simp only [List.mem_filter, and_imp]
  rw [readBlock_lines, exists_map_iff, exists_mapM_iff, heads]
  refine forall₂_congr fun s _ => ?_
  rw [Section.read]
  cases s.head.heading <;> simp

/-- **What is read from a layout is the block that it lays out.** -/
theorem readBlock_lines_eq_ok {t : Layout} {block : Block} :
    readBlock t.lines = .ok block ↔ t.Holds block := by
  have declared (ds : List Declaration) : t.sections.mapM Section.read = .ok ds ↔
      List.Forall₂ Section.Declares t.sections ds := by
    simp only [mapM_eq_ok, Section.read_eq_ok]
  rw [readBlock_lines, map_eq_ok]
  constructor
  · rintro ⟨ds, read, rfl⟩
    obtain ⟨lines, described, eq⟩ := Layout.describes_iff.mpr (rfl : t.description = t.description)
    exact ⟨⟨lines, described, congrArg joinLines eq⟩, (declared ds).mp read⟩
  · rintro ⟨⟨lines, described, eq⟩, held⟩
    have same := Layout.describes_iff.mp ⟨lines, described, rfl⟩
    obtain ⟨text, ds⟩ := block
    exact ⟨ds, (declared ds).mpr held, by rw [← same, ← eq]⟩

/-- **What a comment block is**: every list of lines has one layout; it can be read exactly if
every line that starts with an at sign is a heading, and the block holds what is laid out. -/
theorem readBlock_layout (ls : List Line) : ∃! t : Layout, t.lines = ls ∧
    ((∃ block, readBlock ls = .ok block) ↔
      ∀ l ∈ ls, isDeclarationLine l = true → ∃ h, l.heading = .ok h) ∧
    ∀ block, readBlock ls = .ok block ↔ t.Holds block := by
  obtain ⟨t, rfl⟩ : ∃ t : Layout, t.lines = ls := ⟨_, Layout.ofLines_lines ls⟩
  exact ⟨t, ⟨rfl, exists_readBlock_lines t, fun _ => readBlock_lines_eq_ok⟩,
    fun t' same => Layout.lines_injective same.1⟩

example :
    readBlock [⟨" a".toList, 1⟩, ⟨[], 2⟩, ⟨"@charge 3".toList, 3⟩, ⟨" b".toList, 4⟩, ⟨[], 5⟩] =
      .ok ⟨" a", [⟨.charge "3", 3, ["b"]⟩]⟩ := by rfl

end Docsig.Comment
