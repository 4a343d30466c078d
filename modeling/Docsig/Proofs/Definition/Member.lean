import Docsig.Proofs.Comment.Layout
import Docsig.Proofs.Definition.Faults

/-!
Where a rejected member of an enumeration is reported.

Members are listed on the lines below the declaration of an enumeration, and the first of
them that is rejected ends the reading of a file (`readMembers_eq_error`). The line that is
reported is counted from the declaration, by the place of the member among the lines that
are not blank. So it is the line of the member only if no blank line stands between the two.

* `parse_member`: a fault about a member belongs to a line of the comment block, and its line
  is too small by the number of blank lines above.
* `parse_member_misplaced`: a source where that makes a difference.
-/

namespace Docsig

namespace Comment

variable {ls body above : List Line} {l : Line}

/-! ### Lines that continue a declaration -/

/-- A text that continues a declaration stands on one line, below those of the texts before. -/
theorem continuation_eq_append_cons {before after : List String} {t : String}
    (h : continuation body = before ++ t :: after) :
    ∃ above l below, body = above ++ l :: below ∧ continuation above = before ∧
      Text.isBlankText l.text = false ∧ t = String.ofList (Text.trim l.text) := by
  rw [continuation_eq, List.map_eq_append_iff] at h
  obtain ⟨kept, rest, parts, rfl, tail⟩ := h
  obtain ⟨l, later, rfl, rfl, -⟩ := List.map_eq_cons_iff.mp tail
  obtain ⟨above, right, rfl, rfl, keptRight⟩ := List.filter_eq_append_iff.mp parts
  -- what stands between the last line before and the line itself is blank
  obtain ⟨gap, below, rfl, blank, filled, -⟩ := List.filter_eq_cons_iff.mp keptRight
  refine ⟨above ++ gap, l, below, by simp, ?_, by simpa using filled, rfl⟩
  rw [continuation_eq, List.filter_append, List.filter_eq_nil_iff.mpr blank, List.append_nil]

/-- The lines that are no text of a declaration are the blank ones. -/
theorem continuation_length (ls : List Line) :
    (continuation ls).length + ls.countP (fun l => Text.isBlankText l.text) = ls.length := by
  rw [continuation_eq, List.length_map, ← List.countP_eq_length_filter, Nat.add_comm,
    List.length_eq_countP_add_countP fun l : Line => Text.isBlankText l.text]
  simp

/-- A section takes its lines from those that are laid out. -/
theorem exists_split_of_section {s : Section} (within : s ∈ (Layout.ofLines ls).sections) :
    ∃ before after, ls = before ++ s.head :: (s.body ++ after) := by
  obtain ⟨ss, ss', sections⟩ := List.append_of_mem within
  refine ⟨(Layout.ofLines ls).above ++ ss.flatMap Section.lines, ss'.flatMap Section.lines, ?_⟩
  conv_lhs => rw [← Layout.ofLines_lines ls]
  rw [Layout.lines, sections, List.flatMap_append, List.flatMap_cons, Section.lines]
  simp only [List.append_assoc, List.cons_append]

/-! ### Numbers of lines -/

namespace RunTo

variable {isLine : Nat → List Char → Bool} {source : List (List Char)} {n : Nat}

/-- Lines of a run are numbered one after the other. -/
theorem number_getElem? (run : RunTo isLine source n ls) {i : Nat} (h : ls[i]? = some l) :
    l.number = n + 1 - ls.length + i := by
  have mapped : (ls.map Line.number)[i]? = some l.number := by
    rw [List.getElem?_map, h]
    rfl
  rw [run.numbers, List.getElem?_range' (List.getElem?_eq_some_iff.mp h).1, Nat.one_mul] at mapped
  exact (Option.some.inj mapped).symm

/-- The lines of a section are numbered from its declaration. -/
theorem number_section (run : RunTo isLine source n ls) {s : Section}
    (within : s ∈ (Layout.ofLines ls).sections) {below : List Line}
    (listed : s.body = above ++ l :: below) :
    l ∈ ls ∧ l.number = s.head.number + 1 + above.length := by
  obtain ⟨before, after, split⟩ := exists_split_of_section within
  rw [listed] at split
  have head : ls[before.length]? = some s.head := by simp [split]
  have here : ls[before.length + (1 + above.length)]? = some l := by
    rw [split, List.getElem?_append_right (by omega), Nat.add_sub_cancel_left, Nat.add_comm 1]
    simp
  refine ⟨List.mem_of_getElem? here, ?_⟩
  rw [run.number_getElem? head, run.number_getElem? here]
  omega

end RunTo

end Comment

namespace Definition

open Comment (Line RunTo Section Layout continuation lineText)

/-! ### Members of one declaration -/

/-- Whether a cause is about a listed member. -/
def Cause.rejectsMember : Cause → Bool
  | invalidMember _ | memberShape _ | duplicateLabel _ => true
  | _ => false

theorem Cause.rejectsMember_of_structural {cause : Cause} (h : cause.isStructural = true) :
    cause.rejectsMember = false := by
  cases cause <;> first | rfl | cases h

namespace Draft

variable {labels texts : List String} {line : Nat} {e : LocalFault}

/-- Why a text lists no member after members with some labels. -/
inductive Rejects (labels : List String) (text : String) : Cause → Prop
  | literal {fault : Code.Literal.TextFault} : Code.Literal.ofText text.toList = .error fault →
      Rejects labels text (.invalidMember fault)
  | shape {v : Value} : Code.Literal.ofText text.toList = .ok v → memberOf? v = none →
      Rejects labels text (.memberShape text)
  | label {v value : Value} {label : String} : Code.Literal.ofText text.toList = .ok v →
      memberOf? v = some (label, value) → label ∈ labels →
        Rejects labels text (.duplicateLabel label)

/-- With more labels taken a member is still refused. -/
theorem Rejects.congr {labels' : List String} {text : String} {cause : Cause}
    (h : Rejects labels text cause) (same : labels ⊆ labels') : Rejects labels' text cause := by
  cases h with
  | literal refused => exact .literal refused
  | shape read none => exact .shape read none
  | label read member repeated => exact .label read member (same repeated)

/-- The first member is read with a new label, and the others apart from it. -/
theorem readMembers_cons_eq_ok {text : String} {ms : List (String × Value)} :
    readMembers labels line (text :: texts) = .ok ms ↔
      ∃ v label value ms', Code.Literal.ofText text.toList = .ok v ∧
        memberOf? v = some (label, value) ∧ label ∉ labels ∧
          readMembers (label :: labels) (line + 1) texts = .ok ms' ∧ ms = (label, value) :: ms' := by
  rw [readMembers]
  constructor
  · intro h
    split at h
    · cases h
    rename_i v read
    split at h
    · cases h
    rename_i label value member
    obtain ⟨new, h⟩ := guard_eq_ok.mp h
    obtain ⟨ms', below, h⟩ := bind_eq_ok.mp h
    cases h
    exact ⟨v, label, value, ms', read, member, by simpa using new, below, rfl⟩
  · rintro ⟨v, label, value, ms', read, member, new, below, rfl⟩
    simp only [read, member, below, ok_bind, pure_eq_ok]
    exact if_neg (by simpa using new)

/-- Where members are not read, there is a first one that is refused, on its line. -/
theorem exists_rejected (h : readMembers labels line texts = .error e) :
    ∃ before text after ms cause, texts = before ++ text :: after ∧
      readMembers labels line before = .ok ms ∧ Rejects (ms.map Prod.fst ++ labels) text cause ∧
      e = cause.at (line + before.length) := by
  -- by induction on the lines, with the labels read so far
  induction texts generalizing labels line with
  | nil => cases h
  | cons t texts ih =>
      rw [readMembers] at h
      split at h
      · rename_i refused
        cases h
        exact ⟨[], t, texts, [], _, rfl, rfl, .literal refused, rfl⟩
      rename_i v read
      split at h
      · rename_i none
        cases h
        exact ⟨[], t, texts, [], _, rfl, rfl, .shape read none, rfl⟩
      rename_i label value member
      split at h
      · rename_i repeated
        cases h
        exact ⟨[], t, texts, [], _, rfl, rfl, .label read member (by simpa using repeated), rfl⟩
      rename_i new
      rcases bind_eq_error.mp h with below | ⟨_, -, ⟨⟩⟩
      obtain ⟨before, text, after, ms, cause, rfl, readBefore, rejects, rfl⟩ := ih below
      refine ⟨t :: before, text, after, (label, value) :: ms, cause, rfl, ?_, ?_, ?_⟩
      · exact readMembers_cons_eq_ok.mpr
          ⟨v, label, value, ms, read, member, by simpa using new, readBefore, rfl⟩
      · exact rejects.congr (by simp)
      · rw [List.length_cons, Nat.add_right_comm, Nat.add_assoc]

/-- The first member that is refused settles the fault and its line. -/
theorem readMembers_rejected {before after : List String} {text : String}
    {ms : List (String × Value)} {cause : Cause} (read : readMembers labels line before = .ok ms)
    (rejects : Rejects (ms.map Prod.fst ++ labels) text cause) :
    readMembers labels line (before ++ text :: after) = .error (cause.at (line + before.length)) := by
  induction before generalizing labels line ms with
  | nil =>
      cases read
      rw [List.nil_append, readMembers]
      cases rejects with
      | literal refused => simp only [refused]; rfl
      | shape read none => simp only [read, none]; rfl
      | label read member repeated =>
          simp only [read, member]
          exact if_pos (by simpa using repeated)
  | cons t before ih =>
      obtain ⟨v, label, value, ms', own, member, new, below, rfl⟩ := readMembers_cons_eq_ok.mp read
      rw [List.cons_append, readMembers]
      simp only [own, member]
      rw [if_neg (by simpa using new), ih below (rejects.congr (by simp)), List.length_cons,
        Nat.add_right_comm, Nat.add_assoc]
      rfl

/-- **Members are refused for the first text that lists none**, on a line that is counted by
the texts before it. -/
theorem readMembers_eq_error : readMembers labels line texts = .error e ↔
    ∃ before text after ms cause, texts = before ++ text :: after ∧
      readMembers labels line before = .ok ms ∧ Rejects (ms.map Prod.fst ++ labels) text cause ∧
      e = cause.at (line + before.length) := by
  refine ⟨exists_rejected, ?_⟩
  rintro ⟨before, text, after, ms, cause, rfl, read, rejects, rfl⟩
  exact readMembers_rejected read rejects

end Draft

/-! ### Members of a block -/

/-- A line of a comment block that is the first to be rejected among those that list the
members of an enumeration; `above` are the lines between it and the declaration. -/
structure RejectedLine (ls : List Line) (s : Section) (above : List Line) (l : Line)
    (cause : Cause) : Prop where
  within : s ∈ (Layout.ofLines ls).sections
  enumerates : ∃ d, s.Declares d ∧ Draft.tagOf? d = some .enum
  listed : ∃ below, s.body = above ++ l :: below
  filled : Text.isBlankText l.text = false
  rejected : ∃ ms, Draft.readMembers [] (s.head.number + 1) (continuation above) = .ok ms ∧
    Draft.Rejects (ms.map Prod.fst) (String.ofList (Text.trim l.text)) cause

/-- A rejected line of the comment block of a source, below `above`. -/
def RejectedIn (cs : List Char) (above : List Line) (l : Line) (cause : Cause) : Prop :=
  ∃ ss f ls s, statements cs = .ok ss ∧ entryFunction ss = .ok f ∧
    RunTo Comment.isBlockLine (Text.lines cs) (firstLine f - 1) ls ∧ RejectedLine ls s above l cause

variable {cs : List Char} {charge : Int} {pathname : String} {contents : Contents} {fault : Fault}

/-- A fault about a member comes from the members of one declaration. -/
theorem exists_members_of_parse (failed : parse charge pathname contents = .error fault)
    (member : fault.cause.rejectsMember = true) :
    ∃ cs ss f block, contents.decode = .ok cs ∧ statements cs = .ok ss ∧
      entryFunction ss = .ok f ∧ commentBlock cs f = .ok block ∧ ∃ d ∈ block.declarations,
        Draft.tagOf? d = some .enum ∧ ∃ e, Draft.readMembers [] (d.line + 1) d.extra = .error e ∧
          fault = e.inFile pathname := by
  obtain ⟨e, refused, rfl⟩ := mapError_eq_error.mp failed
  -- what is to be shown holds of every structural fault, as none is about a member
  suffices FailsOnly (fun e : LocalFault => e.cause.rejectsMember = true →
      ∃ cs ss f block, contents.decode = .ok cs ∧ statements cs = .ok ss ∧
        entryFunction ss = .ok f ∧ commentBlock cs f = .ok block ∧ ∃ d ∈ block.declarations,
          Draft.tagOf? d = some .enum ∧ Draft.readMembers [] (d.line + 1) d.extra = .error e)
      (readParts pathname contents >>= fun parts => parts.params >>= fun params =>
        pure (parts.definition pathname charge params)) by
    obtain ⟨cs, ss, f, block, decoded, hss, hf, hb, d, hd, enum, members⟩ := this e refused member
    exact ⟨cs, ss, f, block, decoded, hss, hf, hb, d, hd, enum, e, members, rfl⟩
  have own (e : LocalFault) (structural : e.cause.isStructural = true) :
      ¬ e.cause.rejectsMember = true :=
    Bool.eq_false_iff.mp (Cause.rejectsMember_of_structural structural)
  refine .bind (readParts_failsOnly (fun e h member => (own e h member).elim) pathname
    (fun _ _ _ refused => by cases refused) ?_) fun parts _ => .bind ?_ fun _ _ => .ok _
  · intro cs ss f block decoded hss hf hb d hd s source
    refine Draft.ofSource_failsOnly (fun e h member => (own e h member).elim) ?_
    rintro enum e refused -
    obtain ⟨-, line, extra⟩ := Draft.typeOf?_eq source
    rw [line, extra] at refused
    refine ⟨cs, ss, f, block, decoded, hss, hf, hb, d, hd, ?_, refused⟩
    rw [Draft.tagOf?, source, Option.bind_some, Draft.Source.tag?, enum]
    rfl
  · refine Parts.params_failsOnly (fun e h member => (own e h member).elim) ?_
    intro formal _ e _ fault refused
    unfold defaultValue at refused
    split at refused
    · cases refused
    · cases refused
      intro member
      cases member

/-- **A fault about a member belongs to a line of the comment block.** That line lists a
member of an enumeration and is rejected, and all those above it in the enumeration are not.
The line that is reported is too small by the number of blank lines between the declaration
and the member, so it is the line of the member exactly if there is none. -/
theorem parse_member (failed : parse charge pathname contents = .error fault)
    (member : fault.cause.rejectsMember = true) :
    ∃ cs above l, contents.decode = .ok cs ∧ RejectedIn cs above l fault.cause ∧
      (∃ raw, (Text.lines cs)[l.number - 1]? = some raw ∧ l.text = lineText (Text.trim raw)) ∧
      (∃ line, fault.line? = some line ∧
        line + above.countP (fun b => Text.isBlankText b.text) = l.number) ∧
      (fault.line? = some l.number ↔ ∀ b ∈ above, Text.isBlankText b.text = false) := by
  obtain ⟨cs, ss, f, block, decoded, hss, hf, hb, d, hd, enum, e, refused, rfl⟩ :=
    exists_members_of_parse failed member
  obtain ⟨ls, -, eq, run⟩ := commentBlock_found hss hf
  rw [eq, readLines, mapError_eq_ok, ← Layout.ofLines_lines ls,
    Comment.readBlock_lines_eq_ok] at hb
  obtain ⟨s, within, declares⟩ := exists_of_mem_right hb.declarations hd
  rw [declares.number, declares.extra, ← Comment.continuation_eq] at refused
  obtain ⟨before, text, after, ms, cause, texts, read, rejects, rfl⟩ :=
    Draft.readMembers_eq_error.mp refused
  obtain ⟨above, l, below, body, rfl, filled, rfl⟩ := Comment.continuation_eq_append_cons texts
  rw [List.append_nil] at rejects
  obtain ⟨mem, number⟩ := run.number_section within body
  have length := Comment.continuation_length above
  -- blank lines between the members are what the count misses
  have blanks : (∀ b ∈ above, Text.isBlankText b.text = false) ↔
      above.countP (fun b => Text.isBlankText b.text) = 0 := by
    simp
  refine ⟨cs, above, l, decoded, ⟨ss, f, ls, s, hss, hf, run, within, ⟨d, declares, enum⟩,
    ⟨below, body⟩, filled, ms, read, rejects⟩, ?_, ⟨_, rfl, ?_⟩, ?_⟩
  · obtain ⟨raw, here, -, eq⟩ := run.lines l mem
    exact ⟨raw, here, eq⟩
  · omega
  · rw [blanks, LocalFault.inFile, Cause.at, Option.some_inj]
    omega

/-! ### Two sources -/

/-- Whether a file is refused for a member. -/
def refusesMember : Except Fault Definition → Bool
  | .ok _ => false
  | .error fault => fault.cause.rejectsMember

theorem exists_fault_of_refusesMember {result : Except Fault Definition}
    (h : refusesMember result = true) :
    ∃ fault, result = .error fault ∧ fault.cause.rejectsMember = true := by
  cases result with
  | ok => cases h
  | error fault => exact ⟨fault, rfl, h⟩

/-- A source with two members of one label. -/
def twiceListed : String :=
  "# @param \x7benum\x7d a\n#   [\"x\", 1]\n#\n#   \"x\"\ndef f(a): pass\n"

theorem parse_member_twiceListed : ∃ fault above l,
    parse 1 "f.py" (.text twiceListed) = .error fault ∧
      RejectedIn twiceListed.toList above l fault.cause ∧ ∃ line, fault.line? = some line ∧
        line + above.countP (fun b => Text.isBlankText b.text) = l.number := by
  have refused : refusesMember (parse 1 "f.py" (.text twiceListed)) = true := by decide +kernel
  obtain ⟨fault, failed, member⟩ := exists_fault_of_refusesMember refused
  obtain ⟨cs, above, l, decoded, rejected, -, line, -⟩ := parse_member failed member
  cases decoded
  exact ⟨fault, above, l, failed, rejected, line⟩

/-- A source with a blank line above the only member, which is no pair. -/
def spacedMember : String := "# @param \x7benum\x7d a\n#\n#   [1]\ndef f(a): pass\n"

/-- **The line that is reported can be a blank one**, where no member stands. -/
theorem parse_member_misplaced : ∃ fault, parse 1 "f.py" (.text spacedMember) = .error fault ∧
    fault.cause.rejectsMember = true ∧
      ¬ ∃ above l, RejectedIn spacedMember.toList above l fault.cause ∧
        fault.line? = some l.number := by
  have refused : refusesMember (parse 1 "f.py" (.text spacedMember)) = true := by decide +kernel
  have reported : FailsOnly (fun fault => fault.line? = some 2)
      (parse 1 "f.py" (.text spacedMember)) := by
    decide +kernel
  have blank : ((Text.lines spacedMember.toList)[1]?.map fun raw =>
      Text.isBlankText (lineText (Text.trim raw))) = some true := by
    decide +kernel
  obtain ⟨fault, failed, member⟩ := exists_fault_of_refusesMember refused
  refine ⟨fault, failed, member, ?_⟩
  -- the line that is reported is blank, so that no member stands on it
  rintro ⟨above, l, ⟨ss, f, ls, s, -, -, run, rejected⟩, line⟩
  have number : l.number = 2 := Option.some.inj (line.symm.trans (reported fault failed))
  obtain ⟨below, body⟩ := rejected.listed
  obtain ⟨raw, here, -, text⟩ := run.lines l (run.number_section rejected.within body).1
  rw [number] at here
  rw [here, Option.map_some, ← text, rejected.filled] at blank
  cases blank

end Definition

end Docsig
