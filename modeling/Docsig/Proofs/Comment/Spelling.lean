import Docsig.Proofs.Comment.Declaration
import Docsig.Proofs.Text.Blank

/-!
How declarations are spelled.

`Spells h cs` is the written form of a heading, part by part: a keyword, a type in braces, a
name and a description, with gaps of white space between them wherever the form has room for
them. A line is read as a heading exactly if it is a spelling of it, with any white space
around (`readDeclarations_spelled`); so nothing that is written in one part is read as another.

* `takeType?_eq_some`, `takeText?_eq_some`, `takeNamed?_eq_some`: each part that is read from
  the start of a text is spelled there.
* `readHeading_eq_ok`: the same of a whole heading.
-/

namespace Docsig.Comment

open Text (isBlank isBlankText Bare)

/-! ### Spellings -/

def IsGap (cs : List Char) : Prop := cs ≠ [] ∧ ∀ c ∈ cs, isBlank c = true

/-- A word: characters other than white space. -/
def IsWord (cs : List Char) : Prop := cs ≠ [] ∧ ∀ c ∈ cs, isBlank c = false

def IsTypeName (cs : List Char) : Prop := ∀ c ∈ cs, isTypeChar c = true

/-- A type in braces. A question mark in front of its name allows null; without one, the name
does not start with one itself. -/
inductive SpellsType : TypeMark → List Char → Prop
  | plain {before name after : List Char} : isBlankText before = true → IsTypeName name →
      name.head? ≠ some '?' → isBlankText after = true →
      SpellsType ⟨String.ofList name, false⟩ ('\x7b' :: (before ++ (name ++ (after ++ ['\x7d']))))
  | nullable {before between name after : List Char} : isBlankText before = true →
      isBlankText between = true → IsTypeName name → isBlankText after = true →
      SpellsType ⟨String.ofList name, true⟩
        ('\x7b' :: (before ++ '?' :: (between ++ (name ++ (after ++ ['\x7d'])))))

/-- A description at the end of a line, or none. -/
inductive SpellsText : String → List Char → Prop
  | none : SpellsText "" []
  | some {gap text : List Char} : IsGap gap → text ≠ [] → Bare text →
      SpellsText (String.ofList text) (gap ++ text)

/-- A type, a name and a description. -/
inductive SpellsNamed : TypeMark → String → String → List Char → Prop
  | mk {type : TypeMark} {text : String} {mark gap name tail : List Char} : SpellsType type mark →
      IsGap gap → IsWord name → SpellsText text tail →
      SpellsNamed type (String.ofList name) text (mark ++ (gap ++ (name ++ tail)))

/-- A heading. The indentation of a field counts with its tabs expanded to columns of four. -/
inductive Spells : Heading → List Char → Prop
  | param {type : TypeMark} {name text : String} {gap cs : List Char} : IsGap gap →
      SpellsNamed type name text cs →
      Spells (.param type name text) ("@param".toList ++ (gap ++ cs))
  | returns {type : TypeMark} {text : String} {keyword : String} {gap mark tail : List Char} :
      keyword = "@returns" ∨ keyword = "@return" → IsGap gap → SpellsType type mark →
      SpellsText text tail → Spells (.returns type text) (keyword.toList ++ (gap ++ (mark ++ tail)))
  | field {type : TypeMark} {name text : String} {indent cs : List Char} : IsGap indent →
      SpellsNamed type name text cs →
      Spells (.field (Text.expandTabs 4 0 indent).length type name text) ('@' :: (indent ++ cs))
  | charge {gap amount : List Char} : IsGap gap → IsWord amount →
      Spells (.charge (String.ofList amount)) ("@charge".toList ++ (gap ++ amount))

variable {cs rest blank word name mark tail : List Char} {type : TypeMark} {text : String}
  {h : Heading} {nullable : Bool}

/-! ### Gaps and words -/

theorem IsGap.stop (gap : IsGap blank) (rest : List Char) :
    ∀ c ∈ (blank ++ rest).head?, isBlank c = true := by
  obtain ⟨c, cs, rfl⟩ := List.exists_cons_of_ne_nil gap.1
  rintro _ ⟨⟩
  exact gap.2 c List.mem_cons_self

theorem IsWord.stop (own : IsWord word) (rest : List Char) :
    ∀ c ∈ (word ++ rest).head?, isBlank c = false := by
  obtain ⟨c, word, rfl⟩ := List.exists_cons_of_ne_nil own.1
  rintro _ ⟨⟩
  exact own.2 c List.mem_cons_self

/-- A run that is not empty, and what is left behind it. -/
theorem run_eq_some {p : Char → Bool} :
    (match cs.takeWhile p with
      | [] => none
      | run => some (run, cs.dropWhile p)) = some (word, rest) ↔
      cs = word ++ rest ∧ (word ≠ [] ∧ ∀ c ∈ word, p c = true) ∧ ∀ c ∈ rest.head?, p c = false := by
  -- the shape of the match first: a run is taken unless it is empty
  have cut : (match cs.takeWhile p with
      | [] => none
      | run => some (run, cs.dropWhile p)) = some (word, rest) ↔
      word ≠ [] ∧ cs.takeWhile p = word ∧ cs.dropWhile p = rest := by
    split
    · rename_i empty
      rw [empty]
      exact iff_of_false nofun fun h => h.1 h.2.1.symm
    · rename_i filled
      rw [Option.some.injEq, Prod.mk.injEq]
      exact ⟨fun h => ⟨h.1 ▸ filled, h⟩, And.right⟩
  rw [cut, span_iff]
  exact ⟨fun ⟨ne, eq, all, stop⟩ => ⟨eq, ⟨ne, all⟩, stop⟩,
    fun ⟨eq, ⟨ne, all⟩, stop⟩ => ⟨ne, eq, all, stop⟩⟩

theorem takeBlank?_eq_some : takeBlank? cs = some (blank, rest) ↔
    cs = blank ++ rest ∧ IsGap blank ∧ ∀ c ∈ rest.head?, isBlank c = false :=
  run_eq_some

theorem takeWord?_eq_some : takeWord? cs = some (word, rest) ↔
    cs = word ++ rest ∧ IsWord word ∧ ∀ c ∈ rest.head?, isBlank c = true := by
  have run : takeWord? cs = some (word, rest) ↔ _ := run_eq_some
  simpa only [IsWord, Bool.not_eq_true', Bool.not_eq_false'] using run

/-! ### Types -/

/-- The end of a type: its name, white space and the closing brace. -/
def closeType? (nullable : Bool) (cs : List Char) : Option (TypeMark × List Char) :=
  match Text.trimStart (cs.dropWhile isTypeChar) with
  | '\x7d' :: rest => some (⟨String.ofList (cs.takeWhile isTypeChar), nullable⟩, rest)
  | _ => none

theorem takeType?_cons (cs : List Char) : takeType? ('\x7b' :: cs) =
    if (Text.trimStart cs).head? = some '?' then
      closeType? true (Text.trimStart ((Text.trimStart cs).drop 1))
    else closeType? false (Text.trimStart cs) := by
  by_cases mark : (Text.trimStart cs).head? = some '?'
  · simp only [takeType?, mark, if_pos]
    rfl
  · simp only [takeType?, mark]
    rfl

/-- What starts with a gap or a closing brace does not go on with the name of a type. -/
theorem stop_typeName {after : List Char} (blank : isBlankText after = true) (rest : List Char) :
    ∀ c ∈ (after ++ '\x7d' :: rest).head?, isTypeChar c = false := by
  cases after with
  | nil =>
      rintro _ ⟨⟩
      rfl
  | cons c after =>
      rintro _ ⟨⟩
      simp [isTypeChar, Text.isBlankText_iff.mp blank c List.mem_cons_self]

/-- A type ends with its name, white space and the brace. -/
theorem closeType?_eq_some : closeType? nullable cs = some (type, rest) ↔
    ∃ name after, cs = name ++ (after ++ '\x7d' :: rest) ∧ IsTypeName name ∧
      isBlankText after = true ∧ type = ⟨String.ofList name, nullable⟩ := by
  unfold closeType?
  constructor
  · intro h
    split at h
    · rename_i rest' brace
      cases h
      obtain ⟨cut, name, -⟩ := span_cut isTypeChar cs
      obtain ⟨after, eq, blank, -⟩ := Text.trimStart_spec (cs.dropWhile isTypeChar)
      rw [brace] at eq
      exact ⟨_, after, cut.trans (congrArg _ eq), name, blank, rfl⟩
    · cases h
  · rintro ⟨name, after, rfl, word, blank, rfl⟩
    obtain ⟨own, others⟩ := span_iff.mpr ⟨rfl, word, stop_typeName blank rest⟩
    have brace : Text.trimStart ('\x7d' :: rest) = '\x7d' :: rest :=
      Text.trimStart_eq_self (by rintro _ ⟨⟩; rfl)
    rw [own, others, Text.trimStart_append (Text.isBlankText_iff.mp blank), brace]
    rfl

/-- White space in front of a type's end leaves its name and some white space behind it. -/
theorem trimStart_typeEnd {before after : List Char} (left : isBlankText before = true)
    (word : IsTypeName name) (right : isBlankText after = true) (rest : List Char) :
    ∃ after', isBlankText after' = true ∧
      Text.trimStart (before ++ (name ++ (after ++ '\x7d' :: rest))) =
        name ++ (after' ++ '\x7d' :: rest) := by
  rw [Text.trimStart_append (Text.isBlankText_iff.mp left)]
  cases name with
  | nil =>
      rw [List.nil_append, Text.trimStart_append (Text.isBlankText_iff.mp right)]
      exact ⟨[], rfl, Text.trimStart_eq_self (by rintro _ ⟨⟩; rfl)⟩
  | cons c name =>
      refine ⟨after, right, Text.trimStart_eq_self ?_⟩
      rintro _ ⟨⟩
      have own : isTypeChar c = true := word c List.mem_cons_self
      simpa using (Bool.and_eq_true_iff.mp own).2

/-- **A type that is read from the start of a text is spelled there.** -/
theorem takeType?_eq_some :
    takeType? cs = some (type, rest) ↔ ∃ mark, SpellsType type mark ∧ cs = mark ++ rest := by
  constructor
  · intro read
    obtain ⟨cs, rfl⟩ : ∃ cs', cs = '\x7b' :: cs' := by
      unfold takeType? at read
      split at read
      · exact ⟨_, rfl⟩
      · cases read
    obtain ⟨before, eq, left, -⟩ := Text.trimStart_spec cs
    rw [takeType?_cons] at read
    split at read
    · rename_i mark
      obtain ⟨cs', here⟩ := List.head?_eq_some_iff.mp mark
      obtain ⟨between, eq', middle, -⟩ := Text.trimStart_spec cs'
      rw [here, List.drop_one, List.tail_cons] at read
      obtain ⟨name, after, name_eq, word, right, rfl⟩ := closeType?_eq_some.mp read
      refine ⟨_, .nullable left middle word right, ?_⟩
      rw [eq, here, eq', name_eq]
      simp
    · rename_i mark
      obtain ⟨name, after, name_eq, word, right, rfl⟩ := closeType?_eq_some.mp read
      refine ⟨_, .plain left word (fun head => mark ?_) right, ?_⟩
      · rw [name_eq, List.head?_append, head]
        rfl
      · rw [eq, name_eq]
        simp
  · rintro ⟨_, spelled, rfl⟩
    cases spelled with
    | @plain before name after left word mark right =>
        obtain ⟨after', right', eq⟩ := trimStart_typeEnd left word right rest
        -- With an empty name, what follows is white space or the brace, and no question mark.
        have other : (name ++ (after' ++ '\x7d' :: rest)).head? ≠ some '?' := by
          intro head
          rw [List.head?_append, Option.or_eq_some_iff] at head
          rcases head with own | ⟨-, stop⟩
          · exact mark own
          · cases stop_typeName right' rest _ stop
        simp only [List.cons_append, List.append_assoc, List.nil_append]
        rw [takeType?_cons, eq, if_neg other]
        exact closeType?_eq_some.mpr ⟨name, after', rfl, word, right', rfl⟩
    | @nullable before between name after left middle word right =>
        obtain ⟨after', right', eq⟩ := trimStart_typeEnd middle word right rest
        simp only [List.cons_append, List.append_assoc, List.nil_append]
        rw [takeType?_cons, Text.trimStart_append (Text.isBlankText_iff.mp left),
          Text.trimStart_eq_self (by rintro _ ⟨⟩; rfl), if_pos List.head?_cons, List.drop_one,
          List.tail_cons, eq]
        exact closeType?_eq_some.mpr ⟨name, after', rfl, word, right', rfl⟩

theorem SpellsType.read (spelled : SpellsType type mark) (rest : List Char) :
    takeType? (mark ++ rest) = some (type, rest) :=
  takeType?_eq_some.mpr ⟨mark, spelled, rfl⟩

/-! ### Descriptions -/

theorem SpellsText.stop (spelled : SpellsText text tail) : ∀ c ∈ tail.head?, isBlank c = true := by
  cases spelled with
  | none => nofun
  | some gap_blank => exact gap_blank.stop _

/-- What does not end with white space has no white space at the end of its last part. -/
theorem ends_of_append (cs : List Char) (ends : ∀ c ∈ (cs ++ rest).getLast?, isBlank c = false) :
    ∀ c ∈ rest.getLast?, isBlank c = false := by
  intro c last
  refine ends c ?_
  rw [List.getLast?_append, Option.mem_def.mp last]
  rfl

theorem trim_gap {gap body : List Char} (gap_blank : IsGap gap) (ne : body ≠ [])
    (bare : Bare body) : Text.trim (gap ++ body) = body :=
  (Text.trim_eq_iff ne).mpr ⟨bare, gap, [], by simp, Text.isBlankText_iff.mpr gap_blank.2, rfl⟩

/-- What starts with white space and does not end with it is a gap and a text behind it. -/
theorem exists_gap {c : Char} (blank : isBlank c = true)
    (ends : ∀ x ∈ (c :: cs).getLast?, isBlank x = false) :
    ∃ gap body, c :: cs = gap ++ body ∧ IsGap gap ∧ body ≠ [] ∧ Bare body := by
  obtain ⟨gap, eq, left, first⟩ := Text.trimStart_spec (c :: cs)
  generalize Text.trimStart (c :: cs) = body at eq first
  have last : ∀ x ∈ body.getLast?, isBlank x = false := ends_of_append gap (eq ▸ ends)
  refine ⟨gap, body, eq, ⟨?_, Text.isBlankText_iff.mp left⟩, ?_, first, last⟩
  · rintro rfl
    rw [List.nil_append] at eq
    cases blank.symm.trans (first c (eq ▸ rfl))
  · rintro rfl
    rw [List.append_nil] at eq
    subst eq
    have filled := ends _ (List.getLast?_eq_some_getLast (List.cons_ne_nil c cs))
    cases (Text.isBlankText_iff.mp left _ (List.getLast_mem _)).symm.trans filled

/-- **What is read as a description at the end of a text is spelled there**, if the text does
not end with white space. -/
theorem takeText?_eq_some (ends : ∀ c ∈ cs.getLast?, isBlank c = false) :
    takeText? cs = some text ↔ SpellsText text cs := by
  constructor
  · intro read
    unfold takeText? at read
    split at read
    · cases read
      exact .none
    split at read
    · rename_i blank
      cases read
      -- what follows the gap starts and ends with other characters than white space
      obtain ⟨gap, body, eq, gap_blank, ne, bare⟩ := exists_gap blank ends
      rw [eq, trim_gap gap_blank ne bare]
      exact .some gap_blank ne bare
    · cases read
  · intro spelled
    cases spelled with
    | none => rfl
    | @some gap body gap_blank ne bare =>
        have trimmed := trim_gap gap_blank ne bare
        obtain ⟨c, gap, rfl⟩ := List.exists_cons_of_ne_nil gap_blank.1
        rw [List.cons_append] at trimmed ⊢
        rw [takeText?, if_pos (gap_blank.2 c List.mem_cons_self), trimmed]

/-! ### Names -/

theorem SpellsType.stop (spelled : SpellsType type mark) (rest : List Char) :
    ∀ c ∈ (mark ++ rest).head?, isBlank c = false := by
  cases spelled <;> rintro _ ⟨⟩ <;> rfl

/-- **A type, a name and a description that are read from a text are spelled there.** -/
theorem takeNamed?_eq_some (ends : ∀ c ∈ cs.getLast?, isBlank c = false) {named : String} :
    takeNamed? cs = some (type, named, text) ↔ SpellsNamed type named text cs := by
  constructor
  · intro read
    obtain ⟨⟨type', rest₁⟩, typed, read⟩ := Option.bind_eq_some_iff.mp read
    obtain ⟨⟨gap, rest₂⟩, apart, read⟩ := Option.bind_eq_some_iff.mp read
    obtain ⟨⟨name, rest₃⟩, own, read⟩ := Option.bind_eq_some_iff.mp read
    obtain ⟨text', tail, ⟨⟩⟩ := Option.bind_eq_some_iff.mp read
    obtain ⟨mark, mark_spelled, rfl⟩ := takeType?_eq_some.mp typed
    obtain ⟨rfl, gap_blank, -⟩ := takeBlank?_eq_some.mp apart
    obtain ⟨rfl, word, -⟩ := takeWord?_eq_some.mp own
    -- what is at the end of the whole is at the end of each part behind
    have ends := ends_of_append _ (ends_of_append _ (ends_of_append _ ends))
    exact .mk mark_spelled gap_blank word ((takeText?_eq_some ends).mp tail)
  · intro spelled
    obtain @⟨_, mark, gap, name, tail, mark_spelled, gap_blank, word, described⟩ := spelled
    have ends := ends_of_append _ (ends_of_append _ (ends_of_append _ ends))
    have typed := mark_spelled.read (gap ++ (name ++ tail))
    have apart := takeBlank?_eq_some.mpr ⟨rfl, gap_blank, word.stop tail⟩
    have own := takeWord?_eq_some.mpr ⟨rfl, word, described.stop⟩
    have described := (takeText?_eq_some ends).mpr described
    simp only [takeNamed?, typed, apart, own, described, Option.bind_eq_bind, Option.bind_some,
      Option.pure_def]

theorem SpellsNamed.stop {named : String} (spelled : SpellsNamed type named text cs) :
    ∀ c ∈ cs.head?, isBlank c = false := by
  cases spelled with
  | mk mark_spelled => exact mark_spelled.stop _

/-! ### Headings -/

/-- The heading of a parameter is a gap and what is named behind it. -/
theorem paramHeading?_eq_some (ends : ∀ c ∈ cs.getLast?, isBlank c = false) :
    paramHeading? cs = some h ↔ ∃ gap rest type name text, cs = gap ++ rest ∧ IsGap gap ∧
      SpellsNamed type name text rest ∧ h = .param type name text := by
  constructor
  · intro read
    obtain ⟨⟨gap, rest⟩, apart, read⟩ := Option.bind_eq_some_iff.mp read
    obtain ⟨⟨type, name, text⟩, named, ⟨⟩⟩ := Option.bind_eq_some_iff.mp read
    obtain ⟨rfl, gap_blank, -⟩ := takeBlank?_eq_some.mp apart
    exact ⟨gap, rest, type, name, text, rfl, gap_blank,
      (takeNamed?_eq_some (ends_of_append _ ends)).mp named, rfl⟩
  · rintro ⟨gap, rest, type, name, text, rfl, gap_blank, spelled, rfl⟩
    have apart := takeBlank?_eq_some.mpr ⟨rfl, gap_blank, spelled.stop⟩
    have named := (takeNamed?_eq_some (ends_of_append _ ends)).mpr spelled
    simp only [paramHeading?, apart, named, Option.bind_eq_bind, Option.bind_some, Option.pure_def]

/-- The heading of a field is its indentation, whose width counts, and what is named behind it. -/
theorem fieldHeading?_eq_some (ends : ∀ c ∈ cs.getLast?, isBlank c = false) :
    fieldHeading? cs = some h ↔ ∃ indent rest type name text, cs = indent ++ rest ∧ IsGap indent ∧
      SpellsNamed type name text rest ∧
      h = .field (Text.expandTabs 4 0 indent).length type name text := by
  constructor
  · intro read
    obtain ⟨⟨indent, rest⟩, apart, read⟩ := Option.bind_eq_some_iff.mp read
    obtain ⟨⟨type, name, text⟩, named, ⟨⟩⟩ := Option.bind_eq_some_iff.mp read
    obtain ⟨rfl, indent_blank, -⟩ := takeBlank?_eq_some.mp apart
    refine ⟨indent, rest, type, name, text, rfl, indent_blank,
      (takeNamed?_eq_some (ends_of_append _ ends)).mp named, ?_⟩
    rw [← Text.indentWidth_eq]
  · rintro ⟨indent, rest, type, name, text, rfl, indent_blank, spelled, rfl⟩
    have apart := takeBlank?_eq_some.mpr ⟨rfl, indent_blank, spelled.stop⟩
    have named := (takeNamed?_eq_some (ends_of_append _ ends)).mpr spelled
    simp only [fieldHeading?, apart, named, Text.indentWidth_eq, Option.bind_eq_bind,
      Option.bind_some, Option.pure_def]

/-- The heading of a return value is a gap, a type and a description. -/
theorem returnsHeading?_eq_some (ends : ∀ c ∈ cs.getLast?, isBlank c = false) :
    returnsHeading? cs = some h ↔ ∃ gap mark tail type text, cs = gap ++ (mark ++ tail) ∧
      IsGap gap ∧ SpellsType type mark ∧ SpellsText text tail ∧ h = .returns type text := by
  constructor
  · intro read
    obtain ⟨⟨gap, rest⟩, apart, read⟩ := Option.bind_eq_some_iff.mp read
    obtain ⟨⟨type, tail⟩, typed, read⟩ := Option.bind_eq_some_iff.mp read
    obtain ⟨text, described, ⟨⟩⟩ := Option.bind_eq_some_iff.mp read
    obtain ⟨rfl, gap_blank, -⟩ := takeBlank?_eq_some.mp apart
    obtain ⟨mark, mark_spelled, rfl⟩ := takeType?_eq_some.mp typed
    have ends := ends_of_append _ (ends_of_append _ ends)
    exact ⟨gap, mark, tail, type, text, rfl, gap_blank, mark_spelled,
      (takeText?_eq_some ends).mp described, rfl⟩
  · rintro ⟨gap, mark, tail, type, text, rfl, gap_blank, mark_spelled, spelled, rfl⟩
    have apart := takeBlank?_eq_some.mpr ⟨rfl, gap_blank, mark_spelled.stop tail⟩
    have typed := mark_spelled.read tail
    have described := (takeText?_eq_some (ends_of_append _ (ends_of_append _ ends))).mpr spelled
    simp only [returnsHeading?, apart, typed, described, Option.bind_eq_bind, Option.bind_some,
      Option.pure_def]

/-- The heading of a charge is a gap and one word, with nothing behind. -/
theorem chargeHeading?_eq_some : chargeHeading? cs = some h ↔
    ∃ gap amount, cs = gap ++ amount ∧ IsGap gap ∧ IsWord amount ∧
      h = .charge (String.ofList amount) := by
  constructor
  · intro read
    obtain ⟨⟨gap, rest⟩, apart, below⟩ := Option.bind_eq_some_iff.mp read
    obtain ⟨⟨amount, rest⟩, own, only⟩ := Option.bind_eq_some_iff.mp below
    obtain ⟨rfl, gap_blank, -⟩ := takeBlank?_eq_some.mp apart
    obtain ⟨rfl, word, -⟩ := takeWord?_eq_some.mp own
    dsimp only at only
    split at only
    · rename_i done
      cases only
      exact ⟨gap, amount, by rw [List.isEmpty_iff.mp done, List.append_nil], gap_blank, word, rfl⟩
    · cases only
  · rintro ⟨gap, amount, rfl, gap_blank, word, rfl⟩
    have first : ∀ c ∈ amount.head?, isBlank c = false := by simpa using word.stop []
    have apart := takeBlank?_eq_some.mpr ⟨rfl, gap_blank, first⟩
    have own : takeWord? amount = some (amount, []) :=
      takeWord?_eq_some.mpr ⟨(List.append_nil _).symm, word, nofun⟩
    simp only [chargeHeading?, apart, own, Option.bind_eq_bind, Option.bind_some, Option.pure_def,
      List.isEmpty_nil, if_true]

/-- A text starts with its tag. -/
theorem exists_tag (cs : List Char) : ∃ (tag : String) (rest : List Char),
    cs = tag.toList ++ rest ∧ (tag.toList.all fun c => !isBlank c) = true ∧
      ∀ c ∈ rest.head?, isBlank c = true := by
  obtain ⟨cut, word, stop⟩ := span_cut (fun c => !isBlank c) cs
  refine ⟨String.ofList (cs.takeWhile fun c => !isBlank c), cs.dropWhile fun c => !isBlank c,
    ?_, ?_, ?_⟩
  · rwa [String.toList_ofList]
  · rwa [String.toList_ofList, List.all_eq_true]
  · simpa using stop

/-- The tag decides which heading is read. -/
theorem readHeading_tag {tag : String} (own : (tag.toList.all fun c => !isBlank c) = true)
    (stop : ∀ c ∈ rest.head?, isBlank c = true) (line : String) :
    readHeading line (tag.toList ++ rest) =
      if tag = "" then orFault (.malformedField line) (fieldHeading? (tag.toList ++ rest))
      else if tag = "param" then orFault (.malformedParam line) (paramHeading? rest)
      else if tag = "returns" || tag = "return" then
        orFault (.malformedReturns line) (returnsHeading? rest)
      else if tag = "charge" then orFault (.malformedCharge line) (chargeHeading? rest)
      else .error (.unknownTag tag) := by
  obtain ⟨word, others⟩ : (tag.toList ++ rest).takeWhile (fun c => !isBlank c) = tag.toList ∧
      (tag.toList ++ rest).dropWhile (fun c => !isBlank c) = rest :=
    span_iff.mpr ⟨rfl, List.all_eq_true.mp own, by simpa using stop⟩
  rw [readHeading, word, others, String.ofList_toList]

/-- **A line that does not end with white space is read as a heading exactly if it spells it.** -/
theorem readHeading_eq_ok {line : String} (ends : ∀ c ∈ cs.getLast?, isBlank c = false) :
    readHeading line cs = .ok h ↔ Spells h ('@' :: cs) := by
  constructor
  · intro read
    -- forwards by the tag that was read, backwards by the form that was written
    obtain ⟨tag, rest, rfl, own, stop⟩ := exists_tag cs
    have below := ends_of_append _ ends
    rw [readHeading_tag own stop] at read
    split at read
    · rename_i empty
      subst empty
      obtain ⟨indent, cs, type, name, text, eq, blank, spelled, rfl⟩ :=
        (fieldHeading?_eq_some ends).mp (orFault_eq_ok.mp read)
      rw [eq]
      exact .field blank spelled
    split at read
    · rename_i eq
      subst eq
      obtain ⟨gap, cs, type, name, text, rfl, blank, spelled, rfl⟩ :=
        (paramHeading?_eq_some below).mp (orFault_eq_ok.mp read)
      exact .param blank spelled
    split at read
    · rename_i either
      obtain ⟨gap, mark, tail, type, text, rfl, blank, typed, spelled, rfl⟩ :=
        (returnsHeading?_eq_some below).mp (orFault_eq_ok.mp read)
      rcases Bool.or_eq_true_iff.mp either with eq | eq <;> cases of_decide_eq_true eq
      · exact .returns (.inl rfl) blank typed spelled
      · exact .returns (.inr rfl) blank typed spelled
    split at read
    · rename_i eq
      subst eq
      obtain ⟨gap, amount, rfl, blank, word, rfl⟩ :=
        chargeHeading?_eq_some.mp (orFault_eq_ok.mp read)
      exact .charge blank word
    · cases read
  · intro spelled
    generalize written : '@' :: cs = whole at spelled
    cases spelled with
    | @param type name text gap cs' blank spelled =>
        obtain rfl : cs = "param".toList ++ (gap ++ cs') := List.tail_eq_of_cons_eq written
        have read := (paramHeading?_eq_some (ends_of_append _ ends)).mpr
          ⟨gap, cs', type, name, text, rfl, blank, spelled, rfl⟩
        rw [readHeading_tag rfl (blank.stop cs'), read]
        rfl
    | @returns type text keyword gap mark tail either blank typed spelled =>
        obtain ⟨tag, rfl, rfl, own⟩ : ∃ tag : String, cs = tag.toList ++ (gap ++ (mark ++ tail)) ∧
            keyword = "@" ++ tag ∧ (tag = "returns" ∨ tag = "return") := by
          rcases either with rfl | rfl
          · exact ⟨"returns", List.tail_eq_of_cons_eq written, rfl, .inl rfl⟩
          · exact ⟨"return", List.tail_eq_of_cons_eq written, rfl, .inr rfl⟩
        have read := (returnsHeading?_eq_some (ends_of_append _ ends)).mpr
          ⟨gap, mark, tail, type, text, rfl, blank, typed, spelled, rfl⟩
        rcases own with rfl | rfl <;>
        · rw [readHeading_tag rfl (blank.stop _), read]
          rfl
    | @field type name text indent cs' blank spelled =>
        obtain rfl : cs = indent ++ cs' := List.tail_eq_of_cons_eq written
        have read := (fieldHeading?_eq_some ends).mpr
          ⟨indent, cs', type, name, text, rfl, blank, spelled, rfl⟩
        have untagged : readHeading line ("".toList ++ (indent ++ cs')) = _ :=
          readHeading_tag rfl (blank.stop cs') line
        rw [String.toList_empty, List.nil_append] at untagged
        rw [untagged, read]
        rfl
    | @charge gap amount blank word =>
        obtain rfl : cs = "charge".toList ++ (gap ++ amount) := List.tail_eq_of_cons_eq written
        have read := chargeHeading?_eq_some.mpr ⟨gap, amount, rfl, blank, word, rfl⟩
        rw [readHeading_tag rfl (blank.stop amount), read]
        rfl

/-! ### Lines -/

/-- A text whose last character is not white space. -/
def EndsBare (cs : List Char) : Prop := ∃ c, cs.getLast? = some c ∧ isBlank c = false

theorem EndsBare.append (ends : EndsBare rest) (cs : List Char) : EndsBare (cs ++ rest) := by
  obtain ⟨c, last, own⟩ := ends
  exact ⟨c, by rw [List.getLast?_append, last, Option.some_or], own⟩

theorem IsWord.ends (own : IsWord word) : EndsBare word :=
  ⟨_, List.getLast?_eq_some_getLast own.1, own.2 _ (List.getLast_mem own.1)⟩

theorem SpellsType.ends (spelled : SpellsType type mark) : EndsBare mark := by
  have brace : EndsBare ['\x7d'] := ⟨_, rfl, rfl⟩
  cases spelled with
  | plain => exact (((brace.append _).append _).append _).append ['\x7b']
  | nullable =>
      exact (((((brace.append _).append _).append _).append ['?']).append _).append ['\x7b']

theorem SpellsText.ends (spelled : SpellsText text tail) (ends : EndsBare cs) :
    EndsBare (cs ++ tail) := by
  cases spelled with
  | none => rwa [List.append_nil]
  | some gap_blank ne bare =>
      have last := List.getLast?_eq_some_getLast ne
      exact (EndsBare.append ⟨_, last, bare.last _ last⟩ _).append _

theorem SpellsNamed.ends {named : String} (spelled : SpellsNamed type named text cs) :
    EndsBare cs := by
  cases spelled with
  | mk _ _ word tail => exact ((tail.ends word.ends).append _).append _

theorem Spells.ends (spelled : Spells h cs) : EndsBare cs := by
  cases spelled with
  | param _ spelled => exact (spelled.ends.append _).append _
  | returns _ _ typed tail => exact ((tail.ends typed.ends).append _).append _
  | field _ spelled => exact (spelled.ends.append _).append ['@']
  | charge _ word => exact (word.ends.append _).append _

/-- Every heading is written with an at sign first. -/
theorem Spells.starts (spelled : Spells h cs) : ∃ rest, cs = '@' :: rest := by
  cases spelled with
  | returns either => rcases either with rfl | rfl <;> exact ⟨_, rfl⟩
  | _ => exact ⟨_, rfl⟩

/-- One line is a declaration if it starts as one and its heading is read. -/
theorem readDeclarations_singleton (l : Line) (h : Heading) :
    readDeclarations [l] = .ok [⟨h, l.number, []⟩] ↔ ∃ cs, Text.trim l.text = '@' :: cs ∧
      readHeading (String.ofList (Text.trim l.text)) cs = .ok h := by
  have starts : isDeclarationLine l = true ↔ ∃ cs, Text.trim l.text = '@' :: cs := by
    rw [isDeclarationLine, decide_eq_true_iff, List.head?_eq_some_iff]
  rw [readDeclarations]
  split
  · rename_i declares
    obtain ⟨cs, own⟩ := starts.mp declares
    simp only [own, List.drop_one, List.tail_cons, List.cons.injEq, true_and, exists_eq_left']
    cases readHeading (String.ofList ('@' :: cs)) cs <;> simp [readDeclarations, continuation]
  · rename_i other
    refine iff_of_false (by simp [readDeclarations]) ?_
    rintro ⟨cs, own, -⟩
    exact other (starts.mpr ⟨cs, own⟩)

/-- **A line is read as a declaration exactly if it spells it**, with any white space around. -/
theorem readDeclarations_spelled (l : Line) (h : Heading) :
    readDeclarations [l] = .ok [⟨h, l.number, []⟩] ↔
      ∃ before cs after, l.text = before ++ (cs ++ after) ∧ isBlankText before = true ∧
        isBlankText after = true ∧ Spells h cs := by
  rw [readDeclarations_singleton]
  constructor
  · rintro ⟨cs, own, read⟩
    obtain ⟨bare, before, after, text, left, right⟩ :=
      (Text.trim_eq_iff (List.cons_ne_nil '@' cs)).mp own
    have ends := ends_of_append ['@'] bare.last
    exact ⟨before, '@' :: cs, after, text, left, right, (readHeading_eq_ok ends).mp read⟩
  · rintro ⟨before, cs, after, text, left, right, spelled⟩
    obtain ⟨rest, rfl⟩ := spelled.starts
    obtain ⟨c, last, own⟩ := spelled.ends
    have ends : ∀ c ∈ ('@' :: rest).getLast?, isBlank c = false := by
      rintro _ here
      exact Option.some.inj (last.symm.trans here) ▸ own
    have bare : Bare ('@' :: rest) := ⟨by rintro _ ⟨⟩; rfl, ends⟩
    have trimmed : Text.trim l.text = '@' :: rest :=
      (Text.trim_eq_iff (List.cons_ne_nil _ _)).mpr ⟨bare, before, after, text, left, right⟩
    exact ⟨rest, trimmed, (readHeading_eq_ok (ends_of_append ['@'] ends)).mpr spelled⟩

example : readDeclarations [⟨"@ \t\x7b ?text\x7d\t\x7bn\x7d  @b ".toList, 3⟩] =
    .ok [⟨.field 4 ⟨"text", true⟩ "\x7bn\x7d" "@b", 3, []⟩] := by rfl

end Docsig.Comment
