import Docsig.Proofs.Definition.Writable
import Docsig.Proofs.JsonSchema.Admits
import Docsig.Proofs.Number.Numeral
import Docsig.Proofs.Text.Split
import Mathlib.Algebra.Order.BigOperators.Group.List
import Mathlib.Algebra.Order.Ring.Nat

/-!
Where the path of a violation points.

The path of a violation is a list of steps from the root. `Schema.At` says which part of a
schema looks at which part of a value after some steps, and `mem_violations` that every
violation is found there. The pointer of a violation is its path as a text. It is read as
RFC 6901 has it (`Pointer.resolve`): tokens stand between slashes, and a tilde escapes a
slash or a tilde.

* `Definition.issues_pointers`: the pointer leads to the place of the violation exactly if no
  name on the way holds a slash or a tilde, since names are not escaped.
* `issues_pointers_shared`: two violations in different places that have one pointer.
-/

namespace Docsig

/-! ### Parts of a value -/

namespace Value

/-- The part of a value that a step leads to. -/
def child? : Step → Value → Option Value
  | .field name, .map .dict es => field? name es
  | .item index, .seq .list vs => vs[index]?
  | _, _ => none

/-- The part of a value at a path. -/
def at? : List Step → Value → Option Value
  | [], v => some v
  | step :: path, v => (child? step v).bind (at? path)

end Value

/-! ### Pointers -/

namespace Pointer

/-- What a token stands for: a tilde before a zero is a tilde, and before a one a slash. -/
def unescape : List Char → Option (List Char)
  | [] => some []
  | '~' :: '0' :: cs => (unescape cs).map ('~' :: ·)
  | '~' :: '1' :: cs => (unescape cs).map ('/' :: ·)
  | '~' :: _ => none
  | c :: cs => (unescape cs).map (c :: ·)

/-- What some tokens stand for. -/
def texts? : List (List Char) → Option (List String)
  | [] => some []
  | token :: tokens =>
      (unescape token).bind fun cs => (texts? tokens).map (String.ofList cs :: ·)

/-- The texts that a pointer holds. It is empty, or each token stands after a slash. -/
def read (pointer : String) : Option (List String) :=
  match Text.splitAt '/' pointer.toList with
  | [] :: tokens => texts? tokens
  | _ => none

/-- The step that a text names in a value, and where it leads: the field of that name, or
the item whose index is spelled so. -/
def step? (text : String) : Value → Option (Step × Value)
  | .map .dict es => (Value.field? text es).map fun x => (.field text, x)
  | .seq .list vs =>
      ((List.range vs.length).find? fun index => toString index == text).bind fun index =>
        vs[index]?.map fun x => (.item index, x)
  | _ => none

/-- The path that some texts name in a value, and where it leads. -/
def follow : List String → Value → Option (List Step × Value)
  | [], v => some ([], v)
  | text :: texts, v =>
      (step? text v).bind fun (step, x) =>
        (follow texts x).map fun (path, w) => (step :: path, w)

/-- The path that a pointer names in a value, and where it leads. -/
def resolve (pointer : String) (v : Value) : Option (List Step × Value) :=
  (read pointer).bind fun texts => follow texts v

/-! ### Tokens -/

theorem unescape_cons {c : Char} (plain : c ≠ '~') (cs : List Char) :
    unescape (c :: cs) = (unescape cs).map (c :: ·) := by
  rw [unescape]
  · exact fun _ tilde => absurd tilde plain
  · exact fun _ tilde => absurd tilde plain
  · exact plain

/-- Every escape makes a text shorter by one. -/
theorem unescape_length {cs ds : List Char} (h : unescape cs = some ds) :
    ds.length + cs.count '~' = cs.length := by
  -- by the recursion of the reading: a tilde counts with the digit behind it, or refuses the
  -- text
  induction cs using unescape.induct generalizing ds with
  | case1 =>
      cases h
      rfl
  | case2 cs ih | case3 cs ih =>
      rw [unescape, Option.map_eq_some_iff] at h
      obtain ⟨ds, h, rfl⟩ := h
      have := ih h
      simp
      omega
  | case4 => simp_all [unescape]
  | case5 c cs _ _ plain ih =>
      rw [unescape_cons plain, Option.map_eq_some_iff] at h
      obtain ⟨ds, h, rfl⟩ := h
      have := ih h
      rw [List.count_cons_of_ne plain, List.length_cons, List.length_cons]
      omega

/-- A text stands for itself exactly if it holds no tilde. -/
theorem unescape_self {cs : List Char} : unescape cs = some cs ↔ '~' ∉ cs := by
  constructor
  · intro h
    have := unescape_length h
    exact List.count_eq_zero.mp (by omega)
  · intro free
    induction cs with
    | nil => rfl
    | cons c cs ih =>
        rw [List.mem_cons, not_or] at free
        rw [unescape_cons (Ne.symm free.1), ih free.2]
        rfl

theorem texts?_length {tokens : List (List Char)} {texts : List String}
    (h : texts? tokens = some texts) : texts.length = tokens.length := by
  induction tokens generalizing texts with
  | nil =>
      cases h
      rfl
  | cons token tokens ih =>
      obtain ⟨cs, -, more⟩ := Option.bind_eq_some_iff.mp h
      obtain ⟨rest, below, rfl⟩ := Option.map_eq_some_iff.mp more
      rw [List.length_cons, List.length_cons, ih below]

/-- Texts stand for themselves exactly if each of them does. -/
theorem texts?_self {texts : List String} :
    texts? (texts.map String.toList) = some texts ↔ ∀ text ∈ texts, '~' ∉ text.toList := by
  induction texts with
  | nil => simp [texts?]
  | cons text texts ih =>
      rw [List.map_cons, texts?, List.forall_mem_cons, ← ih, ← unescape_self,
        Option.bind_eq_some_iff]
      constructor
      · rintro ⟨cs, own, rest⟩
        obtain ⟨rest, below, eq⟩ := Option.map_eq_some_iff.mp rest
        obtain ⟨rfl, rfl⟩ := List.cons.inj eq
        rw [String.toList_ofList] at own ⊢
        exact ⟨own, below⟩
      · rintro ⟨own, below⟩
        exact ⟨_, own, by rw [below, Option.map_some, String.ofList_toList]⟩

/-! ### Written pointers -/

/-- Texts, each of them after a slash. -/
def write (texts : List String) : String := String.join (texts.map ("/" ++ ·))

theorem write_cons (text : String) (texts : List String) :
    (write (text :: texts)).toList = '/' :: (text.toList ++ (write texts).toList) := by
  simp [write, String.toList_join]

/-- The tokens of what is written are those of its texts. -/
theorem splitAt_write (texts : List String) :
    Text.splitAt '/' (write texts).toList =
      [] :: texts.flatMap fun text => Text.splitAt '/' text.toList := by
  have slash (cs : List Char) : Text.splitAt '/' ('/' :: cs) = [] :: Text.splitAt '/' cs :=
    Text.splitAt_append [] cs
  induction texts with
  | nil => rfl
  | cons text texts ih =>
      rw [write_cons, slash, List.flatMap_cons]
      cases texts with
      | nil => simp [write]
      | cons next texts =>
          rw [write_cons, slash, List.cons.injEq] at ih
          rw [write_cons, Text.splitAt_append, ih.2]

/-- **A pointer holds the texts that it is written from exactly if none of them holds a
slash or a tilde.** -/
theorem read_write {texts : List String} :
    read (write texts) = some texts ↔
      ∀ text ∈ texts, '/' ∉ text.toList ∧ '~' ∉ text.toList := by
  rw [read, splitAt_write]
  dsimp only
  have whole (free : ∀ text ∈ texts, '/' ∉ text.toList) :
      (texts.flatMap fun text => Text.splitAt '/' text.toList) = texts.map String.toList := by
    rw [List.map_eq_flatMap]
    exact List.flatMap_congr fun text h => Text.splitAt_of_not_mem (free text h)
  constructor
  · intro h
    -- a slash in a text would make one token more
    have slashes : ∀ text ∈ texts, '/' ∉ text.toList := by
      have length := texts?_length h
      simp only [List.length_flatMap, Text.splitAt_length] at length
      rw [List.sum_map_add, List.map_const', List.sum_replicate, nsmul_one, Nat.cast_id,
        right_eq_add, List.sum_eq_zero_iff, List.forall_mem_map] at length
      exact fun text mem => List.count_eq_zero.mp (length text mem)
    rw [whole slashes, texts?_self] at h
    exact fun text mem => ⟨slashes text mem, h text mem⟩
  · intro free
    rw [whole fun text h => (free text h).1, texts?_self]
    exact fun text h => (free text h).2

/-! ### Following a pointer -/

variable {v w x : Value} {path : List Step} {step : Step} {text : String}

theorem toString_inj {m n : Nat} (h : toString m = toString n) : m = n := by
  have chars (n : Nat) : (toString n).toList = Nat.toDigits 10 n := String.toList_ofList
  have digits : decimalDigits m = decimalDigits n := by
    rw [decimalDigits, decimalDigits, ← chars, ← chars, h]
  have := congrArg (ofDigits 10) digits
  rwa [ofDigits_decimalDigits, ofDigits_decimalDigits] at this

/-- An index is found by its text if it is below the bound. -/
theorem find?_index {n index : Nat} :
    ((List.range n).find? fun index => toString index == text) = some index ↔
      toString index = text ∧ index < n := by
  rw [List.find?_range_eq_some, beq_iff_eq, List.mem_range]
  refine ⟨fun h => ⟨h.1, h.2.1⟩, fun h => ⟨h.1, h.2, fun j less => ?_⟩⟩
  have other : toString j ≠ text := fun same => less.ne (toString_inj (same.trans h.1.symm))
  simpa using other

/-- A text names a step that is spelled so and leads somewhere. -/
theorem step?_eq_some :
    step? text v = some (step, x) ↔ step.text = text ∧ v.child? step = some x := by
  -- into an open map, into an open list, and nowhere else
  unfold step?
  split
  · rename_i es
    rw [Option.map_eq_some_iff]
    constructor
    · rintro ⟨x, found, ⟨⟩⟩
      exact ⟨rfl, found⟩
    · rintro ⟨rfl, found⟩
      cases step with
      | field name => exact ⟨x, found, rfl⟩
      | item index => cases found
  · rename_i vs
    simp only [Option.bind_eq_some_iff, Option.map_eq_some_iff, find?_index]
    constructor
    · rintro ⟨index, ⟨named, -⟩, x, found, ⟨⟩⟩
      exact ⟨named, found⟩
    · rintro ⟨rfl, found⟩
      cases step with
      | field name => cases found
      | item index =>
          exact ⟨index, ⟨rfl, (List.getElem?_eq_some_iff.mp found).1⟩, x, found, rfl⟩
  · rename_i noMap noList
    refine ⟨nofun, fun ⟨_, found⟩ => ?_⟩
    unfold Value.child? at found
    split at found
    · exact (noMap _ rfl).elim
    · exact (noList _ rfl).elim
    · cases found

/-- Texts lead where a path leads whose steps are written so. -/
theorem follow_eq_some {texts : List String} :
    follow texts v = some (path, w) ↔ texts = path.map Step.text ∧ v.at? path = some w := by
  induction texts generalizing v path with
  | nil => cases path <;> simp [follow, Value.at?]
  | cons text texts ih =>
      simp only [follow, Option.bind_eq_some_iff, Option.map_eq_some_iff]
      constructor
      · rintro ⟨⟨step, x⟩, first, ⟨path, w⟩, rest, ⟨⟩⟩
        obtain ⟨rfl, child⟩ := step?_eq_some.mp first
        obtain ⟨rfl, below⟩ := ih.mp rest
        exact ⟨rfl, by rw [Value.at?, child, Option.bind_some, below]⟩
      · rintro ⟨texts_eq, there⟩
        cases path with
        | nil => cases texts_eq
        | cons step path =>
            obtain ⟨rfl, rfl⟩ := List.cons.inj texts_eq
            obtain ⟨x, child, below⟩ := Option.bind_eq_some_iff.mp there
            exact ⟨(step, x), step?_eq_some.mpr ⟨rfl, child⟩, (path, w), ih.mpr ⟨rfl, below⟩, rfl⟩

end Pointer

/-! ### Places of violations -/

namespace Schema

/-- `At s v path t w`: checking a value against a schema checks the part `w`, which stands at
a path of the value, against the part `t` of the schema. -/
inductive At : Schema → Value → List Step → Schema → Value → Prop
  | here {s : Schema} {v : Value} : At s v [] s v
  | field {s t schema : Schema} {w x : Value} {path : List Step} {name : String}
      {fields : List (String × Schema)} {es : List (Value × Value)} :
      .properties fields ∈ s → (name, schema) ∈ fields → Value.field? name es = some x →
        At schema x path t w → At s (.dict es) (.field name :: path) t w
  | item {s t item : Schema} {w x : Value} {path : List Step} {index : Nat} {vs : List Value} :
      .items item ∈ s → vs[index]? = some x → At item x path t w →
        At s (.list vs) (.item index :: path) t w

/-- A value violates a keyword of a schema itself, and not only in its parts. -/
def Violates (s : Schema) (v : Value) (message : String) : Prop :=
  ∃ k ∈ s, ⟨[], message⟩ ∈ keywordIssues s.fieldNames k v

variable {s t : Schema} {v w : Value} {i : SchemaIssue} {names : List String} {k : Keyword}
  {path : List Step} {message : String}

/-- What is checked stands where the path says. -/
theorem At.at? (h : At s v path t w) : v.at? path = some w := by
  induction h with
  | here => rfl
  | field _ _ found _ ih => exact Option.bind_eq_some_iff.mpr ⟨_, found, ih⟩
  | item _ found _ ih => exact Option.bind_eq_some_iff.mpr ⟨_, found, ih⟩

/-- A violation is one of a keyword. -/
theorem mem_violations : i ∈ s.violations v ↔ ∃ k ∈ s, i ∈ keywordIssues s.fieldNames k v := by
  rw [violations, keywordsIssues_eq, List.mem_flatMap]

theorem mem_fieldIssues {fields : List (String × Schema)} {es : List (Value × Value)} :
    i ∈ fieldIssues fields es ↔ ∃ f ∈ fields, ∃ x, Value.field? f.1 es = some x ∧
      ∃ j ∈ f.2.violations x, i = j.under (.field f.1) := by
  induction fields with
  | nil => simp [fieldIssues]
  | cons f fields ih =>
      obtain ⟨name, schema⟩ := f
      rw [fieldIssues, List.mem_append, ih, List.exists_mem_cons_iff]
      refine or_congr_left ?_
      cases Value.field? name es with
      | none => simp
      | some x => simp [violations, eq_comm]

/-- A keyword that is about no part of a value finds violations in the value itself. -/
theorem path_eq_nil (h : i ∈ keywordIssues names k v) (noFields : ∀ fields, k ≠ .properties fields)
    (noItems : ∀ item, k ≠ .items item) : i.path = [] := by
  -- the two keywords that look further down are excluded, all others speak of the value itself
  cases k with
  | properties fields => exact absurd rfl (noFields fields)
  | items item => exact absurd rfl (noItems item)
  | dialect | description => cases h
  | kind | enum | minimum | maximum | anyOf =>
      unfold keywordIssues at h
      split at h
      all_goals simp_all [issue]
  | required required =>
      unfold keywordIssues requiredIssues at h
      split at h
      · obtain ⟨name, -, rfl⟩ := List.mem_map.mp h
        rfl
      · cases h
  | oneOf alternatives =>
      unfold keywordIssues oneOfIssues at h
      split at h
      all_goals simp_all [issue]
  | closed =>
      unfold keywordIssues closedIssues at h
      split at h
      · dsimp only at h
        split at h
        · cases h
        · rw [List.mem_singleton.mp h]
          rfl
      · cases h

/-- Only the keywords for fields and for items find violations below the value itself. -/
theorem mem_keywordIssues_cons {step : Step} :
    ⟨step :: path, message⟩ ∈ keywordIssues names k v ↔
      (∃ fields es name schema x, k = .properties fields ∧ v = .dict es ∧ step = .field name ∧
        (name, schema) ∈ fields ∧ Value.field? name es = some x ∧
          ⟨path, message⟩ ∈ violations schema x) ∨
      ∃ item vs index x, k = .items item ∧ v = .list vs ∧ step = .item index ∧
        vs[index]? = some x ∧ ⟨path, message⟩ ∈ violations item x := by
  constructor
  · intro h
    cases k with
    | properties fields =>
        unfold keywordIssues at h
        split at h
        · obtain ⟨⟨name, schema⟩, field, x, there, ⟨_, _⟩, below, ⟨⟩⟩ := mem_fieldIssues.mp h
          exact .inl ⟨fields, _, name, schema, x, rfl, rfl, rfl, field, there, below⟩
        · cases h
    | items item =>
        unfold keywordIssues at h
        split at h
        · obtain ⟨⟨x, index⟩, there, found⟩ := List.mem_flatMap.mp h
          obtain ⟨⟨_, _⟩, below, ⟨⟩⟩ := List.mem_map.mp found
          exact .inr ⟨item, _, index, x, rfl, rfl, rfl, List.mem_zipIdx_iff_getElem?.mp there, below⟩
        · cases h
    | _ => cases path_eq_nil h (fun _ same => by cases same) (fun _ same => by cases same)
  · rintro (⟨fields, es, name, schema, x, rfl, rfl, rfl, field, there, below⟩ |
      ⟨item, vs, index, x, rfl, rfl, rfl, there, below⟩)
    · rw [Value.dict, keywordIssues]
      exact mem_fieldIssues.mpr ⟨_, field, x, there, _, below, rfl⟩
    · rw [Value.list, keywordIssues]
      exact List.mem_flatMap.mpr ⟨(x, index), List.mem_zipIdx_iff_getElem?.mpr there,
        List.mem_map.mpr ⟨_, below, rfl⟩⟩

/-- **A violation is found at its path.** -/
theorem mem_violations_iff :
    ⟨path, message⟩ ∈ s.violations v ↔ ∃ t w, At s v path t w ∧ t.Violates w message := by
  constructor
  · intro h
    -- by induction on the path: its first step enters the field or the item that the violation
    -- is in
    induction path generalizing s v with
    | nil => exact ⟨s, v, .here, mem_violations.mp h⟩
    | cons step path ih =>
        obtain ⟨k, hk, found⟩ := mem_violations.mp h
        rcases mem_keywordIssues_cons.mp found with
          ⟨fields, es, name, schema, x, rfl, rfl, rfl, field, there, below⟩ |
          ⟨item, vs, index, x, rfl, rfl, rfl, there, below⟩
        · obtain ⟨t, w, place, violates⟩ := ih below
          exact ⟨t, w, .field hk field there place, violates⟩
        · obtain ⟨t, w, place, violates⟩ := ih below
          exact ⟨t, w, .item hk there place, violates⟩
  · rintro ⟨t, w, place, violates⟩
    induction place with
    | here => exact mem_violations.mpr violates
    | field hk field there _ ih =>
        exact mem_violations.mpr ⟨_, hk, mem_keywordIssues_cons.mpr
          (.inl ⟨_, _, _, _, _, rfl, rfl, rfl, field, there, ih violates⟩)⟩
    | item hk there _ ih =>
        exact mem_violations.mpr ⟨_, hk, mem_keywordIssues_cons.mpr
          (.inr ⟨_, _, _, _, rfl, rfl, rfl, there, ih violates⟩)⟩

end Schema

/-! ### Pointers of violations -/

namespace SchemaIssue

/-- No name on the way to a violation holds a slash or a tilde. -/
def Plain (i : SchemaIssue) : Prop :=
  ∀ name, .field name ∈ i.path → '/' ∉ name.toList ∧ '~' ∉ name.toList

variable {i : SchemaIssue} {v w : Value}

theorem pointer_eq (i : SchemaIssue) : i.pointer = Pointer.write (i.path.map Step.text) := by
  rw [pointer, Pointer.write, List.map_map]
  rfl

theorem index_plain {c : Char} (other : c.isDigit = false) (index : Nat) :
    c ∉ (Step.item index).text.toList := by
  intro mem
  have chars : (Step.item index).text.toList = Nat.toDigits 10 index := String.toList_ofList
  rw [chars] at mem
  rw [Nat.isDigit_of_mem_toDigits (by decide) (by decide) mem] at other
  cases other

/-- A pointer holds the texts of its path exactly if its names are plain. -/
theorem read_pointer : Pointer.read i.pointer = some (i.path.map Step.text) ↔ i.Plain := by
  rw [pointer_eq, Pointer.read_write, List.forall_mem_map, Plain]
  constructor
  · exact fun h name mem => h _ mem
  · intro h step mem
    cases step with
    | field name => exact h name mem
    | item index => exact ⟨index_plain rfl index, index_plain rfl index⟩

/-- **A pointer leads to its place exactly if its names are plain.** -/
theorem resolve_pointer (place : v.at? i.path = some w) :
    Pointer.resolve i.pointer v = some (i.path, w) ↔ i.Plain := by
  rw [← read_pointer, Pointer.resolve, Option.bind_eq_some_iff]
  simp only [Pointer.follow_eq_some, place, and_true, exists_eq_right]

end SchemaIssue

namespace Definition

variable {charge : Int} {pathname : String} {contents : Contents} {d : Definition}

/-- **Where the paths of issues point.** Every issue of a parsed definition is found at its
path in the arguments, and its pointer names that path exactly if the names on it are plain.
So plain issues in different places have different pointers. -/
theorem issues_pointers (parsed : parse charge pathname contents = .ok d)
    (arguments : List (Value × Value)) :
    ∃ schema issues, Schema.ofDefinition d = .ok schema ∧ d.issues (.dict arguments) = .ok issues ∧
      (∀ i ∈ issues, ∃ t w, Schema.At schema (.dict arguments) i.path t w ∧
        t.Violates w i.message ∧ (Value.dict arguments).at? i.path = some w ∧
          (Pointer.resolve i.pointer (.dict arguments) = some (i.path, w) ↔ i.Plain)) ∧
      ∀ i ∈ issues, ∀ j ∈ issues, i.Plain → j.Plain → i.pointer = j.pointer → i.path = j.path := by
  obtain ⟨schema, described⟩ := parse_schema parsed
  -- sorting keeps the violations
  have place (i : SchemaIssue) (hi : i ∈ schema.issues (.dict arguments)) :
      ∃ t w, Schema.At schema (.dict arguments) i.path t w ∧ t.Violates w i.message :=
    Schema.mem_violations_iff.mp (List.mem_mergeSort.mp hi)
  refine ⟨schema, _, described, bind_eq_ok.mpr ⟨schema, described, rfl⟩, fun i hi => ?_, ?_⟩
  · obtain ⟨t, w, found, violates⟩ := place i hi
    exact ⟨t, w, found, violates, found.at?, SchemaIssue.resolve_pointer found.at?⟩
  · intro i hi j hj plain plain' same
    obtain ⟨_, w, found, -⟩ := place i hi
    obtain ⟨_, w', found', -⟩ := place j hj
    have here := (SchemaIssue.resolve_pointer found.at?).mpr plain
    rw [same, (SchemaIssue.resolve_pointer found'.at?).mpr plain'] at here
    exact (Prod.mk.inj (Option.some.inj here)).1.symm

/-- A source with an entry that is called like the path to another. -/
def slashedSource : String :=
  "# @param \x7bobject\x7d a\n# @ \x7bstring\x7d x/y\n# @ \x7bobject\x7d x\n" ++
    "# @   \x7bstring\x7d y\ndef f(a): pass\n"

/-- Arguments with a number at both. -/
def slashedArguments : List (Value × Value) :=
  [(.text "a", .record [("x/y", .int 1), ("x", .record [("y", .int 2)])])]

theorem issues_pointers_slashed : ∃ d, parse 1 "f.py" (.text slashedSource) = .ok d ∧
    ∃ issues, d.issues (.dict slashedArguments) = .ok issues ∧ ∀ i ∈ issues, ∃ w,
      (Value.dict slashedArguments).at? i.path = some w ∧
        (Pointer.resolve i.pointer (.dict slashedArguments) = some (i.path, w) ↔ i.Plain) := by
  have succeeds : (parse 1 "f.py" (.text slashedSource)).isOk = true := by decide +kernel
  obtain ⟨d, parsed⟩ := exists_of_isOk succeeds
  obtain ⟨_, issues, -, found, points, -⟩ := issues_pointers parsed slashedArguments
  refine ⟨d, parsed, issues, found, fun i hi => ?_⟩
  obtain ⟨_, w, -, -, place, pointed⟩ := points i hi
  exact ⟨w, place, pointed⟩

/-- **Two issues in different places can have one pointer**, which leads to one of the places
and not to the other. -/
theorem issues_pointers_shared : ∃ d, parse 1 "f.py" (.text slashedSource) = .ok d ∧
    ∃ issues, d.issues (.dict slashedArguments) = .ok issues ∧ ∃ i ∈ issues, ∃ j ∈ issues,
      i.path ≠ j.path ∧ i.pointer = j.pointer ∧
        Pointer.resolve i.pointer (.dict slashedArguments) = some (j.path, .int 2) := by
  have read : ((parse 1 "f.py" (.text slashedSource)).toOption.bind fun d =>
      (Schema.ofDefinition d).toOption.map fun schema =>
        (schema.violations (.dict slashedArguments)).map SchemaIssue.path) =
      some [[.field "a", .field "x/y"], [.field "a", .field "x", .field "y"]] := by
    decide +kernel
  obtain ⟨d, parsed, read⟩ := Option.bind_eq_some_iff.mp read
  obtain ⟨schema, described, paths⟩ := Option.map_eq_some_iff.mp read
  have found : d.issues (.dict slashedArguments) = .ok (schema.issues (.dict slashedArguments)) :=
    bind_eq_ok.mpr ⟨schema, mem_toOption.mp described, rfl⟩
  have exists_issue (path : List Step)
      (mem : path ∈ (schema.violations (.dict slashedArguments)).map SchemaIssue.path) :
      ∃ i ∈ schema.issues (.dict slashedArguments), i.path = path := by
    obtain ⟨i, hi, same⟩ := List.mem_map.mp mem
    exact ⟨i, List.mem_mergeSort.mpr hi, same⟩
  obtain ⟨i, hi, path⟩ := exists_issue [.field "a", .field "x/y"] (by simp [paths])
  obtain ⟨j, hj, path'⟩ := exists_issue [.field "a", .field "x", .field "y"] (by simp [paths])
  have pointer : i.pointer = "/a/x/y" := by
    rw [SchemaIssue.pointer, path]
    rfl
  refine ⟨d, mem_toOption.mp parsed, _, found, i, hi, j, hj, by simp [path, path'], ?_, ?_⟩
  · rw [pointer, SchemaIssue.pointer, path']
    rfl
  · rw [pointer, path']
    rfl

end Definition

end Docsig
