import Docsig.Proofs.Json.Text
import Docsig.Proofs.Number.Numeral
import Docsig.Proofs.Result
import Docsig.Proofs.Value.Freeze

/-!
JSON text reads back as the value it was written for.

`Value.IsPlain` are the values that JSON text keeps: null, truth values, integers, texts,
and sequences and maps of them with text keys. Kinds of sequences and maps are forgotten,
so that what is read is the open form.

* `ReadsAs cs v`: wherever a value may end after `cs`, the reader takes `cs` for `v`.
* `readItems_commaSeparated`, `readEntries_commaSeparated`: parts that read as values make
  up a list or an object that reads as those values.
* `exists_write`: a plain value has a text, and that reads as its open form.
* `read_text` is the same for whole documents.
-/

namespace Docsig

/-! ### Plain values -/

namespace Value

instance (es : List (Value × Value)) : Decidable (DistinctKeys es) :=
  inferInstanceAs (Decidable (es.Pairwise _))

/-- Whether a part may stand in a value that JSON text keeps. -/
def isPlainPart : Value → Bool
  | float _ => false
  | bytes _ _ => false
  | map _ es => (es.all fun e => e.1.text?.isSome) && decide (DistinctKeys es)
  | _ => true

/-- A value of null, truth values, integers, texts, sequences, and maps with text keys
that differ. -/
def IsPlain (v : Value) : Prop := ∀ w ∈ v.parts, w.isPlainPart = true

instance (v : Value) : Decidable (IsPlain v) := inferInstanceAs (Decidable (∀ w ∈ v.parts, _))

variable {u v : Value} {kind : MapKind} {es : List (Value × Value)}

theorem IsPlain.inside (h : v.IsPlain) (hu : u ∈ v.inside) : u.IsPlain :=
  fun w hw => h w (parts_of_inside hu hw)

/-- A value is plain if it may be one over what stands in it. -/
theorem IsPlain.node (node : v.isPlainPart = true) (inside : ∀ u ∈ v.inside, u.IsPlain) :
    v.IsPlain := fun w hw => by
  rcases mem_parts.mp hw with rfl | ⟨u, hu, hw⟩
  · exact node
  · exact inside u hu w hw

/-- A value with nothing inside is plain if it may stand in a plain one. -/
theorem IsPlain.leaf (node : v.isPlainPart = true) (empty : v.inside = []) : v.IsPlain :=
  .node node fun _ hu => absurd (empty ▸ hu) List.not_mem_nil

/-- An object with one field is plain if the value of the field is. -/
theorem IsPlain.field (name : String) (h : v.IsPlain) : (dict [(text name, v)]).IsPlain := by
  refine .node rfl fun u hu => ?_
  have cases : u = text name ∨ u = v := by simpa [Value.inside] using hu
  rcases cases with rfl | rfl
  · exact .leaf rfl rfl
  · exact h

theorem eq_text_of_isSome {key : Value} (h : key.text?.isSome = true) : ∃ s, key = text s := by
  cases key with
  | text s => exact ⟨s, rfl⟩
  | _ => cases h

/-- The keys of a plain map are texts that differ. -/
theorem IsPlain.keys (h : (map kind es).IsPlain) :
    (∀ e ∈ es, ∃ s, e.1 = text s) ∧ DistinctKeys es := by
  have node : ((es.all fun e => e.1.text?.isSome) && decide (DistinctKeys es)) = true :=
    h _ (self_mem_parts _)
  obtain ⟨texts, differ⟩ := Bool.and_eq_true_iff.mp node
  exact ⟨fun e he => eq_text_of_isSome (List.all_eq_true.mp texts e he),
    of_decide_eq_true differ⟩

/-- Whether keys differ does not depend on the values under them. -/
theorem distinctKeys_map (f : Value → Value) (h : DistinctKeys es) :
    DistinctKeys (es.map fun e => (e.1, f e.2)) :=
  List.pairwise_map.mpr h

/-- The open form of a plain value is plain. -/
theorem IsPlain.thaw (h : v.IsPlain) : v.thaw.IsPlain := by
  -- by induction on the values inside; only containers change, and their keys stay texts apart
  induction v using nested_induction with
  | step v ih =>
      have node := h v (self_mem_parts v)
      cases v with
      | seq kind xs =>
          rw [Value.thaw, thawAll_eq]
          refine .node rfl fun u hu => ?_
          obtain ⟨x, hx, rfl⟩ := List.mem_map.mp hu
          exact ih x hx (h.inside hx)
      | map kind es =>
          obtain ⟨texts, differ⟩ := h.keys
          rw [Value.thaw, thawEntries_eq]
          refine .node ?_ fun u hu => ?_
          · refine Bool.and_eq_true_iff.mpr ⟨?_, decide_eq_true (distinctKeys_map _ differ)⟩
            rw [List.all_map]
            exact (Bool.and_eq_true_iff.mp node).1
          · obtain ⟨e', he', hu⟩ := List.mem_flatMap.mp hu
            obtain ⟨e, he, rfl⟩ := List.mem_map.mp he'
            simp only [List.mem_cons, List.not_mem_nil, or_false] at hu
            rcases hu with rfl | rfl
            · exact h.inside (key_mem_inside he)
            · have mem : e.2 ∈ (map kind es).inside := value_mem_inside he
              exact ih e.2 mem (h.inside mem)
      | _ => exact h

/-! ### Inserting entries -/

/-- A new key goes to the end. -/
theorem insert_new {key x : Value} (h : ∀ e ∈ es, same e.1 key = false) :
    insert key x es = es ++ [(key, x)] := by
  induction es with
  | nil => rfl
  | cons e es ih =>
      obtain ⟨k, y⟩ := e
      rw [insert, h (k, y) (by simp), if_neg Bool.false_ne_true,
        ih fun e he => h e (by simp [he])]
      rfl

/-- Entries whose keys differ are what inserting them gives. -/
theorem ofEntries_eq (h : DistinctKeys es) : ofEntries es = es := by
  have run : ∀ {more done : List (Value × Value)}, DistinctKeys (done ++ more) →
      more.foldl (fun es e => insert e.1 e.2 es) done = done ++ more := by
    intro more
    induction more with
    | nil => simp
    | cons e more ih =>
        intro done differ
        have fresh : ∀ f ∈ done, same f.1 e.1 = false := fun f hf =>
          (List.pairwise_append.mp differ).2.2 f hf e (by simp)
        rw [List.foldl_cons, insert_new fresh, ih (by simpa using differ)]
        simp
  exact @run es [] h

end Value

namespace Json

variable {cs rest : List Char} {v : Value} {fuel : Nat}

/-! ### Where a value ends -/

/-- A text that nothing before it can run into: it is empty, or starts with a comma or a
closing bracket. -/
def Closes (rest : List Char) : Prop := ∀ c ∈ rest.head?, c = ',' ∨ c = ']' ∨ c = '\x7d'

theorem closes_nil : Closes [] := by simp [Closes]

theorem closes_comma (cs : List Char) : Closes (',' :: cs) := by simp [Closes]

theorem closes_bracket (cs : List Char) : Closes (']' :: cs) := by simp [Closes]

theorem closes_brace (cs : List Char) : Closes ('\x7d' :: cs) := by simp [Closes]

/-- Where a value ends, no number goes on. -/
theorem Closes.no_number (h : Closes rest) :
    rest.head?.any Char.isDigit = false ∧ takeFraction rest = ([], rest) ∧
      takeExponent rest = (none, rest) := by
  cases rest with
  | nil => simp [takeFraction, takeExponent]
  | cons c rest =>
      have first : c = ',' ∨ c = ']' ∨ c = '\x7d' := h c rfl
      rcases first with rfl | rfl | rfl <;> simp [takeFraction, takeExponent]

/-! ### Scalars -/

/-- The digits of a number are read back up to where they end. -/
theorem spanDigits_toDigits (n : Nat) (h : rest.head?.any Char.isDigit = false) :
    spanDigits (Nat.toDigits 10 n ++ rest) = (decimalDigits n, rest) := by
  have digits : ∀ c ∈ Nat.toDigits 10 n, c.isDigit = true := fun c hc =>
    Nat.isDigit_of_mem_toDigits (by decide) (by decide) hc
  have stops : rest.takeWhile Char.isDigit = [] ∧ rest.dropWhile Char.isDigit = rest := by
    cases rest with
    | nil => simp
    | cons c rest =>
        have : c.isDigit = false := h
        simp [this]
  rw [spanDigits, List.takeWhile_append_of_pos digits, List.dropWhile_append_of_pos digits,
    stops.1, stops.2, List.append_nil, decimalDigits]

theorem takeWhole?_toDigits (n : Nat) (h : rest.head?.any Char.isDigit = false) :
    takeWhole? (Nat.toDigits 10 n ++ rest) = some (decimalDigits n, rest) := by
  by_cases zero : n = 0
  · subst zero
    simp [takeWhole?, decimalDigits_of_lt]
  · have other : ∀ tail, Nat.toDigits 10 n ++ rest ≠ '0' :: tail := by
      intro tail eq
      have first := congrArg List.head? eq
      rw [List.head?_append_of_ne_nil _ Nat.toDigits_ne_nil] at first
      exact head?_toDigits zero first
    rw [takeWhole?]
    · rw [spanDigits_toDigits n h]
      simp [decimalDigits_ne_nil]
    · exact other

/-- The digits of a number are read as that number. -/
theorem takeNumber?_toDigits (negative : Bool) (n : Nat) (h : Closes rest) :
    takeNumber? negative (Nat.toDigits 10 n ++ rest) =
      some (.int (Double.signed negative n), rest) := by
  obtain ⟨digit, fraction, exponent⟩ := h.no_number
  rw [takeNumber?, takeWhole?_toDigits n digit]
  simp [fraction, exponent, ofDigits_decimalDigits]

/-- No word is taken for a number. -/
theorem takeWord?_digit {c : Char} (h : c.isDigit = true) (tail : List Char) :
    takeWord? (c :: tail) = none ∧ takeWord? ('-' :: c :: tail) = none := by
  have other : ∀ d : Char, d.isDigit = false → d ≠ c := by
    rintro d hd rfl
    rw [h] at hd
    cases hd
  simp [takeWord?, words, List.isPrefixOf, other 'n' rfl, other 't' rfl, other 'f' rfl,
    other 'N' rfl, other 'I' rfl, other '-' rfl]

/-- A natural number is written with a digit first. -/
theorem exists_toDigits (n : Nat) :
    ∃ c tail, Nat.toDigits 10 n = c :: tail ∧ c.isDigit = true := by
  obtain ⟨c, tail, eq⟩ := List.exists_cons_of_ne_nil (Nat.toDigits_ne_nil (n := n) (b := 10))
  have mem : c ∈ Nat.toDigits 10 n := eq ▸ List.mem_cons_self
  exact ⟨c, tail, eq, Nat.isDigit_of_mem_toDigits (by decide) (by decide) mem⟩

/-- **A written integer reads back.** -/
theorem takeScalar?_writeInt (n : Int) (h : Closes rest) :
    takeScalar? (writeInt n ++ rest) = some (.int n, rest) := by
  obtain ⟨c, tail, digits, digit⟩ := exists_toDigits n.natAbs
  have word := takeWord?_digit digit (tail ++ rest)
  have number : ∀ negative, takeNumber? negative (c :: (tail ++ rest)) =
      some (.int (Double.signed negative n.natAbs), rest) := fun negative => by
    rw [← takeNumber?_toDigits negative n.natAbs h, digits, List.cons_append]
  -- a digit first, so that what is read is neither a word nor a sign
  have noSign : c ≠ '-' := by
    rintro rfl
    cases digit
  rw [writeInt, digits]
  split
  · rename_i below
    rw [List.cons_append, List.cons_append, takeScalar?, word.2]
    simp only [number, Double.signed, if_true]
    congr 3
    omega
  · rename_i above
    rw [List.cons_append, takeScalar?, word.1]
    · simp only [number, Double.signed, Bool.false_eq_true, if_false]
      congr 3
      omega
    · rintro _ eq
      exact noSign (List.cons.inj eq).1

/-! ### Parts of a value -/

/-- A text that starts like a value: not with a space, a bracket that closes or a byte
order mark. -/
def Opens (cs : List Char) : Prop :=
  ∃ c tail, cs = c :: tail ∧ isSpace c = false ∧ c ∉ [']', '\x7d', Char.ofNat 0xFEFF]

theorem Opens.append (h : Opens cs) (more : List Char) : Opens (cs ++ more) := by
  obtain ⟨c, tail, rfl, first⟩ := h
  exact ⟨c, tail ++ more, rfl, first⟩

theorem Opens.skipSpace (h : Opens cs) : skipSpace cs = cs := by
  obtain ⟨c, tail, rfl, space, -⟩ := h
  simp [Json.skipSpace, space]

/-- What starts like a value does not start with a byte order mark. -/
theorem Opens.no_mark (h : Opens cs) : cs.head? ≠ some (Char.ofNat 0xFEFF) := by
  obtain ⟨c, tail, rfl, -, other⟩ := h
  rintro ⟨⟩
  simp at other

/-- One space in front of a value is skipped. -/
theorem Opens.skipSpace_cons (h : Opens cs) : Json.skipSpace (' ' :: cs) = cs :=
  h.skipSpace

/-- A text that is read as a value wherever a value may end after it. -/
structure ReadsAs (cs : List Char) (v : Value) : Prop where
  opens : Opens cs
  read : ∀ {fuel rest}, cs.length ≤ fuel → Closes rest →
    readValue fuel (cs ++ rest) = .ok (v, rest)

/-- A scalar other than a text is read by its own rules. -/
theorem ReadsAs.scalar
    (opens : ∃ c tail, cs = c :: tail ∧ isSpace c = false ∧
      c ∉ [']', '\x7d', Char.ofNat 0xFEFF] ∧ c ∉ ['"', '[', '\x7b'])
    (scalar : ∀ {rest}, Closes rest → takeScalar? (cs ++ rest) = some (v, rest)) :
    ReadsAs cs v := by
  obtain ⟨c, tail, rfl, space, first, other⟩ := opens
  simp only [List.mem_cons, List.not_mem_nil, or_false, not_or] at other
  obtain ⟨quote, list, map⟩ := other
  refine ⟨⟨c, tail, rfl, space, first⟩, fun {fuel rest} bound closes => ?_⟩
  have found := scalar closes
  rw [List.cons_append] at found ⊢
  cases fuel with
  | zero => simp at bound
  | succ fuel =>
      rw [readValue.eq_def]
      simp [quote, list, map, found]

theorem readsAs_null : ReadsAs "null".toList .null :=
  .scalar ⟨_, _, rfl, rfl, by decide, by decide⟩ fun _ => rfl

theorem readsAs_bool (b : Bool) : ReadsAs (writeBool b) (.bool b) := by
  cases b
  · exact .scalar ⟨_, _, rfl, rfl, by decide, by decide⟩ fun _ => rfl
  · exact .scalar ⟨_, _, rfl, rfl, by decide, by decide⟩ fun _ => rfl

theorem readsAs_int (n : Int) : ReadsAs (writeInt n) (.int n) := by
  refine .scalar ?_ fun closes => takeScalar?_writeInt n closes
  obtain ⟨c, tail, digits, digit⟩ := exists_toDigits n.natAbs
  have other : ∀ d : Char, d.isDigit = false → c ≠ d := by
    rintro d hd rfl
    rw [digit] at hd
    cases hd
  rw [writeInt, digits]
  split
  · exact ⟨_, _, rfl, rfl, by decide, by decide⟩
  · refine ⟨_, _, rfl, ?_, ?_, ?_⟩
    · simp [isSpace, other ' ' rfl, other '\t' rfl, other '\n' rfl, other '\r' rfl]
    · simp [other ']' rfl, other '\x7d' rfl, other (Char.ofNat 0xFEFF) rfl]
    · simp [other '"' rfl, other '[' rfl, other '\x7b' rfl]

theorem readsAs_text (s : String) : ReadsAs (writeText s.toList) (.text s) := by
  refine ⟨⟨_, _, rfl, rfl, by decide⟩, fun {fuel rest} bound _ => ?_⟩
  cases fuel with
  | zero => simp [writeText] at bound
  | succ fuel =>
      simp [writeText, readValue, readText_writeText, String.ofList_toList]

/-! ### Parts with commas between them -/

/-- Parts are written one after the other with a comma and a space between. -/
theorem commaSeparated_cons {part : List Char} {parts : List (List Char)} (h : parts ≠ [])
    (tail : List Char) : commaSeparated (part :: parts) ++ tail =
      part ++ ',' :: ' ' :: (commaSeparated parts ++ tail) := by
  cases parts with
  | nil => exact absurd rfl h
  | cons next parts => simp [commaSeparated]

theorem length_commaSeparated_cons {part : List Char} {parts : List (List Char)}
    (h : parts ≠ []) : (commaSeparated (part :: parts)).length =
      part.length + (commaSeparated parts).length + 2 := by
  have whole : (commaSeparated (part :: parts) ++ []).length = _ :=
    congrArg List.length (commaSeparated_cons h [])
  simp only [List.append_nil, List.length_append, List.length_cons] at whole
  omega

theorem opens_commaSeparated {parts : List (List Char)} (filled : parts ≠ [])
    (h : ∀ part ∈ parts, Opens part) : Opens (commaSeparated parts) := by
  match parts, filled with
  | [part], _ => exact h part (by simp)
  | part :: _ :: _, _ => exact (h part (by simp)).append _

/-- Texts that open like values do so with commas between them. -/
theorem opens_of_forall₂ {α : Type} {R : List Char → α → Prop} {parts : List (List Char)}
    {xs : List α} (h : List.Forall₂ R parts xs) (filled : parts ≠ [])
    (opens : ∀ {part x}, R part x → Opens part) : Opens (commaSeparated parts) :=
  opens_commaSeparated filled fun _ hp =>
    have ⟨_, _, reads⟩ := exists_of_mem_left h hp
    opens reads

/-! ### Lists -/

section Items

variable {more : List Char} {vs : List Value}

theorem readItems_last (h : readValue fuel cs = .ok (v, ']' :: rest)) :
    readItems (fuel + 1) cs = .ok ([v], rest) := by
  rw [readItems, h]
  rfl

theorem readItems_more (h : readValue fuel cs = .ok (v, ',' :: more))
    (hm : readItems fuel (skipSpace more) = .ok (vs, rest)) :
    readItems (fuel + 1) cs = .ok (v :: vs, rest) := by
  have comma : skipSpace (',' :: more) = ',' :: more := rfl
  rw [readItems, h, ok_bind]
  simp only [comma, hm]
  rfl

/-- Texts that read as values, with commas between them, read as the items of a list. -/
theorem readItems_commaSeparated {parts : List (List Char)} (h : List.Forall₂ ReadsAs parts vs)
    (filled : parts ≠ []) : ∀ {fuel}, (commaSeparated parts).length < fuel →
      readItems fuel (commaSeparated parts ++ ']' :: rest) = .ok (vs, rest) := by
  -- by induction on the parts: the first one is read up to its comma, or up to the bracket if
  -- it is the last
  induction h with
  | nil => exact absurd rfl filled
  | @cons part v parts vs first others ih =>
      intro fuel bound
      obtain ⟨fuel, rfl⟩ := Nat.exists_eq_succ_of_ne_zero (Nat.ne_zero_of_lt bound)
      by_cases last : parts = []
      · subst last
        cases others
        rw [commaSeparated] at bound ⊢
        exact readItems_last (first.read (by omega) (closes_bracket rest))
      · have opens := opens_of_forall₂ others last ReadsAs.opens
        rw [length_commaSeparated_cons last] at bound
        rw [commaSeparated_cons last]
        refine readItems_more (first.read (by omega) (closes_comma _)) ?_
        rw [(opens.append _).skipSpace_cons]
        exact ih last (by omega)

/-- A list is read after its bracket if its items are. -/
theorem readValue_list (h : Opens cs) (items : readItems fuel cs = .ok (vs, rest)) :
    readValue (fuel + 1) ('[' :: cs) = .ok (.list vs, rest) := by
  rw [readValue, h.skipSpace]
  obtain ⟨c, tail, rfl, -, other⟩ := h
  split
  · rename_i close
    cases close
    simp at other
  · rw [items]
    rfl

/-- Texts that read as values make up a list that reads as those values. -/
theorem readsAs_list {parts : List (List Char)} (h : List.Forall₂ ReadsAs parts vs) :
    ReadsAs ('[' :: (commaSeparated parts ++ [']'])) (.list vs) := by
  refine ⟨⟨_, _, rfl, rfl, by decide⟩, fun {fuel rest} bound _ => ?_⟩
  simp only [List.length_cons, List.length_append, List.length_nil] at bound
  obtain ⟨fuel, rfl⟩ := Nat.exists_eq_succ_of_ne_zero (n := fuel) (by omega)
  by_cases empty : parts = []
  · subst empty
    cases h
    rfl
  · have opens := opens_of_forall₂ h empty ReadsAs.opens
    rw [List.cons_append, List.append_assoc]
    exact readValue_list (opens.append _) (readItems_commaSeparated h empty (by omega))

end Items

/-! ### Objects -/

section Entries

variable {more : List Char} {es : List (Value × Value)} {e : Value × Value} {key : String}

/-- The text of an entry: that of its key, a colon and a space, and that of its value. -/
inductive EntryReadsAs : List Char → Value × Value → Prop
  | entry {key : String} {part : List Char} {v : Value} (reads : ReadsAs part v) :
      EntryReadsAs (writeText key.toList ++ ':' :: ' ' :: part) (.text key, v)

theorem EntryReadsAs.opens (h : EntryReadsAs cs e) : Opens cs := by
  cases h with
  | entry => exact ⟨_, _, rfl, rfl, by decide⟩

/-- A key and its value are read, up to what comes after them. -/
theorem readEntries_cons {part : List Char} (h : ReadsAs part v) (bound : part.length ≤ fuel)
    (closes : Closes rest) :
    readEntries (fuel + 1) (writeText key.toList ++ ':' :: ' ' :: part ++ rest) =
      match skipSpace rest with
      | '\x7d' :: rest => .ok ([(.text key, v)], rest)
      | ',' :: rest => do
          let (es, rest) ← readEntries fuel (skipSpace rest)
          return ((.text key, v) :: es, rest)
      | _ => .error .comma := by
  have text : readText (key.toList.flatMap escapeChar ++ '"' :: ':' :: ' ' :: (part ++ rest)) =
      .ok (key.toList, ':' :: ' ' :: (part ++ rest)) := readText_writeText key.toList
  have colon : skipSpace (':' :: ' ' :: (part ++ rest)) = ':' :: ' ' :: (part ++ rest) := rfl
  simp only [writeText, List.cons_append, List.append_assoc, List.nil_append]
  rw [readEntries, text]
  simp only [ok_bind, colon, (h.opens.append rest).skipSpace_cons, h.read bound closes,
    String.ofList_toList]
  rfl

/-- Texts of entries, with commas between them, read as the entries of an object. -/
theorem readEntries_commaSeparated {parts : List (List Char)}
    (h : List.Forall₂ EntryReadsAs parts es) (filled : parts ≠ []) :
    ∀ {fuel}, (commaSeparated parts).length < fuel →
      readEntries fuel (commaSeparated parts ++ '\x7d' :: rest) = .ok (es, rest) := by
  induction h with
  | nil => exact absurd rfl filled
  | @cons part e parts es first others ih =>
      intro fuel bound
      obtain ⟨fuel, rfl⟩ := Nat.exists_eq_succ_of_ne_zero (Nat.ne_zero_of_lt bound)
      obtain ⟨reads⟩ := first
      by_cases last : parts = []
      · subst last
        cases others
        simp only [commaSeparated, List.length_append, List.length_cons] at bound ⊢
        rw [readEntries_cons reads (by omega) (closes_brace rest)]
        rfl
      · have opens := opens_of_forall₂ others last EntryReadsAs.opens
        rw [length_commaSeparated_cons last, List.length_append, List.length_cons,
          List.length_cons] at bound
        rw [commaSeparated_cons last, readEntries_cons reads (by omega) (closes_comma _)]
        change (readEntries fuel (skipSpace (' ' :: (commaSeparated parts ++ _))) >>= _) = _
        rw [(opens.append _).skipSpace_cons, ih last (by omega)]
        rfl

/-- A map is read after its brace if its entries are. -/
theorem readValue_dict (h : Opens cs) (entries : readEntries fuel cs = .ok (es, rest)) :
    readValue (fuel + 1) ('\x7b' :: cs) = .ok (.dict (Value.ofEntries es), rest) := by
  rw [readValue, h.skipSpace]
  obtain ⟨c, tail, rfl, -, other⟩ := h
  split
  · rename_i close
    cases close
    simp at other
  · rw [entries]
    rfl

/-- Texts of entries whose keys differ make up an object that reads as those entries. -/
theorem readsAs_dict {parts : List (List Char)} (h : List.Forall₂ EntryReadsAs parts es)
    (keys : Value.DistinctKeys es) :
    ReadsAs ('\x7b' :: (commaSeparated parts ++ ['\x7d'])) (.dict es) := by
  refine ⟨⟨_, _, rfl, rfl, by decide⟩, fun {fuel rest} bound _ => ?_⟩
  simp only [List.length_cons, List.length_append, List.length_nil] at bound
  obtain ⟨fuel, rfl⟩ := Nat.exists_eq_succ_of_ne_zero (n := fuel) (by omega)
  by_cases empty : parts = []
  · subst empty
    cases h
    rfl
  · have opens := opens_of_forall₂ h empty EntryReadsAs.opens
    have entries : readEntries fuel (commaSeparated parts ++ '\x7d' :: rest) = .ok (es, rest) :=
      readEntries_commaSeparated h empty (by omega)
    rw [List.cons_append, List.append_assoc]
    rw [List.cons_append, List.nil_append, readValue_dict (opens.append _) entries,
      Value.ofEntries_eq keys]

end Entries

/-! ### Plain values -/

theorem writeItems_eq (xs : List Value) : writeItems xs = xs.mapM write := by
  induction xs with
  | nil => rfl
  | cons x xs ih => rw [writeItems, ih, List.mapM_cons]

/-- Entries under text keys have texts when their values have. -/
theorem exists_writeEntries {es : List (Value × Value)}
    (keys : ∀ e ∈ es, ∃ s, e.1 = .text s)
    (values : ∀ e ∈ es, ∃ part, write e.2 = .ok part ∧ ReadsAs part e.2.thaw) :
    ∃ parts, writeEntries es = .ok parts ∧
      List.Forall₂ EntryReadsAs parts (es.map fun e => (e.1, e.2.thaw)) := by
  induction es with
  | nil => exact ⟨[], rfl, .nil⟩
  | cons e es ih =>
      obtain ⟨key, hkey⟩ := keys e (by simp)
      obtain ⟨part, written, reads⟩ := values e (by simp)
      obtain ⟨parts, others, paired⟩ :=
        ih (fun e he => keys e (by simp [he])) fun e he => values e (by simp [he])
      obtain ⟨_, x⟩ := e
      cases hkey
      refine ⟨(writeText key.toList ++ ':' :: ' ' :: part) :: parts, ?_,
        .cons (.entry reads) paired⟩
      rw [writeEntries, keyText, ok_bind, written, ok_bind, others]
      rfl

/-- **A plain value has a text, and that reads as its open form.** -/
theorem exists_write (h : v.IsPlain) : ∃ cs, write v = .ok cs ∧ ReadsAs cs v.thaw := by
  -- by induction on the values inside: scalars first, then containers by their written parts
  induction v using Value.nested_induction with
  | step v ih =>
      have node := h v (Value.self_mem_parts v)
      cases v with
      | null => exact ⟨_, rfl, readsAs_null⟩
      | bool b => exact ⟨_, rfl, readsAs_bool b⟩
      | int n => exact ⟨_, rfl, readsAs_int n⟩
      | text s => exact ⟨_, rfl, readsAs_text s⟩
      | float d => cases node
      | bytes kind data => cases node
      | seq kind xs =>
          obtain ⟨parts, written, paired⟩ : ∃ parts, xs.mapM write = .ok parts ∧
              List.Forall₂ (fun x part => ReadsAs part x.thaw) xs parts :=
            mapM_exists fun x (hx : x ∈ xs) => ih x hx (h.inside hx)
          rw [write, writeItems_eq, written, Value.thaw, Value.thawAll_eq]
          exact ⟨_, rfl, readsAs_list (List.forall₂_map_right_iff.mpr paired.flip)⟩
      | map kind es =>
          have values : ∀ e ∈ es, ∃ part, write e.2 = .ok part ∧ ReadsAs part e.2.thaw :=
            fun e he =>
              have mem : e.2 ∈ (Value.map kind es).inside := Value.value_mem_inside he
              ih e.2 mem (h.inside mem)
          obtain ⟨parts, written, paired⟩ :=
            exists_writeEntries h.keys.1 values
          rw [write, written, Value.thaw, Value.thawEntries_eq]
          exact ⟨_, rfl, readsAs_dict paired (Value.distinctKeys_map _ h.keys.2)⟩

/-- **A written document reads back** as the open form of what was written. -/
theorem read_text (h : v.IsPlain) :
    ∃ s, text v = .ok s ∧ read s.toList = .ok v.thaw := by
  obtain ⟨cs, written, reads⟩ := exists_write h
  refine ⟨String.ofList cs, by rw [text, written]; rfl, ?_⟩
  have whole : readValue (2 * cs.length + 1) (cs ++ []) = .ok (v.thaw, []) :=
    reads.read (by omega) closes_nil
  rw [List.append_nil] at whole
  rw [String.toList_ofList, read, if_neg reads.opens.no_mark, reads.opens.skipSpace, whole]
  rfl

end Json

end Docsig
