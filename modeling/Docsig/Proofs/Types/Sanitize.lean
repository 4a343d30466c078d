import Docsig.Proofs.JsonSchema.Limit
import Docsig.Types.Convert

/-!
What sanitizing reaches.

A schema and a value are walked together, and a place in this walk is a `Position`: a type
with its schema, and the value there. `Step` goes one level down, into the fields that the
entries of an object name and into the items of an array with one entry, and past null.
`Obeys` is the rule of the type of a position, without regard to what is below it.

* `check_eq_ok`, `check_error`: the check of a position is its own rule and the checks one
  step below it.
* `sanitize_reaches`: a value is returned exactly if every position that is reached obeys its
  rule, and otherwise the violation is that of a position that does not.
-/

namespace Docsig

/-- A type with its schema, and the value that stands in their place. -/
structure Position where
  type : Option Tag
  schema : List Entry
  value : Value

/-- A number whose value is a safe integer from zero on. -/
def Value.Counts (v : Value) : Prop :=
  ∃ n, Conversion.integerOf? v = some n ∧ 0 ≤ n ∧ n ≤ maxSafeInteger

namespace Position

/-- One step down a schema and a value. -/
inductive Step : Position → Position → Prop
  /-- Into a field of an object that an entry names. -/
  | field {schema : List Entry} {kind : MapKind} {fields : List (Value × Value)} {e : Entry}
      {x : Value} : e ∈ schema → Value.lookup? e.name fields = some x → x ≠ .null →
      Step ⟨some .object, schema, .map kind fields⟩ ⟨e.type, e.schema, x⟩
  /-- Into an item of an array whose schema has exactly one entry. -/
  | item {kind : SeqKind} {items : List Value} {e : Entry} {x : Value} : x ∈ items → x ≠ .null →
      Step ⟨some .array, [e], .seq kind items⟩ ⟨e.type, e.schema, x⟩

/-- The rule of the type of a position. Pagination objects are maps with counts under the
names of the pagination fields, query objects are maps, and no other type has a rule. -/
def Obeys : Position → Prop
  | ⟨some .limit, _, v⟩ => ∃ kind fields, v = .map kind fields ∧
      (∀ key ∈ fields.map Prod.fst, key = .text "count" ∨ key = .text "offset") ∧
      LimitFields Value.Counts fields
  | ⟨some .query, _, v⟩ => ∃ kind fields, v = .map kind fields
  | _ => True

/-- What a violation says of a position. -/
inductive Breaks : Position → Violation → Prop
  | notLimit {schema : List Entry} {v : Value} : v.isObject = false →
      Breaks ⟨some .limit, schema, v⟩ (.notObject .limit v)
  | notQuery {schema : List Entry} {v : Value} : v.isObject = false →
      Breaks ⟨some .query, schema, v⟩ (.notObject .query v)
  /-- The names are those of all fields but the pagination fields. -/
  | unknownFields {schema : List Entry} {kind : MapKind} {fields : List (Value × Value)}
      {names : List Value} : names ≠ [] →
      names = (fields.map Prod.fst).filter (fun key => !isLimitField key) →
      Breaks ⟨some .limit, schema, .map kind fields⟩ (.unknownFields names)
  | badField {schema : List Entry} {kind : MapKind} {fields : List (Value × Value)}
      {name : String} {x : Value} : name ∈ limitNames → Value.field? name fields = some x →
      ¬ x.Counts → Breaks ⟨some .limit, schema, .map kind fields⟩ (.badField name x)

/-- The check of a position and everything below it. -/
def check (p : Position) : Except Violation Unit :=
  Entry.check ⟨p.type, .null, false, p.schema, [], none⟩ p.value

variable {p q : Position} {v x : Value} {es : List Entry} {fields : List (Value × Value)}
  {kind : MapKind} {violation : Violation}

/-! ### Rules -/

/-- A count is a safe integer that is not negative, in either form. -/
theorem isCount_eq_true : x.isCount = true ↔ x.Counts := by
  have low : -maxSafeInteger ≤ 0 := by decide
  cases x with
  | int n =>
      simp only [Value.isCount, Value.isInteger, Value.Counts, Conversion.integerOf?,
        Bool.and_eq_true, decide_eq_true_eq, Option.some.injEq, exists_eq_left']
      omega
  | float d =>
      cases h : d.integer? with
      | none => simp [Value.isCount, Value.isInteger, Value.Counts, Conversion.integerOf?, h]
      | some n =>
          have below := @Double.ltInt_iff n 0 d h
          simp only [Value.isCount, Value.isInteger, Value.Counts, Conversion.integerOf?, h,
            Bool.and_eq_true, Bool.not_eq_true', Bool.eq_false_iff, ne_eq, below,
            decide_eq_true_eq, Option.some.injEq, exists_eq_left']
          omega
  | _ => simp [Value.isCount, Value.isInteger, Value.Counts, Conversion.integerOf?]

theorem isLimitField_eq_true {key : Value} :
    isLimitField key = true ↔ key = .text "count" ∨ key = .text "offset" := by
  rw [isLimitField, Bool.or_eq_true, Value.same_text_iff, Value.same_text_iff]

theorem obeys_limit : Obeys ⟨some .limit, es, v⟩ ↔ checkLimit v = .ok () := by
  simp only [Obeys, checkLimit_eq_ok, OnlyLimitFields, isLimitField_eq_true, isCount_eq_true]

theorem obeys_query : Obeys ⟨some .query, es, v⟩ ↔ checkQuery v = .ok () := by
  cases v <;> simp [Obeys, checkQuery, Value.isObject]

/-- A position that breaks its rule does not obey it. -/
theorem Breaks.not_obeys (h : p.Breaks violation) : ¬ p.Obeys := by
  cases h with
  | notLimit other =>
      rintro ⟨kind, fields, rfl, -⟩
      cases other
  | notQuery other =>
      rintro ⟨kind, fields, rfl⟩
      cases other
  | unknownFields ne names =>
      rintro ⟨_, _, ⟨⟩, only, -⟩
      refine ne (names.trans (List.filter_eq_nil_iff.mpr fun key hkey => ?_))
      simp [isLimitField_eq_true.mpr (only key hkey)]
  | badField name found bad =>
      rintro ⟨_, _, ⟨⟩, -, counts⟩
      exact bad (counts _ name _ found)

theorem checkLimitField_error {name : String}
    (h : checkLimitField name fields = .error violation) :
    ∃ x, Value.field? name fields = some x ∧ ¬ x.Counts ∧ violation = .badField name x := by
  unfold checkLimitField at h
  split at h
  · rename_i x found
    split at h
    · cases h
    · rename_i bad
      cases h
      exact ⟨x, found, fun counts => bad (isCount_eq_true.mpr counts), rfl⟩
  · cases h

theorem checkLimit_error (h : checkLimit v = .error violation) :
    Breaks ⟨some .limit, es, v⟩ violation := by
  cases v with
  | map kind fields =>
      simp only [checkLimit] at h
      split at h
      · rcases bind_eq_error.mp h with first | ⟨_, _, second⟩
        · obtain ⟨x, found, bad, rfl⟩ := checkLimitField_error first
          exact .badField (by simp [limitNames]) found bad
        · obtain ⟨x, found, bad, rfl⟩ := checkLimitField_error second
          exact .badField (by simp [limitNames]) found bad
      · rename_i more
        cases h
        exact .unknownFields (fun none => more (List.isEmpty_iff.mpr none)) rfl
  | _ =>
      cases h
      exact .notLimit rfl

theorem checkQuery_error (h : checkQuery v = .error violation) :
    Breaks ⟨some .query, es, v⟩ violation := by
  unfold checkQuery at h
  split at h
  · cases h
  · rename_i other
    cases h
    exact .notQuery (Bool.eq_false_iff.mpr other)

/-! ### One step -/

theorem check_entry (e : Entry) (x : Value) : e.check x = check ⟨e.type, e.schema, x⟩ := by
  cases e
  rfl

theorem checkItems_eq_ok {test : Value → Except Violation Unit} {items : List Value} :
    checkItems test items = .ok () ↔ ∀ x ∈ items, x ≠ .null → test x = .ok () := by
  induction items with
  | nil => simp [checkItems]
  | cons x items ih =>
      rw [List.forall_mem_cons, ← ih]
      cases x with
      | null => simp [checkItems, Value.isNull]
      | _ => simp [checkItems, Value.isNull, then_eq_ok]

/-- A list of items fails with the violation of one of them that is not null. -/
theorem checkItems_error {test : Value → Except Violation Unit} {items : List Value}
    (h : checkItems test items = .error violation) :
    ∃ x ∈ items, x ≠ .null ∧ test x = .error violation := by
  induction items with
  | nil => cases h
  | cons x items ih =>
      have later (fails : checkItems test items = .error violation) :
          ∃ y ∈ x :: items, y ≠ .null ∧ test y = .error violation :=
        have ⟨y, hy, rest⟩ := ih fails
        ⟨y, List.mem_cons_of_mem _ hy, rest⟩
      rw [checkItems] at h
      split at h
      · exact later h
      · rename_i present
        rcases bind_eq_error.mp h with first | ⟨_, _, fails⟩
        · exact ⟨x, List.mem_cons_self, fun null => present (by rw [null]; rfl), first⟩
        · exact later fails

theorem checkFields_eq_ok : Entry.checkFields es (.map kind fields) = .ok () ↔
    ∀ e ∈ es, ∀ x, Value.lookup? e.name fields = some x → x ≠ .null → e.check x = .ok () := by
  induction es with
  | nil => simp [Entry.checkFields]
  | cons e es ih =>
      rw [Entry.checkFields, List.forall_mem_cons, ← ih]
      cases Value.lookup? e.name fields with
      | none => simp
      | some x =>
          cases x with
          | null => simp [Value.isNull]
          | _ => simp [Value.isNull, then_eq_ok]

/-- A map fails with the violation of one of its fields that is not null. -/
theorem checkFields_error (h : Entry.checkFields es (.map kind fields) = .error violation) :
    ∃ e ∈ es, ∃ x, Value.lookup? e.name fields = some x ∧ x ≠ .null ∧
      e.check x = .error violation := by
  induction es with
  | nil => cases h
  | cons e es ih =>
      have later (fails : Entry.checkFields es (.map kind fields) = .error violation) :
          ∃ e' ∈ e :: es, ∃ x, Value.lookup? e'.name fields = some x ∧ x ≠ .null ∧
            e'.check x = .error violation :=
        have ⟨e', he', rest⟩ := ih fails
        ⟨e', List.mem_cons_of_mem _ he', rest⟩
      simp only [Entry.checkFields] at h
      split at h
      · rename_i x found
        split at h
        · exact later h
        · rename_i present
          rcases bind_eq_error.mp h with first | ⟨_, _, fails⟩
          · exact ⟨e, List.mem_cons_self, x, found, fun null => present (by rw [null]; rfl), first⟩
          · exact later fails
      · exact later h

theorem check_object : check ⟨some .object, es, v⟩ = .ok () ↔
    ∀ q, Step ⟨some .object, es, v⟩ q → q.check = .ok () := by
  cases v with
  | map kind fields =>
      change Entry.checkFields es (.map kind fields) = .ok () ↔ _
      rw [checkFields_eq_ok]
      constructor
      · rintro h _ (⟨he, found, present⟩ | _)
        exact check_entry _ _ ▸ h _ he _ found present
      · intro h e he x found present
        exact check_entry e x ▸ h _ (.field he found present)
  | _ =>
      refine ⟨fun _ => nofun, fun _ => ?_⟩
      cases es <;> rfl

theorem check_array : check ⟨some .array, es, v⟩ = .ok () ↔
    ∀ q, Step ⟨some .array, es, v⟩ q → q.check = .ok () := by
  cases v with
  | seq kind items =>
      match es with
      | [] => exact ⟨fun _ => nofun, fun _ => rfl⟩
      | _ :: _ :: _ => exact ⟨fun _ => nofun, fun _ => rfl⟩
      | [e] =>
          change checkItems (fun item => e.check item) items = .ok () ↔ _
          rw [checkItems_eq_ok]
          constructor
          · rintro h _ (_ | ⟨hx, present⟩)
            exact check_entry _ _ ▸ h _ hx present
          · intro h x hx present
            exact check_entry e x ▸ h _ (.item hx present)
  | _ =>
      refine ⟨fun _ => nofun, fun _ => ?_⟩
      cases es <;> rfl

/-- **The check of a position is its own rule and the checks one step below.** -/
theorem check_eq_ok : p.check = .ok () ↔ p.Obeys ∧ ∀ q, Step p q → q.check = .ok () := by
  obtain ⟨type, es, v⟩ := p
  cases type with
  | none => exact ⟨fun _ => ⟨trivial, nofun⟩, fun _ => rfl⟩
  | some tag =>
      cases tag with
      | limit => exact ⟨fun h => ⟨obeys_limit.mpr h, nofun⟩, fun h => obeys_limit.mp h.1⟩
      | query => exact ⟨fun h => ⟨obeys_query.mpr h, nofun⟩, fun h => obeys_query.mp h.1⟩
      | object => exact check_object.trans (iff_and_self.mpr fun _ => trivial)
      | array => exact check_array.trans (iff_and_self.mpr fun _ => trivial)
      | _ => exact ⟨fun _ => ⟨trivial, nofun⟩, fun _ => rfl⟩

/-- A violation is of the position itself or of one a step below. -/
theorem check_error (h : p.check = .error violation) :
    p.Breaks violation ∨ ∃ q, Step p q ∧ q.check = .error violation := by
  obtain ⟨type, es, v⟩ := p
  cases type with
  | none => cases h
  | some tag =>
      cases tag with
      | limit => exact .inl (checkLimit_error h)
      | query => exact .inl (checkQuery_error h)
      | object =>
          cases v with
          | map kind fields =>
              obtain ⟨e, he, x, found, present, fails⟩ := checkFields_error h
              exact .inr ⟨_, .field he found present, check_entry e x ▸ fails⟩
          | _ => cases es <;> cases h
      | array =>
          cases v with
          | seq kind items =>
              match es with
              | [] => cases h
              | _ :: _ :: _ => cases h
              | [e] =>
                  obtain ⟨x, hx, present, fails⟩ := checkItems_error h
                  exact .inr ⟨_, .item hx present, check_entry e x ▸ fails⟩
          | _ => cases es <;> cases h
      | _ => cases h

/-! ### The walk -/

theorem Step.inside (h : Step p q) : q.value ∈ p.value.inside := by
  cases h with
  | field _ found _ =>
      obtain ⟨_, mem, _⟩ := Value.mem_of_lookup? found
      exact Value.value_mem_inside mem
  | item hx _ => exact hx

open Relation (ReflTransGen)

/-- **A check passes exactly if every position that is reached obeys its rule.** -/
theorem check_reaches : p.check = .ok () ↔ ∀ q, ReflTransGen Step p q → q.Obeys := by
  obtain ⟨type, es, v⟩ := p
  induction v using Value.nested_induction generalizing type es with
  | step v ih =>
      rw [check_eq_ok, forall_reachable_iff]
      refine and_congr_right fun _ => forall_congr' fun q => imp_congr_right fun hq => ?_
      exact ih q.value hq.inside q.type q.schema

/-- A violation is that of a position that is reached. -/
theorem check_breaks (h : p.check = .error violation) :
    ∃ q, ReflTransGen Step p q ∧ q.Breaks violation := by
  obtain ⟨type, es, v⟩ := p
  induction v using Value.nested_induction generalizing type es with
  | step v ih =>
      rcases check_error h with here | ⟨q, hq, below⟩
      · exact ⟨_, .refl, here⟩
      · obtain ⟨r, path, breaks⟩ := ih q.value hq.inside q.type q.schema below
        exact ⟨r, path.head hq, breaks⟩

end Position

/-- To sanitize a value is to check it. -/
theorem sanitize_eq_check (type : Option Tag) (v : Value) (schema : List Entry) :
    sanitize type v schema = Position.check ⟨type, schema, v⟩ >>= fun _ => pure v := rfl

open Relation (ReflTransGen) in
/-- **Sanitizing reaches every composite below a value and nothing else.** A value is returned
exactly if all positions that are reached from it obey the rules of their types, and it is
returned as it is. Otherwise there is a violation, which is that of a position that is
reached. -/
theorem sanitize_reaches (type : Option Tag) (v : Value) (schema : List Entry) :
    ((∃ w, sanitize type v schema = .ok w) ↔
      ∀ p, ReflTransGen Position.Step ⟨type, schema, v⟩ p → p.Obeys) ∧
    ((∃ violation, sanitize type v schema = .error violation) ↔
      ∃ p, ReflTransGen Position.Step ⟨type, schema, v⟩ p ∧ ¬ p.Obeys) ∧
    (∀ w, sanitize type v schema = .ok w → w = v) ∧
    ∀ violation, sanitize type v schema = .error violation →
      ∃ p, ReflTransGen Position.Step ⟨type, schema, v⟩ p ∧ p.Breaks violation := by
  -- the value comes back as it is, or the check of the outermost position fails
  have returned {w} : sanitize type v schema = .ok w ↔
      Position.check ⟨type, schema, v⟩ = .ok () ∧ v = w := by
    rw [sanitize_eq_check, then_eq_ok, pure_eq_ok, Except.ok.injEq]
  have refused {violation} : sanitize type v schema = .error violation ↔
      Position.check ⟨type, schema, v⟩ = .error violation := by
    rw [sanitize_eq_check, bind_eq_error]
    exact or_iff_left fun ⟨_, _, h⟩ => nomatch h
  have accepted : (∃ w, sanitize type v schema = .ok w) ↔
      ∀ p, ReflTransGen Position.Step ⟨type, schema, v⟩ p → p.Obeys :=
    ⟨fun ⟨_, h⟩ => Position.check_reaches.mp (returned.mp h).1,
      fun h => ⟨v, returned.mpr ⟨Position.check_reaches.mpr h, rfl⟩⟩⟩
  refine ⟨accepted, ?_, fun w h => (returned.mp h).2.symm,
    fun violation h => Position.check_breaks (refused.mp h)⟩
  constructor
  · rintro ⟨violation, h⟩
    obtain ⟨p, path, breaks⟩ := Position.check_breaks (refused.mp h)
    exact ⟨p, path, breaks.not_obeys⟩
  · rintro ⟨p, path, disobeys⟩
    by_contra fine
    exact disobeys (accepted.mp (exists_ok_iff.mpr fine) p path)

open Relation (ReflTransGen) in
/-- A negative count in a nested pagination object is found. -/
theorem sanitize_reaches_nested :
    ∃ p, ReflTransGen Position.Step
        ⟨some .object, [⟨some .limit, .text "page", false, [], [], none⟩],
          .record [("page", .record [("count", .int (-1))])]⟩ p ∧
      p.Breaks (.badField "count" (.int (-1))) :=
  (sanitize_reaches _ _ _).2.2.2 _ rfl

end Docsig
