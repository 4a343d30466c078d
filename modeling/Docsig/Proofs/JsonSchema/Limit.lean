import Docsig.Proofs.JsonSchema.Agreement
import Docsig.Types.Sanitize

/-!
The three rules of pagination objects.

A pagination object is described by a schema, checked by the rule of `sanitize` and accepted by
`validate`, and each writes the rule down in its own way. On JSON values the rule of `sanitize`
is what the other two ask for together (`limit_agree`): the schema knows no greatest count, and
the validator takes null for a missing field and lets other fields be. The schema differs from
the rule in nothing but counts beyond the safe integers, and there it does differ:
`limit_unbounded`.
-/

namespace Docsig

variable {v x : Value} {es : List (Value × Value)} {p : Parameter}

/-! ### Counts -/

/-- The bound that the schema of a count does not know: a number above the safe integers does
not keep it. -/
def Value.IsSafe (v : Value) : Prop := Schema.isAbove maxSafeInteger v = false

theorem Schema.admits_count :
    Schema.count.Admits x ↔ JsonKind.integer.has x = true ∧ isBelow 0 x = false := by
  simp [count, admits_iff, keywordIssues]

/-- A count is what its schema admits within the bound. -/
theorem Value.isCount_iff : x.isCount = true ↔ Schema.count.Admits x ∧ x.IsSafe := by
  have low : -maxSafeInteger ≤ 0 := by decide
  rw [Schema.admits_count]
  cases x with
  | int n =>
      simp only [isCount, isInteger, IsSafe, Schema.isAbove, Schema.isBelow, JsonKind.has,
        Bool.and_eq_true, decide_eq_true_eq, decide_eq_false_iff_not, true_and]
      omega
  | float d =>
      -- a double counts by the integer that it is
      cases h : d.integer? with
      | none => simp [isCount, isInteger, JsonKind.has, h]
      | some n =>
          have below := @Double.ltInt_iff n 0 d h
          have above := @Double.gtInt_iff n maxSafeInteger d h
          simp only [isCount, isInteger, IsSafe, Schema.isAbove, Schema.isBelow, JsonKind.has, h,
            Bool.and_eq_true, Bool.not_eq_true', Bool.eq_false_iff, ne_eq, below, above,
            decide_eq_true_eq, Option.isSome_some, true_and]
          omega
  | _ => simp [isCount, isInteger, JsonKind.has]

theorem Value.isInteger_of_isCount (h : x.isCount = true) : x.isInteger = true :=
  (Bool.and_eq_true_iff.mp h).1

theorem Value.isSafe_of_isInteger (h : x.isInteger = true) : x.IsSafe := by
  cases x with
  | int n =>
      simp only [isInteger, Bool.and_eq_true, decide_eq_true_eq] at h
      simpa [IsSafe, Schema.isAbove] using h.2
  | float d =>
      cases found : d.integer? with
      | none => simp [isInteger, found] at h
      | some n =>
          simp only [isInteger, found, Bool.and_eq_true, decide_eq_true_eq] at h
          simpa [IsSafe, Schema.isAbove, Bool.eq_false_iff, Double.gtInt_iff found] using h.2
  | _ => rfl

/-! ### The three rules -/

/-- The names of the pagination fields. -/
def limitNames : List String := ["count", "offset"]

/-- Whatever stands in a pagination field has a property. -/
def LimitFields (post : Value → Prop) (es : List (Value × Value)) : Prop :=
  ∀ name ∈ limitNames, ∀ x, Value.field? name es = some x → post x

/-- No other fields than those of pagination stand in a map. -/
def OnlyLimitFields (es : List (Value × Value)) : Prop :=
  ∀ key ∈ es.map Prod.fst, isLimitField key = true

theorem limitFields_iff {post : Value → Prop} :
    LimitFields post es ↔ (∀ x, Value.field? "count" es = some x → post x) ∧
      ∀ x, Value.field? "offset" es = some x → post x := by
  simp [LimitFields, limitNames]

theorem LimitFields.imp {post post' : Value → Prop} (h : LimitFields post es)
    (imp : ∀ x, post x → post' x) : LimitFields post' es :=
  fun name hname x hx => imp x (h name hname x hx)

theorem onlyLimitFields_iff :
    OnlyLimitFields es ↔ (es.map Prod.fst).filter (fun key => !isLimitField key) = [] := by
  rw [List.filter_eq_nil_iff]
  simp [OnlyLimitFields]

theorem Schema.closedIssues_limit :
    closedIssues ["count", "offset"] (.dict es) = [] ↔ OnlyLimitFields es := by
  have keys : (fun key => !(["count", "offset"].any fun name => Value.same key (.text name))) =
      fun key => !isLimitField key := by
    funext key
    simp [isLimitField]
  unfold closedIssues
  rw [onlyLimitFields_iff, ← keys]
  dsimp only
  rw [ite_eq_left_iff, Bool.not_eq_true, List.isEmpty_eq_false_iff]
  simp

/-- The schema of pagination objects admits open maps of counts under the two names alone. -/
theorem Schema.admits_limit :
    Schema.limit.Admits v ↔ ∃ es, v = .dict es ∧ OnlyLimitFields es ∧
      LimitFields Schema.count.Admits es := by
  rw [Schema.limit, admits_iff]
  cases v with
  | map kind es =>
      cases kind with
      | frozen => simp [keywordIssues, JsonKind.has]
      | dict =>
          have fields : fieldIssues [("count", count), ("offset", count)] es = [] ↔
              LimitFields Schema.count.Admits es := by
            simp [fieldIssues_eq_nil, limitFields_iff]
          simp [keywordIssues, JsonKind.has, fieldNames, fields, closedIssues_limit, and_comm]
  | _ => simp [keywordIssues, JsonKind.has]

/-- A pagination field passes if it is missing or a count. -/
theorem checkLimitField_eq_ok {name : String} :
    checkLimitField name es = .ok () ↔
      ∀ x, Value.field? name es = some x → x.isCount = true := by
  unfold checkLimitField
  cases Value.field? name es with
  | none => simp
  | some x => cases h : x.isCount <;> simp [h]

theorem checkLimit_eq_ok :
    checkLimit v = .ok () ↔ ∃ kind es, v = .map kind es ∧ OnlyLimitFields es ∧
      LimitFields (·.isCount = true) es := by
  cases v with
  | map kind es =>
      simp only [checkLimit]
      split
      · rename_i only
        rw [List.isEmpty_iff, ← onlyLimitFields_iff] at only
        rw [then_eq_ok, checkLimitField_eq_ok, checkLimitField_eq_ok]
        simp [only, limitFields_iff]
      · rename_i more
        rw [List.isEmpty_iff, ← onlyLimitFields_iff] at more
        simp [more]
  | _ => simp [checkLimit]

theorem validate_limit {nested : List Entry} :
    validate (some .limit) v false nested = true ↔ ∃ kind es, v = .map kind es ∧
      LimitFields (fun x => x = .null ∨ x.isInteger = true) es := by
  have null (x : Value) : x.isNull = true ↔ x = .null := by cases x <;> simp [Value.isNull]
  have field (name : String) (es : List (Value × Value)) : Entry.limitFieldOk name es = true ↔
      ∀ x, Value.field? name es = some x → x = .null ∨ x.isInteger = true := by
    unfold Entry.limitFieldOk
    cases Value.field? name es <;> simp [null]
  change Entry.isLimit v = true ↔ _
  cases v with
  | map kind es => simp [Entry.isLimit, limitFields_iff, field]
  | _ => simp [Entry.isLimit]

theorem sanitize_limit {schema : List Entry} :
    sanitize (some .limit) v schema = .ok v ↔ checkLimit v = .ok () := by
  change (checkLimit v >>= fun _ => pure v) = .ok v ↔ _
  rw [then_eq_ok, pure_eq_ok, and_iff_left rfl]

/-! ### Agreement -/

/-- No pagination field of a map lies above the safe integers. -/
def Value.SafeCounts (v : Value) : Prop :=
  ∀ kind es, v = .map kind es → LimitFields Value.IsSafe es

/-- **The rule of pagination objects is their schema up to the safe integers**, and it is what
the schema and the validator ask for together. -/
theorem limit_agree (typed : p.type = Tag.limit.name) (bare : p.hasDefault = false)
    (json : v.IsJson) : ∃ s, Schema.ofParameter p = .ok s ∧
      (sanitize (some .limit) v [] = .ok v ↔ s.Admits v ∧ v.SafeCounts) ∧
      (sanitize (some .limit) v [] = .ok v ↔
        s.Admits v ∧ validate (some .limit) v false [] = true) := by
  have admits : (Schema.finish p .limit Schema.limit).Admits v ↔
      ∃ es, v = .dict es ∧ OnlyLimitFields es ∧ LimitFields Schema.count.Admits es := by
    rw [Schema.admits_finish, bare, Schema.admits_limit]
    simp
  refine ⟨_, Schema.ofParameter_leaf typed rfl, ?_, ?_⟩
  · rw [sanitize_limit, checkLimit_eq_ok, Schema.ofTag, admits]
    constructor
    · rintro ⟨kind, es, rfl, only, counts⟩
      obtain ⟨rfl, -⟩ := json.entries
      refine ⟨⟨es, rfl, only, counts.imp fun x h => (Value.isCount_iff.mp h).1⟩, ?_⟩
      rintro kind es ⟨⟩
      exact counts.imp fun x h => (Value.isCount_iff.mp h).2
    · rintro ⟨⟨es, rfl, only, counts⟩, safe⟩
      refine ⟨.dict, es, rfl, only, fun name hname x hx => ?_⟩
      exact Value.isCount_iff.mpr ⟨counts name hname x hx, safe _ es rfl name hname x hx⟩
  · rw [sanitize_limit, checkLimit_eq_ok, Schema.ofTag, admits, validate_limit]
    constructor
    · rintro ⟨kind, es, rfl, only, counts⟩
      obtain ⟨rfl, -⟩ := json.entries
      refine ⟨⟨es, rfl, only, counts.imp fun x h => (Value.isCount_iff.mp h).1⟩, ?_⟩
      exact ⟨.dict, es, rfl, counts.imp fun x h => .inr (Value.isInteger_of_isCount h)⟩
    · rintro ⟨⟨es, rfl, only, counts⟩, kind, _, ⟨⟩, valid⟩
      refine ⟨.dict, es, rfl, only, fun name hname x hx => ?_⟩
      have admitted := counts name hname x hx
      rcases valid name hname x hx with rfl | integer
      · -- null counts for a missing field to the validator alone
        cases (Schema.admits_count.mp admitted).1
      · exact Value.isCount_iff.mpr ⟨admitted, Value.isSafe_of_isInteger integer⟩

/-- A parameter for a pagination object. -/
def pageParameter : Parameter := { name := "page", type := "object.keyql.limit" }

theorem limit_agree_page : ∃ s, Schema.ofParameter pageParameter = .ok s ∧
    s.Admits (.record [("offset", .float (.finite false 1 1)), ("count", .int 10)]) := by
  obtain ⟨s, hs, -, rule⟩ := @limit_agree
    (.record [("offset", .float (.finite false 1 1)), ("count", .int 10)]) pageParameter rfl rfl
    (by decide)
  exact ⟨s, hs, (rule.mp (by rfl)).1⟩

/-- One more than the greatest safe integer is a count to the schema, and to nothing else. -/
theorem limit_unbounded : ∃ s, Schema.ofParameter pageParameter = .ok s ∧
    s.Admits (.record [("count", .int (maxSafeInteger + 1))]) ∧
    (sanitize (some .limit) (.record [("count", .int (maxSafeInteger + 1))]) []).isOk = false ∧
    validate (some .limit) (.record [("count", .int (maxSafeInteger + 1))]) false [] = false :=
  ⟨_, rfl, by rfl, by decide +kernel, by decide +kernel⟩

end Docsig
