import Docsig.Proofs.Number.Spelling
import Docsig.Proofs.Types.Convert

/-!
Integers from texts.

A text that denotes an integer converts to it exactly, whatever the number of its digits and
its exponent. Any other number becomes the nearest double, and the check for an integer then
sees the double and not the number: `validate_converted` says that it is right about the
number unless the number is no integer and the double is one.

* `convert_integer`: what a text of a decimal numeral converts to.
* `validate_converted`: when the check for an integer is right about what was written.
-/

namespace Docsig

variable {s : String} {q : ℚ} {n : Numeral} {r : Value} {d : Double}

/-- An integer in the range in which doubles have all the integers. -/
def IsSafe (q : ℚ) : Prop := ∃ i : Int, q = i ∧ -maxSafeInteger ≤ i ∧ i ≤ maxSafeInteger

namespace Conversion

/-- **A number is read from a text of its numeral**, and from no other. -/
theorem numeral_eq_ok {type : Tag} : numeral type s = .ok n ↔ Numeral.IsText s n := by
  rw [Numeral.isText_iff_read?, numeral]
  constructor
  · intro h
    split at h
    · cases h
    · split at h
      · cases h
      · cases h
      · rename_i number read
        cases h
        exact ⟨read, number⟩
  · rintro ⟨read, number⟩
    have ne : ¬ (Text.trim s.toList).isEmpty = true := by
      intro empty
      rw [List.isEmpty_iff.mp empty] at read
      cases read
    rw [if_neg ne, read]
    cases n with
    | finite => rfl
    | nonFinite => exact absurd rfl number

/-- What a numeral converts to by its value. -/
theorem integer_cases (text : Numeral.IsText s n) :
    (∃ i : Int, n.value = i ∧ integer s = .ok (.int i)) ∨
      (∀ i : Int, n.value ≠ i) ∧
        (|n.value| < Double.overflowBound ∧
            (∃ d, integer s = .ok (.float d) ∧ d.IsNearest n.value) ∨
          Double.overflowBound ≤ |n.value| ∧
            integer s = .error (.outOfRange Tag.integer.name s)) := by
  have read : numeral .integer s = .ok n := numeral_eq_ok.mpr text
  cases n with
  | nonFinite => exact absurd (Numeral.isText_iff.mp text).2 id
  | finite negative c e =>
      rw [integer, read, ok_bind, wholeNumber, ok_bind]
      · cases whole : (Numeral.finite negative c e).integer? with
        | some i => exact .inl ⟨i, Numeral.integer?_eq_some.mp whole, rfl⟩
        | none =>
            have fraction (i : Int) : (Numeral.finite negative c e).value ≠ i := fun value => by
              rw [Numeral.integer?_eq_some.mpr value] at whole
              cases whole
            refine .inr ⟨fraction, ?_⟩
            dsimp only
            rw [nearestDouble]
            · rcases Numeral.toDouble_cases negative c e with ⟨beyond, infinite⟩ | ⟨inside, near⟩
              · rw [infinite]
                exact .inr ⟨beyond, rfl⟩
              · rw [near.finite]
                exact .inl ⟨inside, _, rfl, near⟩
            · rintro ⟨⟩
      · rintro ⟨⟩

end Conversion

open Conversion

/-- What a text of a decimal numeral converts to by its value. -/
theorem convert_integer_cases (h : Numeral.Denotes s q) :
    (∃ i : Int, q = i ∧ convert Tag.integer.name (.text s) = .ok (.int i)) ∨
      (∀ i : Int, q ≠ i) ∧
        (|q| < Double.overflowBound ∧
            (∃ d, convert Tag.integer.name (.text s) = .ok (.float d) ∧ d.IsNearest q) ∨
          Double.overflowBound ≤ |q| ∧
            convert Tag.integer.name (.text s) = .error (.outOfRange Tag.integer.name s)) := by
  obtain ⟨n, text, rfl⟩ := h
  rw [convert_name]
  exact integer_cases text

/-- **An integer is never rounded**: a text of a decimal numeral converts to an integer if its
value is one, and then to this very value. Any other value becomes the nearest double, which
is finite, or is out of range. The text of an integer converts to it, and a numeral may have
`10 ^ 18` digits. -/
theorem convert_integer :
    (∀ s q, Numeral.Denotes s q →
      (∀ i : Int, convert Tag.integer.name (.text s) = .ok (.int i) ↔ q = i) ∧
      ((∀ i : Int, q ≠ i) →
        (|q| < Double.overflowBound →
          ∃ d, convert Tag.integer.name (.text s) = .ok (.float d) ∧ d.IsNearest q) ∧
        (Double.overflowBound ≤ |q| →
          convert Tag.integer.name (.text s) = .error (.outOfRange Tag.integer.name s)))) ∧
    ∀ i : Int, (Nat.toDigits 10 i.natAbs).length ≤ 10 ^ 18 →
      convert Tag.integer.name (.text (toString i)) = .ok (.int i) := by
  -- a double is never an integer value, so a whole numeral is the only source of one
  have exact (s : String) (q : ℚ) (h : Numeral.Denotes s q) (i : Int) :
      convert Tag.integer.name (.text s) = .ok (.int i) ↔ q = i := by
    rcases convert_integer_cases h with ⟨j, rfl, eq⟩ | ⟨fraction, ⟨-, d, eq, -⟩ | ⟨-, eq⟩⟩
    · rw [eq, Except.ok.injEq, Value.int.injEq]
      exact_mod_cast Iff.rfl
    · rw [eq]
      exact ⟨nofun, fun value => absurd value (fraction i)⟩
    · rw [eq]
      exact ⟨nofun, fun value => absurd value (fraction i)⟩
  refine ⟨fun s q h => ⟨exact s q h, fun fraction => ?_⟩, fun i small => ?_⟩
  · rcases convert_integer_cases h with ⟨i, value, -⟩ | ⟨-, ⟨inside, near⟩ | ⟨beyond, eq⟩⟩
    · exact absurd value (fraction i)
    · exact ⟨fun _ => near, fun beyond => absurd inside beyond.not_gt⟩
    · exact ⟨fun inside => absurd inside beyond.not_gt, fun _ => eq⟩
  · exact (exact (toString i) i (Numeral.denotes_toString i small) i).mpr rfl

/-- A text with white space, an underscore, a fraction and an exponent, and a negative integer. -/
theorem convert_integer_written :
    (Numeral.Denotes " 1_2.5e1\n" 125 ∧
      convert Tag.integer.name (.text " 1_2.5e1\n") = .ok (.int 125)) ∧
    convert Tag.integer.name (.text (toString (-7 : Int))) = .ok (.int (-7)) := by
  have read : Numeral.read? (Text.trim " 1_2.5e1\n".toList) = some (.finite false 125 0) := by
    decide +kernel
  have denotes : Numeral.Denotes " 1_2.5e1\n" 125 :=
    ⟨_, Numeral.isText_iff_read?.mpr ⟨read, nofun⟩, by norm_num [Numeral.value, withSign]⟩
  exact ⟨⟨denotes, ((convert_integer.1 _ _ denotes).1 125).mpr (by norm_num)⟩,
    convert_integer.2 (-7) (by decide)⟩

/-! ### The check after the conversion -/

theorem validate_int {i : Int} :
    validate (some .integer) (.int i) false [] = true ↔ IsSafe i := by
  rw [validate_integer, Value.isInteger, Bool.and_eq_true, decide_eq_true_eq, decide_eq_true_eq]
  constructor
  · intro range
    exact ⟨i, rfl, range⟩
  · rintro ⟨j, eq, range⟩
    obtain rfl : i = j := by exact_mod_cast eq
    exact range

theorem validate_double (isFinite : d.isFinite = true) :
    validate (some .integer) (.float d) false [] = true ↔ IsSafe d.toRat := by
  rw [validate_integer, Value.isInteger]
  split
  · rename_i i whole
    rw [(Double.integer?_eq_some isFinite).mp whole, ← validate_int]
    rfl
  · rename_i fraction
    constructor
    · intro accepted
      cases accepted
    · rintro ⟨i, value, -⟩
      rw [(Double.integer?_eq_some isFinite).mpr value] at fraction
      cases fraction

/-- **The check for an integer is right about what was written**, unless that is no integer
and the double nearest to it is one in the safe range: then the check accepts the double. -/
theorem validate_converted (h : convert Tag.integer.name (.text s) = .ok r) :
    ∃ q, Numeral.Denotes s q ∧
      ((validate (some .integer) r false [] = true ↔ IsSafe q) ↔
        ¬ ((∀ i : Int, q ≠ i) ∧ ∃ d, r = .float d ∧ IsSafe d.toRat)) ∧
      ((∀ i : Int, q ≠ i) → ∃ d, r = .float d ∧ d.IsNearest q ∧
        (validate (some .integer) r false [] = true ↔ IsSafe d.toRat)) := by
  have text : ∃ n, Numeral.IsText s n := by
    rw [convert_name] at h
    obtain ⟨n, read, -⟩ := bind_eq_ok.mp h
    exact ⟨n, numeral_eq_ok.mp read⟩
  obtain ⟨n, text⟩ := text
  have denotes : Numeral.Denotes s n.value := ⟨n, text, rfl⟩
  refine ⟨n.value, denotes, ?_⟩
  -- the numeral is whole, or a fraction near a double, or beyond all doubles
  rcases convert_integer_cases denotes with
    ⟨i, value, eq⟩ | ⟨fraction, ⟨-, d, eq, near⟩ | ⟨-, eq⟩⟩
  · obtain rfl := Except.ok.inj (eq.symm.trans h)
    have right : validate (some .integer) (.int i) false [] = true ↔ IsSafe n.value := by
      rw [value]
      exact validate_int
    have whole : ¬ ∀ j : Int, n.value ≠ j := fun none => none i value
    exact ⟨iff_of_true right fun misread => whole misread.1, fun none => absurd none whole⟩
  · obtain rfl := Except.ok.inj (eq.symm.trans h)
    have seen := validate_double near.finite
    have outside : ¬ IsSafe n.value := fun ⟨i, value, _⟩ => fraction i value
    refine ⟨?_, fun _ => ⟨d, rfl, near, seen⟩⟩
    rw [iff_false_right outside, seen, not_iff_not]
    constructor
    · exact fun safe => ⟨fraction, d, rfl, safe⟩
    · rintro ⟨-, d', ⟨⟩, safe⟩
      exact safe
  · rw [h] at eq
    cases eq

/-- A fraction whose double is no integer is refused, and rightly so. -/
theorem validate_converted_fraction :
    convert Tag.integer.name (.text "12.50") =
        .ok (.float (.finite false 7036874417766400 (-49))) ∧
      ∃ q, Numeral.Denotes "12.50" q ∧ ¬ IsSafe q := by
  have converts : convert Tag.integer.name (.text "12.50") =
      .ok (.float (.finite false 7036874417766400 (-49))) := by rfl
  obtain ⟨q, denotes, law, -⟩ := validate_converted converts
  refine ⟨converts, q, denotes, fun safe => ?_⟩
  have accepted := (law.mpr ?_).mpr safe
  · cases accepted
  · rintro ⟨-, d, ⟨⟩, i, value, -⟩
    have whole := (Double.integer?_eq_some rfl).mpr value
    cases whole

/-- Half way between two integers that are doubles, with none between them. -/
theorem validate_misread :
    Numeral.Denotes "4503599627370497.5" (9007199254740995 / 2) ∧ ¬ IsSafe (9007199254740995 / 2) ∧
    convert Tag.integer.name (.text "4503599627370497.5") =
      .ok (.float (.finite false 4503599627370498 0)) ∧
    validate (some .integer) (.float (.finite false 4503599627370498 0)) false [] = true := by
  refine ⟨?_, ?_, by rfl, by decide⟩
  · have read : Numeral.read? (Text.trim "4503599627370497.5".toList) =
        some (.finite false 45035996273704975 (-1)) := by decide +kernel
    exact ⟨_, Numeral.isText_iff_read?.mpr ⟨read, nofun⟩, by norm_num [Numeral.value, withSign]⟩
  · rintro ⟨i, value, -⟩
    rw [div_eq_iff two_ne_zero] at value
    have odd : (9007199254740995 : Int) = i * 2 := by exact_mod_cast value
    omega

end Docsig
