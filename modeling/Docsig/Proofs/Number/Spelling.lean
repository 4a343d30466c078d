import Docsig.Proofs.Number.Rounding
import Docsig.Proofs.Text.Blank

/-!
Decimal numerals and their values.

The grammar of a numeral is given by its parts: a sign, digits of any scripts, a point with
the digits behind it, and an exponent. `Numeral.Writes` says which number the parts make,
and `Numeral.Denotes` which number a text stands for, with white space around the numeral and
underscores anywhere in it. A number is only read within bounds on the exponents of its
first and its last digit.

Each reader takes the longest part it can, and no part starts with a character that could
belong to the one before. So the parts of a numeral are found again, and nothing else is
read: the words for infinity and for no number start with letters.

* `Numeral.read?_eq_some`: what is read as a number is what the grammar has.
* `Numeral.integer?_eq_some`, `Numeral.toDouble_cases`: the integer and the nearest double
  of its value.
* `Numeral.denotes_toString`: the text of an integer denotes it.
-/

namespace Docsig

open Text

/-- Digits, in any scripts, with their values. -/
abbrev Digits (text : List Char) (ds : List Nat) : Prop :=
  List.Forall₂ (fun c d => digit? c = some d) text ds

/-- A sign: without one, and with a plus, a number is not negative. -/
inductive WritesSign : List Char → Bool → Prop
  | absent : WritesSign [] false
  | plus : WritesSign ['+'] false
  | minus : WritesSign ['-'] true

namespace Numeral

/-- A point and the digits behind it, or nothing. -/
inductive WritesFraction : List Char → List Nat → Prop
  | absent : WritesFraction [] []
  | point {text : List Char} {ds : List Nat} (digits : Digits text ds) :
      WritesFraction ('.' :: text) ds

/-- An exponent, or nothing for zero. -/
inductive WritesExponent : List Char → Int → Prop
  | absent : WritesExponent [] 0
  | marked {mark : Char} {sign text : List Char} {negative : Bool} {ds : List Nat}
      (letter : mark = 'e' ∨ mark = 'E') (signed : WritesSign sign negative)
      (digits : Digits text ds) (some : ds ≠ []) :
      WritesExponent (mark :: (sign ++ text)) (Double.signed negative (ofDigits 10 ds))

/-- A decimal numeral by its parts, with a digit before or behind the point. -/
inductive Writes : List Char → Numeral → Prop
  | parts {sign whole fraction exponent : List Char} {negative : Bool} {ws fs : List Nat}
      {e : Int} (signed : WritesSign sign negative) (before : Digits whole ws)
      (behind : WritesFraction fraction fs) (scaled : WritesExponent exponent e)
      (some : ws ++ fs ≠ []) :
      Writes (sign ++ (whole ++ (fraction ++ exponent)))
        (finite negative (ofDigits 10 (ws ++ fs)) (e - fs.length))

/-- The exponents of the first and the last digit are within bounds. -/
def InBounds : Numeral → Prop
  | finite _ c e => e + (Nat.toDigits 10 c).length - 1 ≤ maxExponent ∧ minExponent ≤ e
  | nonFinite => False

def value : Numeral → ℚ
  | finite negative c e => withSign negative (c * 10 ^ e)
  | nonFinite => 0

/-- A text with a numeral, white space around it and underscores in it. -/
def IsText (s : String) (n : Numeral) : Prop :=
  ∃ before body after, s.toList = before ++ (body ++ after) ∧ isBlankText before = true ∧
    isBlankText after = true ∧ Writes (body.filter (· ≠ '_')) n ∧ n.InBounds

/-- A text of a decimal numeral with a value. -/
def Denotes (s : String) (q : ℚ) : Prop := ∃ n, IsText s n ∧ n.value = q

end Numeral

variable {cs rest text : List Char} {ds : List Nat} {c : Char} {d : Nat} {negative : Bool}
  {n : Numeral} {e : Int}

/-! ### Digits -/

theorem asciiDigit?_range (h : asciiDigit? c = some d) : 48 ≤ c.toNat ∧ c.toNat ≤ 57 := by
  unfold asciiDigit? at h
  split at h
  · rename_i range
    simpa [Char.le_def, UInt32.le_iff_toNat_le] using range
  · cases h

/-- A digit is one of ASCII or of a script beyond it. -/
theorem digit?_cases (h : digit? c = some d) :
    48 ≤ c.toNat ∧ c.toNat ≤ 57 ∨ ∃ first ∈ zeros, first ≤ c.toNat ∧ c.toNat < first + 10 := by
  unfold digit? at h
  split at h
  · exact .inl (asciiDigit?_range h)
  · obtain ⟨first, found, -⟩ := Option.map_eq_some_iff.mp h
    have range := List.find?_some found
    rw [Bool.and_eq_true, decide_eq_true_eq, decide_eq_true_eq] at range
    exact .inr ⟨first, List.mem_of_find?_eq_some found, range⟩

/-- Where the digits of the scripts stand among the white space. -/
theorem zeros_between : ∀ first ∈ zeros, 0xA0 < first ∧
    (first + 10 ≤ 0x1680 ∨ 0x1680 < first ∧ first + 10 ≤ 0x2000 ∨ 0x3000 < first) := by
  decide

theorem isBlank_of_digit? (h : digit? c = some d) : isBlank c = false := by
  have outside : 48 ≤ c.toNat ∧ c.toNat ≤ 57 ∨ 0xA0 < c.toNat ∧ (c.toNat < 0x1680 ∨
      0x1680 < c.toNat ∧ c.toNat < 0x2000 ∨ 0x3000 < c.toNat) := by
    rcases digit?_cases h with ascii | ⟨first, mem, low, high⟩
    · exact .inl ascii
    · have between := zeros_between first mem
      omega
  simp only [isBlank, Bool.or_eq_false_iff, Bool.and_eq_false_iff, decide_eq_false_iff_not,
    beq_eq_false_iff_ne]
  omega

theorem ne_sign_of_digit? (h : digit? c = some d) : c ≠ '-' ∧ c ≠ '+' := by
  constructor <;> rintro rfl <;> cases h

/-- No digit is a letter. -/
theorem toLower_of_digit? (h : digit? c = some d) : c.toLower = c := by
  have range := digit?_cases h
  refine dif_neg fun upper => ?_
  obtain ⟨low, high⟩ : 65 ≤ c.toNat ∧ c.toNat ≤ 90 := by
    simpa [UInt32.le_iff_toNat_le] using upper
  rcases range with ascii | ⟨first, mem, least, -⟩
  · omega
  · have between := zeros_between first mem
    omega

theorem Digits.head (digits : Digits text ds) : ∀ c ∈ text.head?, ∃ d, digit? c = some d := by
  cases digits with
  | nil => nofun
  | cons digit _ =>
      rintro c ⟨⟩
      exact ⟨_, digit⟩

theorem Digits.not_blank (digits : Digits text ds) : ∀ c ∈ text, isBlank c = false := by
  induction digits with
  | nil => nofun
  | cons digit _ ih => exact List.forall_mem_cons.mpr ⟨isBlank_of_digit? digit, ih⟩

/-- Digits are taken up to what is none. -/
theorem takeDigits_append (digits : Digits text ds) (stop : ∀ c ∈ rest.head?, digit? c = none) :
    takeDigits (text ++ rest) = (ds, rest) := by
  induction digits with
  | nil =>
      cases rest with
      | nil => rfl
      | cons c rest => simp [takeDigits, stop c rfl]
  | cons digit _ ih => simp [takeDigits, digit, ih]

theorem takeDigits_spec (cs : List Char) :
    ∃ text, cs = text ++ (takeDigits cs).2 ∧ Digits text (takeDigits cs).1 := by
  induction cs with
  | nil => exact ⟨[], rfl, .nil⟩
  | cons c cs ih =>
      rw [takeDigits]
      cases digit : digit? c with
      | none => exact ⟨[], rfl, .nil⟩
      | some d =>
          obtain ⟨text, cut, digits⟩ := ih
          exact ⟨c :: text, congrArg (c :: ·) cut, .cons digit digits⟩

/-! ### Signs -/

theorem WritesSign.not_blank (sign : WritesSign text negative) :
    ∀ c ∈ text, isBlank c = false := by
  cases sign with
  | absent => nofun
  | plus => exact List.forall_mem_singleton.mpr rfl
  | minus => exact List.forall_mem_singleton.mpr rfl

/-- A sign is taken off what does not start with one. -/
theorem takeSign_append (sign : WritesSign text negative)
    (stop : ∀ c ∈ rest.head?, c ≠ '-' ∧ c ≠ '+') : takeSign (text ++ rest) = (negative, rest) := by
  cases sign with
  | absent =>
      rw [List.nil_append]
      unfold takeSign
      split
      · exact absurd rfl (stop '-' rfl).1
      · exact absurd rfl (stop '+' rfl).2
      · rfl
  | plus => rfl
  | minus => rfl

theorem takeSign_spec (cs : List Char) :
    ∃ text, cs = text ++ (takeSign cs).2 ∧ WritesSign text (takeSign cs).1 := by
  unfold takeSign
  split
  · exact ⟨['-'], rfl, .minus⟩
  · exact ⟨['+'], rfl, .plus⟩
  · exact ⟨[], rfl, .absent⟩

namespace Numeral

/-! ### Exponents -/

theorem WritesExponent.not_blank (h : WritesExponent text e) : ∀ c ∈ text, isBlank c = false := by
  cases h with
  | absent => nofun
  | marked letter signed digits _ =>
      refine List.forall_mem_cons.mpr ⟨?_, List.forall_mem_append.mpr
        ⟨signed.not_blank, digits.not_blank⟩⟩
      rcases letter with rfl | rfl <;> rfl

/-- An exponent is no part of the digits in front of it. -/
theorem WritesExponent.stop (h : WritesExponent text e) :
    ∀ c ∈ text.head?, digit? c = none ∧ c ≠ '.' := by
  cases h with
  | absent => nofun
  | marked letter _ _ _ =>
      rintro c ⟨⟩
      rcases letter with rfl | rfl <;> exact ⟨rfl, by decide⟩

/-- An exponent is read if it is written, or is missing. -/
theorem exponentPart?_eq_some : exponentPart? cs = some e ↔ WritesExponent cs e := by
  constructor
  · intro h
    unfold exponentPart? at h
    split at h
    · cases h
      exact .absent
    · rename_i mark tail
      split at h
      · rename_i letter
        obtain ⟨sign, signCut, signed⟩ := takeSign_spec tail
        obtain ⟨text, cut, digits⟩ := takeDigits_spec (takeSign tail).2
        dsimp only at h
        split at h
        · rename_i d ds taken
          cases h
          rw [taken, List.append_nil] at cut
          rw [taken] at digits
          have marked : WritesExponent (mark :: (sign ++ text)) _ :=
            .marked (by simpa using letter) signed digits (List.cons_ne_nil d ds)
          rwa [← cut, ← signCut] at marked
        · cases h
      · cases h
  · intro written
    cases written with
    | absent => rfl
    | marked letter signed digits some =>
        rename_i mark sign text negative ds
        have stop : ∀ c ∈ text.head?, c ≠ '-' ∧ c ≠ '+' := fun c hc => by
          obtain ⟨d, digit⟩ := digits.head c hc
          exact ne_sign_of_digit? digit
        have taken : takeDigits text = (ds, []) := by
          have taken : takeDigits (text ++ []) = (ds, []) := takeDigits_append digits nofun
          rwa [List.append_nil] at taken
        obtain ⟨d, ds, rfl⟩ := List.exists_cons_of_ne_nil some
        rw [exponentPart?, if_pos (by simpa using letter), takeSign_append signed stop]
        dsimp only
        rw [taken]

/-! ### Fractions -/

theorem WritesFraction.not_blank (h : WritesFraction text ds) :
    ∀ c ∈ text, isBlank c = false := by
  cases h with
  | absent => nofun
  | point digits => exact List.forall_mem_cons.mpr ⟨rfl, digits.not_blank⟩

/-- The digits behind a point at the start of a text, and what follows them. -/
def takeFraction (cs : List Char) : List Nat × List Char :=
  match cs with
  | '.' :: cs => takeDigits cs
  | _ => ([], cs)

/-- A fraction is taken up to what is neither a digit nor a point. -/
theorem takeFraction_append (fraction : WritesFraction text ds)
    (stop : ∀ c ∈ rest.head?, digit? c = none ∧ c ≠ '.') :
    takeFraction (text ++ rest) = (ds, rest) := by
  cases fraction with
  | absent =>
      rw [List.nil_append]
      unfold takeFraction
      split
      · exact absurd rfl (stop '.' rfl).2
      · rfl
  | point digits => exact takeDigits_append digits fun c hc => (stop c hc).1

theorem takeFraction_spec (cs : List Char) :
    ∃ text, cs = text ++ (takeFraction cs).2 ∧ WritesFraction text (takeFraction cs).1 := by
  unfold takeFraction
  split
  · rename_i cs
    obtain ⟨text, cut, digits⟩ := takeDigits_spec cs
    exact ⟨'.' :: text, congrArg ('.' :: ·) cut, .point digits⟩
  · exact ⟨[], rfl, .absent⟩

/-! ### Words -/

/-- A character that a numeral without a sign may start with. -/
def Starts (c : Char) : Prop := c = '.' ∨ ∃ d, digit? c = some d

/-- A digit or a point is not a sign. -/
theorem Starts.ne_sign (h : Starts c) : c ≠ '-' ∧ c ≠ '+' := by
  rcases h with rfl | ⟨d, digit⟩
  · decide
  · exact ne_sign_of_digit? digit

theorem Starts.no_letter (h : Starts c) :
    c.toLower ≠ 'i' ∧ c.toLower ≠ 'n' ∧ c.toLower ≠ 's' := by
  rcases h with rfl | ⟨d, digit⟩
  · decide
  · rw [toLower_of_digit? digit]
    refine ⟨?_, ?_, ?_⟩ <;> rintro rfl <;> cases digit

/-- What starts like a numeral is none of the words for infinity and for no number. -/
theorem isSpecial_eq_false (h : ∀ c ∈ cs.head?, Starts c) : isSpecial cs = false := by
  cases cs with
  | nil => rfl
  | cons c cs =>
      obtain ⟨infinity, notNumber, signaling⟩ := (h c rfl).no_letter
      have word : lowered (c :: cs) = c.toLower :: lowered cs := rfl
      rw [isSpecial, word]
      -- only the first letter matters: each special word starts with another
      generalize lowered cs = tail
      generalize c.toLower = first at infinity notNumber signaling
      have other (rest : List Char) : first :: tail ≠ 'i' :: rest := fun eq =>
        infinity (List.cons.inj eq).1
      rw [Bool.or_eq_false_iff, Bool.or_eq_false_iff]
      refine ⟨⟨beq_false_of_ne (other _), beq_false_of_ne (other _)⟩, ?_⟩
      split
      · rename_i eq
        exact absurd (List.cons.inj eq).1 notNumber
      · rename_i eq
        exact absurd (List.cons.inj eq).1 signaling
      · rfl

/-! ### Numerals -/

/-- A numeral without its sign starts with a digit or the point. -/
theorem starts_append {whole fraction tail : List Char} {ws fs : List Nat}
    (before : Digits whole ws) (behind : WritesFraction fraction fs) (some : ws ++ fs ≠ []) :
    ∀ c ∈ (whole ++ (fraction ++ tail)).head?, Starts c := by
  cases before with
  | cons digit _ =>
      rintro c ⟨⟩
      exact .inr ⟨_, digit⟩
  | nil =>
      cases behind with
      | absent => exact absurd rfl some
      | point _ =>
          rintro c ⟨⟩
          exact .inl rfl

/-- What follows the digits in front of the point is no part of them. -/
theorem stop_append {fraction exponent : List Char} {fs : List Nat}
    (behind : WritesFraction fraction fs) (scaled : WritesExponent exponent e) :
    ∀ c ∈ (fraction ++ exponent).head?, digit? c = none := by
  cases behind with
  | absent => exact fun c hc => (scaled.stop c hc).1
  | point _ =>
      rintro c ⟨⟩
      rfl

theorem Writes.not_blank (h : Writes text n) : ∀ c ∈ text, isBlank c = false := by
  cases h with
  | parts signed before behind scaled _ =>
      simp only [List.forall_mem_append]
      exact ⟨signed.not_blank, before.not_blank, behind.not_blank, scaled.not_blank⟩

theorem Writes.ne_nil (h : Writes text n) : text ≠ [] := by
  cases h with
  | parts signed before behind scaled some =>
      simp only [ne_eq, List.append_eq_nil_iff, not_and]
      rintro - rfl rfl
      cases before
      cases behind
      exact absurd rfl some

/-- A numeral is kept if it is within the bounds. -/
theorem bounded?_eq_some {c : Nat} : bounded? negative c e = some n ↔
    n = finite negative c e ∧ n.InBounds := by
  rw [bounded?]
  split
  · rename_i outside
    refine ⟨nofun, ?_⟩
    rintro ⟨rfl, top, least⟩
    simp only [Bool.or_eq_true, decide_eq_true_eq] at outside
    omega
  · rename_i inside
    simp only [Bool.or_eq_true, decide_eq_true_eq, not_or, not_lt] at inside
    constructor
    · rintro ⟨⟩
      exact ⟨rfl, inside⟩
    · rintro ⟨rfl, -⟩
      rfl

/-- A numeral is read part by part. -/
theorem read?_eq (cs : List Char) : read? cs =
    (let (negative, body) := takeSign (cs.filter (· ≠ '_'))
    if isSpecial body then some nonFinite
    else
      let (whole, rest) := takeDigits body
      let (fraction, rest) := takeFraction rest
      if whole.isEmpty && fraction.isEmpty then none
      else do
        let exponent ← exponentPart? rest
        bounded? negative (ofDigits 10 (whole ++ fraction)) (exponent - fraction.length)) :=
  rfl

/-- **What is read as a number is a decimal numeral**, underscores aside. -/
theorem read?_eq_some (number : n ≠ nonFinite) :
    read? cs = some n ↔ Writes (cs.filter (· ≠ '_')) n ∧ n.InBounds := by
  rw [read?_eq]
  generalize cs.filter (· ≠ '_') = text
  constructor
  · -- What each reader takes and what it leaves make up the text that it is given.
    intro h
    obtain ⟨sign, signCut, signed⟩ := takeSign_spec text
    generalize takeSign text = taken at h signCut signed
    obtain ⟨negative, body⟩ := taken
    dsimp only at h signCut signed
    split at h
    · cases h
      exact absurd rfl number
    · obtain ⟨whole, wholeCut, before⟩ := takeDigits_spec body
      generalize takeDigits body = taken at h wholeCut before
      obtain ⟨ws, rest⟩ := taken
      obtain ⟨fraction, fractionCut, behind⟩ := takeFraction_spec rest
      dsimp only at h wholeCut before fractionCut behind
      generalize takeFraction rest = taken at h fractionCut behind
      obtain ⟨fs, tail⟩ := taken
      dsimp only at h fractionCut behind
      split at h
      · cases h
      · rename_i some
        obtain ⟨e, scaled, h⟩ := Option.bind_eq_some_iff.mp h
        obtain ⟨rfl, inBounds⟩ := bounded?_eq_some.mp h
        refine ⟨?_, inBounds⟩
        rw [signCut, wholeCut, fractionCut]
        exact .parts signed before behind (exponentPart?_eq_some.mp scaled) (by simpa using some)
  · -- Each part stops the reader of the one before, so that every reader takes its own part.
    rintro ⟨written, inBounds⟩
    cases written with
    | parts signed before behind scaled some =>
        rename_i sign whole fraction exponent negative ws fs e
        have starts : ∀ c ∈ (whole ++ (fraction ++ exponent)).head?, Starts c :=
          starts_append before behind some
        have digits : (ws.isEmpty && fs.isEmpty) = false := by
          rw [Bool.eq_false_iff]
          intro empty
          simp only [Bool.and_eq_true, List.isEmpty_iff] at empty
          exact some (by rw [empty.1, empty.2]; rfl)
        rw [takeSign_append signed fun c hc => (starts c hc).ne_sign]
        dsimp only
        rw [isSpecial_eq_false starts, if_neg Bool.false_ne_true,
          takeDigits_append before (stop_append behind scaled)]
        dsimp only
        rw [takeFraction_append behind scaled.stop]
        dsimp only
        rw [digits, if_neg Bool.false_ne_true, exponentPart?_eq_some.mpr scaled]
        exact bounded?_eq_some.mpr ⟨rfl, inBounds⟩

/-- The white space around a numeral is all that is trimmed off its text. -/
theorem isText_iff {s : String} : IsText s n ↔
    Writes ((trim s.toList).filter (· ≠ '_')) n ∧ n.InBounds := by
  constructor
  · rintro ⟨before, body, after, eq, left, right, written, inBounds⟩
    have blank : ∀ c ∈ body, isBlank c = false := fun c hc => by
      rcases eq_or_ne c '_' with rfl | other
      · rfl
      · exact written.not_blank c (List.mem_filter.mpr ⟨hc, decide_eq_true other⟩)
    -- what is written holds no white space, and an underscore is none
    have bare : Bare body :=
      ⟨fun c hc => blank c (List.mem_of_mem_head? hc),
        fun c hc => blank c (List.mem_of_mem_getLast? hc)⟩
    have ne : body ≠ [] := by
      rintro rfl
      exact written.ne_nil rfl
    rw [(trim_eq_iff ne).mpr ⟨bare, before, after, eq, left, right⟩]
    exact ⟨written, inBounds⟩
  · rintro ⟨written, inBounds⟩
    have ne : trim s.toList ≠ [] := by
      intro empty
      rw [empty] at written
      exact written.ne_nil rfl
    obtain ⟨-, before, after, eq, left, right⟩ := (trim_eq_iff ne).mp rfl
    exact ⟨before, _, after, eq, left, right, written, inBounds⟩

/-- **A text has the numeral that is read** when the white space around it is trimmed off. -/
theorem isText_iff_read? {s : String} :
    IsText s n ↔ read? (trim s.toList) = some n ∧ n ≠ nonFinite := by
  rw [isText_iff]
  constructor
  · intro written
    have number : n ≠ nonFinite := by
      rintro rfl
      exact written.2
    exact ⟨(read?_eq_some number).mpr written, number⟩
  · rintro ⟨read, number⟩
    exact (read?_eq_some number).mp read

/-! ### Values -/

/-- **The integer of a numeral is its value.** -/
theorem integer?_eq_some {c : Nat} {i : Int} :
    (finite negative c e).integer? = some i ↔ (finite negative c e).value = i := by
  have whole := scaled_eq_intCast (by decide : 0 < 10) negative c e i
  rw [value]
  rw [Nat.cast_ofNat] at whole
  rw [whole, integer?]
  split
  · rename_i zero
    subst zero
    have none : Double.signed negative 0 = 0 := by cases negative <;> rfl
    split <;> simp [none]
  · rename_i nonzero
    split
    · exact Iff.rfl
    · split
      · -- A number with fewer digits than the power has zeros is no multiple of it.
        rename_i below short
        have small : c < 10 ^ (-e).toNat :=
          (Nat.length_toDigits_le_iff (by decide) (by omega)).mp short.le
        rw [Nat.mod_eq_of_lt small, if_neg nonzero]
      · exact Iff.rfl

/-- **The double of a numeral is nearest to its value** or infinite. -/
theorem toDouble_cases (negative : Bool) (c : Nat) (e : Int) :
    (Double.overflowBound ≤ |(finite negative c e).value| ∧
        (finite negative c e).toDouble.isFinite = false) ∨
      (|(finite negative c e).value| < Double.overflowBound ∧
        (finite negative c e).toDouble.IsNearest (finite negative c e).value) := by
  have pos : (0 : ℚ) ≤ c * 10 ^ e := by positivity
  rw [value, abs_withSign, abs_of_nonneg pos, toDouble]
  refine (Double.ofDecimal_cases negative c e).imp_left ?_
  rintro ⟨above, infinite⟩
  rw [infinite]
  exact ⟨above, rfl⟩

/-- A text denotes one number. -/
theorem Denotes.unique {s : String} {q q' : ℚ} (h : Denotes s q) (h' : Denotes s q') : q = q' := by
  obtain ⟨n, text, rfl⟩ := h
  obtain ⟨n', text', rfl⟩ := h'
  have read := (isText_iff_read?.mp text).1
  rw [(isText_iff_read?.mp text').1] at read
  rw [Option.some.inj read]

/-! ### Texts of integers -/

/-- The digits of a natural number write it. -/
theorem digits_toDigits (n : Nat) : Digits (Nat.toDigits 10 n) (decimalDigits n) := by
  have digit (d : Nat) (h : d < 10) : digit? d.digitChar = some d := by
    rw [digit?, if_pos (by revert d; decide), asciiDigit?_digitChar d h]
  induction n using Nat.strongRecOn with
  | ind n ih =>
      rcases Nat.lt_or_ge n 10 with small | large
      · rw [Nat.toDigits_of_lt_base small, decimalDigits_of_lt small]
        exact .cons (digit n small) .nil
      · rw [Nat.toDigits_of_base_le (by decide) large, decimalDigits_of_le large]
        exact List.rel_append (ih (n / 10) (by omega))
          (.cons (digit _ (Nat.mod_lt _ (by decide))) .nil)

/-- The digits of a number behind a sign. -/
theorem isText_signed {sign : List Char} (signed : WritesSign sign negative) (n : Nat)
    (small : (Nat.toDigits 10 n).length ≤ 10 ^ 18) :
    IsText (String.ofList (sign ++ Nat.toDigits 10 n)) (.finite negative n 0) := by
  have written := Writes.parts signed (digits_toDigits n) .absent .absent
    (by simpa using decimalDigits_ne_nil n)
  rw [List.append_nil, List.append_nil, List.append_nil, ofDigits_decimalDigits] at written
  -- neither the sign nor the digits hold an underscore
  have inSign : ∀ c ∈ sign, decide (c ≠ '_') = true := by
    cases signed with
    | absent => nofun
    | plus => exact List.forall_mem_singleton.mpr rfl
    | minus => exact List.forall_mem_singleton.mpr rfl
  have inDigits : ∀ c ∈ Nat.toDigits 10 n, decide (c ≠ '_') = true := fun c hc => by
    have digit := Nat.isDigit_of_mem_toDigits (by decide) (by decide) hc
    refine decide_eq_true ?_
    rintro rfl
    cases digit
  refine ⟨[], sign ++ Nat.toDigits 10 n, [], ?_, rfl, rfl, ?_, ?_⟩
  · rw [String.toList_ofList, List.append_nil, List.nil_append]
  · rw [List.filter_eq_self.mpr (List.forall_mem_append.mpr ⟨inSign, inDigits⟩)]
    exact written
  · constructor
    · rw [maxExponent]
      omega
    · decide

/-- **The text of an integer denotes it**, as far as the bounds on numerals let it be read. -/
theorem denotes_toString (n : Int) (small : (Nat.toDigits 10 n.natAbs).length ≤ 10 ^ 18) :
    Denotes (toString n) n := by
  cases n with
  | ofNat n =>
      refine ⟨.finite false n 0, isText_signed .absent n small, ?_⟩
      simp [value, withSign]
  | negSucc n =>
      refine ⟨.finite true (n + 1) 0, ?_, ?_⟩
      · have text := isText_signed .minus (n + 1) small
        rwa [String.ofList_append] at text
      · simp [value, withSign, Int.negSucc_eq]

end Numeral

end Docsig
