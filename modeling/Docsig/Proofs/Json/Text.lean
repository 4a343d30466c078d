import Docsig.Json.Reader
import Docsig.Json.Writer
import Mathlib.Data.List.Basic

/-!
JSON texts read back.

A character is written by an escape, by itself, or by its UTF-16 units. The reader
collects numbers first, `charUnits` for one character, and joins surrogate pairs at the
end: `readUnits_escapeChar` is the first half for one character, `joinUnits_charUnits`
the second, and `readText_writeText` is the whole.
-/

namespace Docsig

namespace Text

theorem hexDigit?_hexChar : ∀ d < 16, hexDigit? (hexChar d) = some d := by
  decide

end Text

namespace Json

/-! ### Units -/

/-- The numbers that a reader finds for a character: its code point, or its two
surrogates. -/
def charUnits (c : Char) : List Nat :=
  let n := c.toNat
  if n < 0x10000 then [n]
  else [0xD800 + (n - 0x10000) / 0x400, 0xDC00 + (n - 0x10000) % 0x400]

theorem toNat_ranges (c : Char) :
    c.toNat < 0xD800 ∨ 0xDFFF < c.toNat ∧ c.toNat < 0x110000 :=
  c.valid

/-- Four hexadecimal digits of a number below `0x10000` read back. -/
theorem fourHex?_hexDigits {n : Nat} (h : n < 0x10000) :
    ∃ a b c d, Text.hexDigits 4 n = [a, b, c, d] ∧ fourHex? a b c d = some n := by
  refine ⟨_, _, _, _, rfl, ?_⟩
  simp only [fourHex?, Text.hexDigit?_hexChar _ (Nat.mod_lt _ (by decide : 0 < 16))]
  simp only [bind, Option.bind, pure, Option.some.injEq]
  omega

variable {done : List Nat} {rest : List Char}

/-- An escape by number is read as that number, if anything follows it. -/
theorem readUnits_unitEscape {n : Nat} (h : n < 0x10000) (more : rest ≠ []) :
    readUnits done (unitEscape n ++ rest) = readUnits (n :: done) rest := by
  obtain ⟨a, b, c, d, digits, value⟩ := fourHex?_hexDigits h
  rw [unitEscape, digits]
  simp [readUnits, value, more]

/-- The escape of a character by its units is read back. -/
theorem readUnits_unicodeEscape {c : Char} (more : rest ≠ []) :
    readUnits done (unicodeEscape c ++ rest) = readUnits ((charUnits c).reverse ++ done) rest := by
  have range := toNat_ranges c
  by_cases plane : c.toNat < 0x10000
  · simp only [unicodeEscape, charUnits, if_pos plane]
    exact readUnits_unitEscape plane more
  · simp only [unicodeEscape, charUnits, if_neg plane, List.append_assoc]
    rw [readUnits_unitEscape (by omega) (by simp [unitEscape]),
      readUnits_unitEscape (by omega) more]
    rfl

/-- A letter after a backslash is read as the character it stands for. -/
theorem readUnits_simpleEscape {letter x : Char} (h : simpleEscape? letter = some x) :
    readUnits done ('\\' :: letter :: rest) = readUnits (x.toNat :: done) rest := by
  have other : letter ≠ 'u' := by
    rintro rfl
    cases h
  rw [readUnits, h]
  · rintro _ _ _ _ _ rfl
    contradiction
  · exact other

/-- A character that needs no escape is read as itself. -/
theorem readUnits_plain {c : Char} (quote : c ≠ '"') (backslash : c ≠ '\\')
    (printable : 32 ≤ c.toNat) :
    readUnits done (c :: rest) = readUnits (c.toNat :: done) rest := by
  rw [readUnits, if_neg (Nat.not_lt.mpr printable)]
  · exact quote
  · exact fun escape => (backslash escape).elim
  · exact fun _ _ _ _ _ escape => (backslash escape).elim
  · exact fun _ escape => (backslash escape).elim
  · exact fun _ _ escape => (backslash escape).elim

/-- **What is written for a character is read as its units.** -/
theorem readUnits_escapeChar (c : Char) (more : rest ≠ []) :
    readUnits done (escapeChar c ++ rest) = readUnits ((charUnits c).reverse ++ done) rest := by
  -- a character that has an escape of its own, or none, is one unit
  have small : ∀ {x : Char}, x.toNat < 0x10000 → (charUnits x).reverse ++ done = x.toNat :: done :=
    fun h => by simp [charUnits, h]
  have named : ∀ {letter x : Char}, simpleEscape? letter = some x → x.toNat < 0x10000 →
      readUnits done (['\\', letter] ++ rest) = readUnits ((charUnits x).reverse ++ done) rest :=
    fun h low => by rw [small low]; exact readUnits_simpleEscape h
  have byCode : ∀ {n : Nat}, c.toNat = n → c = Char.ofNat n := fun h => by
    rw [← h, Char.ofNat_toNat]
  unfold escapeChar
  split
  · rename_i h; subst h; exact named rfl (by decide)
  split
  · rename_i h; subst h; exact named rfl (by decide)
  split
  · rename_i h; subst h; exact named rfl (by decide)
  split
  · rename_i h; subst h; exact named rfl (by decide)
  split
  · rename_i h; subst h; exact named rfl (by decide)
  split
  · rename_i h; rw [byCode h]; exact named rfl (by decide)
  split
  · rename_i h; rw [byCode h]; exact named rfl (by decide)
  split
  · rename_i quote backslash _ _ _ _ _ printable
    simp only [Bool.and_eq_true, decide_eq_true_eq] at printable
    rw [small (by omega)]
    exact readUnits_plain quote backslash printable.1
  · exact readUnits_unicodeEscape more

/-! ### Joining -/

theorem joinUnits_cons {n : Nat} (high : isHighSurrogate n = false) (units : List Nat) :
    joinUnits (n :: units) = unitChar n :: joinUnits units := by
  cases units with
  | nil => rfl
  | cons m units => simp [joinUnits, high]

/-- The units of a character are joined to it, whatever follows. -/
theorem joinUnits_charUnits (c : Char) (units : List Nat) :
    joinUnits (charUnits c ++ units) = c :: joinUnits units := by
  have range := toNat_ranges c
  by_cases plane : c.toNat < 0x10000
  · have high : isHighSurrogate c.toNat = false := by
      simp only [isHighSurrogate, Bool.and_eq_false_iff, decide_eq_false_iff_not]
      omega
    have low : isLowSurrogate c.toNat = false := by
      simp only [isLowSurrogate, Bool.and_eq_false_iff, decide_eq_false_iff_not]
      omega
    simp only [charUnits, if_pos plane, List.cons_append, List.nil_append]
    rw [joinUnits_cons high, unitChar, high, low]
    simp
  · have high : isHighSurrogate (0xD800 + (c.toNat - 0x10000) / 0x400) = true := by
      simp only [isHighSurrogate, Bool.and_eq_true, decide_eq_true_eq]
      omega
    have low : isLowSurrogate (0xDC00 + (c.toNat - 0x10000) % 0x400) = true := by
      simp only [isLowSurrogate, Bool.and_eq_true, decide_eq_true_eq]
      omega
    have value : 0x10000 + (0xD800 + (c.toNat - 0x10000) / 0x400 - 0xD800) * 0x400 +
        (0xDC00 + (c.toNat - 0x10000) % 0x400 - 0xDC00) = c.toNat := by
      omega
    simp only [charUnits, if_neg plane, List.cons_append, List.nil_append, joinUnits, high, low,
      Bool.and_self, if_true, pairChar, value, Char.ofNat_toNat]

/-! ### Whole texts -/

/-- An escaped text is read back up to its closing mark. -/
theorem readUnits_escaped (cs : List Char) :
    readUnits done (cs.flatMap escapeChar ++ '"' :: rest) =
      .ok (done.reverse ++ cs.flatMap charUnits, rest) := by
  induction cs generalizing done with
  | nil => simp [readUnits]
  | cons c cs ih =>
      rw [List.flatMap_cons, List.append_assoc, readUnits_escapeChar c (by simp), ih]
      simp

/-- The units of a text are joined to the text. -/
theorem joinUnits_flatMap (cs : List Char) : joinUnits (cs.flatMap charUnits) = cs := by
  induction cs with
  | nil => rfl
  | cons c cs ih => rw [List.flatMap_cons, joinUnits_charUnits, ih]

/-- **A written text reads back**, up to its closing mark. -/
theorem readText_writeText (cs : List Char) :
    readText (cs.flatMap escapeChar ++ '"' :: rest) = .ok (cs, rest) := by
  rw [readText, readUnits_escaped]
  simp [bind, Except.bind, joinUnits_flatMap, pure, Except.pure]

end Json

end Docsig
