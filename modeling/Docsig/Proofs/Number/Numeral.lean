import Docsig.Number.Numeral
import Mathlib.Data.List.Basic

/-!
Decimal numerals of natural numbers.

`Nat.toDigits 10` writes a number, `ofDigits 10` reads digits, and
`ofDigits_decimalDigits` says that reading what is written gives the number back. A
numeral starts with a zero for the number zero alone.
-/

namespace Docsig

theorem ofDigits_concat (base : Nat) (ds : List Nat) (d : Nat) :
    ofDigits base (ds ++ [d]) = ofDigits base ds * base + d := by
  rw [ofDigits, List.foldl_append]
  rfl

namespace Text

theorem asciiDigit?_digitChar : ∀ d < 10, asciiDigit? d.digitChar = some d := by
  decide

end Text

/-- The values of the digits of a number. -/
def decimalDigits (n : Nat) : List Nat := (Nat.toDigits 10 n).filterMap Text.asciiDigit?

theorem decimalDigits_of_lt {n : Nat} (h : n < 10) : decimalDigits n = [n] := by
  rw [decimalDigits, Nat.toDigits_of_lt_base h]
  simp [Text.asciiDigit?_digitChar n h]

/-- The last digit of a number is its remainder by ten. -/
theorem decimalDigits_of_le {n : Nat} (h : 10 ≤ n) :
    decimalDigits n = decimalDigits (n / 10) ++ [n % 10] := by
  rw [decimalDigits, Nat.toDigits_of_base_le (by decide) h, List.filterMap_append]
  simp [decimalDigits, Text.asciiDigit?_digitChar (n % 10) (Nat.mod_lt _ (by decide))]

/-- **The digits of a number write it.** -/
theorem ofDigits_decimalDigits (n : Nat) : ofDigits 10 (decimalDigits n) = n := by
  induction n using Nat.strongRecOn with
  | ind n ih =>
      rcases Nat.lt_or_ge n 10 with small | large
      · rw [decimalDigits_of_lt small]
        simp [ofDigits]
      · rw [decimalDigits_of_le large, ofDigits_concat, ih (n / 10) (by omega)]
        omega

theorem decimalDigits_ne_nil (n : Nat) : decimalDigits n ≠ [] := by
  rcases Nat.lt_or_ge n 10 with small | large
  · simp [decimalDigits_of_lt small]
  · simp [decimalDigits_of_le large]

/-- Only zero is written with a zero in front. -/
theorem head?_toDigits {n : Nat} (h : n ≠ 0) : (Nat.toDigits 10 n).head? ≠ some '0' := by
  induction n using Nat.strongRecOn with
  | ind n ih =>
      rcases Nat.lt_or_ge n 10 with small | large
      · rw [Nat.toDigits_of_lt_base small]
        simpa using h
      · rw [Nat.toDigits_of_base_le (by decide) large,
          List.head?_append_of_ne_nil _ Nat.toDigits_ne_nil]
        exact ih (n / 10) (by omega) (by omega)

end Docsig
