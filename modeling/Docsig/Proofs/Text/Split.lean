import Docsig.Text.Basic

/-!
Texts between separators.

Splitting a text is splitting a list of characters (`splitAt_eq`), so what the library proves
of lists holds of texts. A text has one part more than it has separators (`splitAt_length`).
-/

namespace Docsig.Text

variable {separator : Char}

/-- Splitting is that of the standard library. -/
theorem splitAt_eq (separator : Char) (cs : List Char) :
    splitAt separator cs = cs.splitOn separator := by
  induction cs with
  | nil => rfl
  | cons c cs ih =>
      rw [splitAt, ih, List.splitOn_cons_eq_if_modifyHead]
      cases parts : cs.splitOn separator with
      | nil => exact absurd parts (List.splitOn_ne_nil _ _)
      | cons part parts => by_cases h : c = separator <;> simp [h]

theorem splitAt_append (cs ds : List Char) :
    splitAt separator (cs ++ separator :: ds) =
      splitAt separator cs ++ splitAt separator ds := by
  rw [splitAt_eq, splitAt_eq, splitAt_eq, List.splitOn_append_cons_self]

theorem splitAt_of_not_mem {cs : List Char} (free : separator ∉ cs) :
    splitAt separator cs = [cs] := by
  rw [splitAt_eq, List.splitOn_eq_singleton free]

/-- There is one part more than there are separators. -/
theorem splitAt_length (cs : List Char) :
    (splitAt separator cs).length = cs.count separator + 1 := by
  rw [splitAt_eq]
  induction cs with
  | nil => rfl
  | cons c cs ih =>
      rw [List.splitOn_cons_eq_if_modifyHead, List.count_cons]
      split
      · rw [List.length_cons, ih]
      · rw [List.length_modifyHead, ih, Nat.add_zero]

end Docsig.Text
