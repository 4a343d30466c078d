import Docsig.Text.Blank
import Mathlib.Data.List.Basic
import Mathlib.Data.List.TakeWhile

/-!
White space around texts and between them.

* `span_iff`: the longest run at the start of a text, and what is left of the text, are the one
  way to cut it where the run has to end.
* `trim_eq_iff`: trimming finds the text that white space stands around.
* `length_expandTabs`: the width of an indentation is its length when tabs are written as
  spaces.
-/

namespace Docsig

/-- The one way to cut a list behind the items at its start that have a property. -/
theorem span_iff {α : Type} {xs run rest : List α} {p : α → Bool} :
    (xs.takeWhile p = run ∧ xs.dropWhile p = rest) ↔
      xs = run ++ rest ∧ (∀ x ∈ run, p x = true) ∧ ∀ x ∈ rest.head?, p x = false := by
  constructor
  · rintro ⟨rfl, rfl⟩
    refine ⟨List.takeWhile_append_dropWhile.symm, List.all_eq_true.mp List.all_takeWhile, ?_⟩
    intro x hx
    have stop := List.head?_dropWhile_not p xs
    rw [Option.mem_def.mp hx] at stop
    simpa using stop
  · rintro ⟨rfl, all, stop⟩
    rw [List.takeWhile_append_of_pos all, List.dropWhile_append_of_pos all]
    cases rest with
    | nil => simp
    | cons x rest =>
        have stop : p x = false := stop x rfl
        simp [stop]

/-- A list is cut where a predicate fails first. -/
theorem span_cut {α : Type} (p : α → Bool) (xs : List α) :
    xs = xs.takeWhile p ++ xs.dropWhile p ∧ (∀ x ∈ xs.takeWhile p, p x = true) ∧
      ∀ x ∈ (xs.dropWhile p).head?, p x = false :=
  span_iff.mp ⟨rfl, rfl⟩

namespace Text

variable {cs before after mid : List Char}

/-! ### Trimming -/

theorem isBlankText_iff : isBlankText cs = true ↔ ∀ c ∈ cs, isBlank c = true := List.all_eq_true

/-- A text starts with the white space that is taken off its start. -/
theorem trimStart_spec (cs : List Char) : ∃ before, cs = before ++ trimStart cs ∧
    isBlankText before = true ∧ ∀ c ∈ (trimStart cs).head?, isBlank c = false :=
  have ⟨cut, blank, stop⟩ := span_cut isBlank cs
  ⟨_, cut, List.all_eq_true.mpr blank, stop⟩

theorem trimStart_append (blank : ∀ c ∈ before, isBlank c = true) (cs : List Char) :
    trimStart (before ++ cs) = trimStart cs :=
  List.dropWhile_append_of_pos blank

theorem trimStart_eq_self (h : ∀ c ∈ cs.head?, isBlank c = false) : trimStart cs = cs :=
  (span_iff.mpr ⟨rfl, by simp, h⟩ : cs.takeWhile isBlank = [] ∧ _).2

/-- A text with no white space at either end. -/
structure Bare (cs : List Char) : Prop where
  first : ∀ c ∈ cs.head?, isBlank c = false
  last : ∀ c ∈ cs.getLast?, isBlank c = false

/-- A text ends with the white space that is taken off its end. -/
theorem trimEnd_spec (cs : List Char) : ∃ after, cs = trimEnd cs ++ after ∧
    isBlankText after = true ∧ ∀ c ∈ (trimEnd cs).getLast?, isBlank c = false := by
  obtain ⟨cut, blank, stop⟩ := span_cut isBlank cs.reverse
  refine ⟨(cs.reverse.takeWhile isBlank).reverse, ?_, ?_, ?_⟩
  · rw [trimEnd, ← List.reverse_append, ← cut, List.reverse_reverse]
  · rw [isBlankText_iff]
    exact fun c hc => blank c (List.mem_reverse.mp hc)
  · rw [trimEnd, List.getLast?_reverse]
    exact stop

/-- White space behind a character that is none is taken off. -/
theorem trimEnd_append (blank : isBlankText after = true)
    (last : ∀ c ∈ mid.getLast?, isBlank c = false) : trimEnd (mid ++ after) = mid := by
  have blank : ∀ c ∈ after.reverse, isBlank c = true := fun c hc =>
    isBlankText_iff.mp blank c (List.mem_reverse.mp hc)
  have stop : ∀ c ∈ mid.reverse.head?, isBlank c = false := by rwa [List.head?_reverse]
  rw [trimEnd, List.reverse_append, (span_iff.mpr ⟨rfl, blank, stop⟩).2, List.reverse_reverse]

/-- What stands in front of a character that is no white space is not taken off. -/
theorem trimEnd_append_cons {c : Char} (h : isBlank c = false) (cs ds : List Char) :
    trimEnd (cs ++ c :: ds) = cs ++ c :: trimEnd ds := by
  obtain ⟨after, cut, blank, last⟩ := trimEnd_spec ds
  have stop : ∀ x ∈ (cs ++ c :: trimEnd ds).getLast?, isBlank x = false := by
    intro x hx
    rw [List.getLast?_append_cons] at hx
    cases kept : trimEnd ds with
    | nil =>
        rw [kept] at hx
        cases hx
        exact h
    | cons d es =>
        rw [kept, List.getLast?_cons_cons] at hx
        exact last x (kept ▸ hx)
  have eq : cs ++ c :: ds = (cs ++ c :: trimEnd ds) ++ after := by
    rw [List.append_assoc, List.cons_append, ← cut]
  rw [eq, trimEnd_append blank stop]

theorem trimEnd_trimEnd (cs : List Char) : trimEnd (trimEnd cs) = trimEnd cs := by
  obtain ⟨-, -, -, last⟩ := trimEnd_spec cs
  have same := @trimEnd_append [] (trimEnd cs) rfl last
  rwa [List.append_nil] at same

/-- **Trimming finds the text that white space stands around.** -/
theorem trim_eq_iff (ne : mid ≠ []) : trim cs = mid ↔
    Bare mid ∧ ∃ before after, cs = before ++ (mid ++ after) ∧ isBlankText before = true ∧
      isBlankText after = true := by
  constructor
  · rintro rfl
    obtain ⟨before, cut, left, first⟩ := trimStart_spec cs
    obtain ⟨after, eq, blank, last⟩ := trimEnd_spec (trimStart cs)
    have head : (trimStart cs).head? = (trim cs).head? :=
      (congrArg List.head? eq).trans (List.head?_append_of_ne_nil _ ne)
    exact ⟨⟨head ▸ first, last⟩, before, after, cut.trans (congrArg _ eq), left, blank⟩
  · rintro ⟨bare, before, after, rfl, left, right⟩
    have first : ∀ c ∈ (mid ++ after).head?, isBlank c = false := by
      rw [List.head?_append_of_ne_nil _ ne]
      exact bare.first
    rw [trim, trimStart_append (isBlankText_iff.mp left), trimStart_eq_self first,
      trimEnd_append right bare.last]

/-- Nothing is left of white space alone. -/
theorem trim_eq_nil_iff : trim cs = [] ↔ isBlankText cs = true := by
  constructor
  · intro empty
    obtain ⟨before, cut, left, -⟩ := trimStart_spec cs
    obtain ⟨after, eq, right, -⟩ := trimEnd_spec (trimStart cs)
    rw [show trimEnd (trimStart cs) = [] from empty, List.nil_append] at eq
    rw [cut, eq, isBlankText, List.all_append]
    exact Bool.and_eq_true_iff.mpr ⟨left, right⟩
  · intro blank
    have none : trimStart cs = [] := List.dropWhile_eq_nil_iff.mpr (isBlankText_iff.mp blank)
    rw [trim, none]
    rfl

/-! ### Tabs -/

/-- A text with every tab written as the spaces up to the next tab stop; the columns start again
after a line end. -/
def expandTabs (stop column : Nat) : List Char → List Char
  | [] => []
  | c :: cs =>
      if c = '\t' then
        let width := stop - column % stop
        List.replicate width ' ' ++ expandTabs stop (column + width) cs
      else c :: expandTabs stop (if c = '\n' ∨ c = '\r' then 0 else column + 1) cs

/-- Every character is as wide as what it is written as. -/
theorem length_expandTabs (stop column : Nat) (cs : List Char) :
    (expandTabs stop column cs).length = widthFrom stop column cs := by
  induction cs generalizing column with
  | nil => rfl
  | cons c cs ih =>
      rw [expandTabs, widthFrom]
      split
      · rw [List.length_append, List.length_replicate, ih]
      · rw [List.length_cons, ih, Nat.add_comm]

/-- **The width of an indentation is its length with its tabs expanded.** -/
theorem indentWidth_eq (cs : List Char) : indentWidth cs = (expandTabs 4 0 cs).length :=
  (length_expandTabs 4 0 cs).symm

end Text

end Docsig
