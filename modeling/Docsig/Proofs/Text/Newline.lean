import Docsig.Proofs.Text.Line
import Mathlib.Data.List.Basic

/-!
Conventions for line ends.

`withReturns` and `withPairs` write the line feeds of a text in the two other conventions.
A text that held no carriage return comes back from both when line ends are written alike
(`unifyNewlines_withReturns`, `unifyNewlines_withPairs`), and its lines are the same in all
three (`lines_withReturns`, `lines_withPairs`). Each of the three also ends a line for
`lines` (`lineEnds_le_lines`).
-/

namespace Docsig.Text

variable {cs line : List Char} {c : Char}

/-- A text with a carriage return in place of every line feed. -/
def withReturns (cs : List Char) : List Char := cs.map fun c => if c = '\n' then '\r' else c

/-- A text with a carriage return in front of every line feed. -/
def withPairs (cs : List Char) : List Char :=
  cs.flatMap fun c => if c = '\n' then ['\r', '\n'] else [c]

theorem feed_not_mem_withReturns : '\n' ∉ withReturns cs := by
  intro mem
  obtain ⟨c, -, eq⟩ := List.mem_map.mp mem
  split at eq
  · cases eq
  · contradiction

theorem withPairs_feed (cs : List Char) : withPairs ('\n' :: cs) = '\r' :: '\n' :: withPairs cs :=
  rfl

theorem withPairs_cons (h : c ≠ '\n') (cs : List Char) :
    withPairs (c :: cs) = c :: withPairs cs := by
  rw [withPairs, List.flatMap_cons, if_neg h]
  rfl

theorem withPairs_append (cs ds : List Char) :
    withPairs (cs ++ ds) = withPairs cs ++ withPairs ds :=
  List.flatMap_append

/-! ### Line ends written alike -/

/-- A character in front of anything but a line feed. -/
theorem unifyNewlines_cons (h : ∀ ds, c = '\r' → cs = '\n' :: ds → False) :
    unifyNewlines (c :: cs) = (if c = '\r' then '\n' else c) :: unifyNewlines cs := by
  rw [unifyNewlines]
  exact h

/-- A carriage return makes no pair with what stands in front of it. -/
theorem unifyNewlines_append_return (cs ds : List Char) :
    unifyNewlines (cs ++ '\r' :: ds) = unifyNewlines cs ++ unifyNewlines ('\r' :: ds) := by
  fun_induction unifyNewlines cs with
  | case1 => rfl
  | case2 cs ih => rw [List.cons_append, List.cons_append, unifyNewlines, ih, List.cons_append]
  | case3 c cs noPair ih =>
      rw [List.cons_append, unifyNewlines_cons, ih, List.cons_append]
      intro es back eq
      cases cs with
      | nil => cases eq
      | cons d cs =>
          cases eq
          exact noPair cs back rfl

/-- A text without returns stays as it is. -/
theorem unifyNewlines_plain (h : '\r' ∉ cs) : unifyNewlines cs = cs := by
  induction cs with
  | nil => rfl
  | cons c cs ih =>
      rw [List.mem_cons, not_or] at h
      rw [unifyNewlines_cons fun _ back _ => h.1 back.symm, if_neg (Ne.symm h.1), ih h.2]

theorem unifyNewlines_withReturns (h : '\r' ∉ cs) : unifyNewlines (withReturns cs) = cs := by
  induction cs with
  | nil => rfl
  | cons c cs ih =>
      rw [List.mem_cons, not_or] at h
      have noPair : ∀ ds, withReturns cs ≠ '\n' :: ds := fun ds eq =>
        feed_not_mem_withReturns (eq ▸ List.mem_cons_self)
      rw [withReturns, List.map_cons, ← withReturns, unifyNewlines_cons fun ds _ eq => noPair ds eq,
        ih h.2]
      by_cases feed : c = '\n'
      · simp [feed]
      · simp [feed, Ne.symm h.1]

theorem unifyNewlines_withPairs (h : '\r' ∉ cs) : unifyNewlines (withPairs cs) = cs := by
  induction cs with
  | nil => rfl
  | cons c cs ih =>
      rw [List.mem_cons, not_or] at h
      by_cases feed : c = '\n'
      · rw [feed, withPairs_feed, unifyNewlines, ih h.2]
      · rw [withPairs_cons feed, unifyNewlines_cons fun _ back _ => h.1 back.symm,
          if_neg (Ne.symm h.1), ih h.2]

/-! ### Lines -/

/-- A character in front of anything but a line feed ends its line, or stands on it. -/
theorem linesFrom_cons (h : ∀ ds, c = '\r' → cs = '\n' :: ds → False) :
    linesFrom line (c :: cs) =
      if isLineBreak c then line.reverse :: linesFrom [] cs else linesFrom (c :: line) cs := by
  rw [linesFrom]
  exact h

theorem linesFrom_feed (line cs : List Char) :
    linesFrom line ('\n' :: cs) = line.reverse :: linesFrom [] cs :=
  linesFrom_cons nofun

/-- Lines are cut alike at returns and at line feeds. -/
theorem linesFrom_withReturns :
    ∀ {line}, '\r' ∉ cs → linesFrom line (withReturns cs) = linesFrom line cs := by
  induction cs with
  | nil => exact fun _ => rfl
  | cons c cs ih =>
      intro line h
      rw [List.mem_cons, not_or] at h
      -- no line feed is left, so that no return is half of a pair
      have noPair : ∀ ds, withReturns cs ≠ '\n' :: ds := fun ds eq =>
        feed_not_mem_withReturns (eq ▸ List.mem_cons_self)
      rw [withReturns, List.map_cons, ← withReturns, linesFrom_cons fun ds _ eq => noPair ds eq,
        linesFrom_cons fun _ back _ => h.1 back.symm, ih h.2, ih h.2]
      by_cases feed : c = '\n'
      · subst feed
        rfl
      · rw [if_neg feed]

/-- Lines are cut alike at pairs and at line feeds. -/
theorem linesFrom_withPairs :
    ∀ {line}, '\r' ∉ cs → linesFrom line (withPairs cs) = linesFrom line cs := by
  induction cs with
  | nil => exact fun _ => rfl
  | cons c cs ih =>
      intro line h
      rw [List.mem_cons, not_or] at h
      by_cases feed : c = '\n'
      · rw [feed, withPairs_feed, linesFrom, linesFrom_feed, ih h.2]
      · rw [withPairs_cons feed, linesFrom_cons fun _ back _ => h.1 back.symm,
          linesFrom_cons fun _ back _ => h.1 back.symm, ih h.2, ih h.2]

theorem lines_withReturns (h : '\r' ∉ cs) : lines (withReturns cs) = lines cs :=
  linesFrom_withReturns h

theorem lines_withPairs (h : '\r' ∉ cs) : lines (withPairs cs) = lines cs :=
  linesFrom_withPairs h

/-- A line feed more, after one that ends a line, makes an empty line. -/
theorem linesFrom_append_feed :
    ∀ {line}, '\r' ∉ cs → linesFrom line (cs ++ ['\n'] ++ ['\n']) =
      linesFrom line (cs ++ ['\n']) ++ [[]] := by
  induction cs with
  | nil =>
      intro line _
      rw [List.nil_append, List.singleton_append, linesFrom_feed, linesFrom_feed, linesFrom_feed]
      rfl
  | cons c cs ih =>
      intro line h
      rw [List.mem_cons, not_or] at h
      simp only [List.cons_append]
      rw [linesFrom_cons fun _ back _ => h.1 back.symm,
        linesFrom_cons fun _ back _ => h.1 back.symm]
      split
      · rw [ih h.2]
        rfl
      · exact ih h.2

/-- One more line end behind a last one leaves an empty line. -/
theorem lines_append_feed (h : '\r' ∉ cs) :
    lines (cs ++ ['\n'] ++ ['\n']) = lines (cs ++ ['\n']) ++ [[]] :=
  linesFrom_append_feed h

/-! ### Line ends counted -/

/-- How many lines of a text are ended by a line feed, a carriage return, or the pair of
both. -/
def lineEnds : List Char → Nat
  | [] => 0
  | '\r' :: '\n' :: cs => lineEnds cs + 1
  | c :: cs => if c = '\n' ∨ c = '\r' then lineEnds cs + 1 else lineEnds cs

/-- A text has as many line feeds as line ends once these are unified. -/
theorem count_unifyNewlines (cs : List Char) : (unifyNewlines cs).count '\n' = lineEnds cs := by
  fun_induction unifyNewlines cs with
  | case1 => rfl
  | case2 cs ih => rw [lineEnds, List.count_cons_self, ih]
  | case3 c cs noPair ih =>
      rw [lineEnds]
      · by_cases ends : c = '\n' ∨ c = '\r'
        · have feed : (if c = '\r' then '\n' else c) = '\n' := by
            rcases ends with rfl | rfl <;> rfl
          rw [feed, List.count_cons_self, if_pos ends, ih]
        · rw [not_or] at ends
          rw [if_neg ends.2, List.count_cons_of_ne ends.1, if_neg (not_or.mpr ends), ih]
      · exact noPair

/-- What ends a line by the shorter list of line ends ends one by the longer list. -/
theorem lineEnds_le_linesFrom (line cs : List Char) :
    lineEnds cs ≤ (linesFrom line cs).length := by
  fun_induction linesFrom line cs with
  | case1 => exact Nat.le_refl 0
  | case2 => exact Nat.zero_le _
  | case3 line cs ih => exact Nat.succ_le_succ ih
  | case4 line c cs noPair broken ih =>
      rw [lineEnds]
      · split
        · exact Nat.succ_le_succ ih
        · exact Nat.le_succ_of_le ih
      · exact noPair
  | case5 line c cs noPair unbroken ih =>
      rw [lineEnds]
      · rw [if_neg]
        · exact ih
        · rintro (rfl | rfl) <;> exact unbroken rfl
      · exact noPair

/-- There are no more line ends than lines. -/
theorem lineEnds_le_lines (cs : List Char) : lineEnds cs ≤ (lines cs).length :=
  lineEnds_le_linesFrom [] cs

end Docsig.Text
