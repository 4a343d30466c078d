import Mathlib.Data.List.Basic

/-!
Indentation as nesting.

An outline is given by the indentations of its lines. A line is nested in the nearest line
above it that is indented less (`parent?`); `children` lists what is nested directly in a
line, or in none, and `level` counts the lines that a line is nested in.

The lemmas take an outline apart in the two ways in which reading does: a line in front of
what is nested in it (`parent?_cons`), and a part in front of another that starts with a line
indented no more than all of the first (`parent?_append_right`).
-/

namespace Docsig.Outline

variable {ns ms : List Nat} {n bound i j k : Nat}

/-! ### Parents -/

/-- The indentation of a line; there is none below the last. -/
def indentAt (ns : List Nat) (i : Nat) : Nat := ns.getD i 0

/-- The last of the first `i` lines that is indented less than a bound. -/
def lastBelow? (ns : List Nat) (bound : Nat) : Nat → Option Nat
  | 0 => none
  | i + 1 => if indentAt ns i < bound then some i else lastBelow? ns bound i

/-- The line that a line is nested in: the nearest above it that is indented less. -/
def parent? (ns : List Nat) (i : Nat) : Option Nat := lastBelow? ns (indentAt ns i) i

/-- The lines that are nested directly in a line, or in none. -/
def children (ns : List Nat) (p : Option Nat) : List Nat :=
  (List.range ns.length).filter fun i => parent? ns i = p

/-- The last line above that is less indented: all lines in between are indented as far or
further. -/
theorem lastBelow?_eq_some : lastBelow? ns bound i = some j ↔
    j < i ∧ indentAt ns j < bound ∧ ∀ k, j < k → k < i → bound ≤ indentAt ns k := by
  -- by induction on the line: the one right above is taken, or passed over
  induction i with
  | zero => simp [lastBelow?]
  | succ i ih =>
      rw [lastBelow?]
      split
      · rename_i less
        rw [Option.some.injEq]
        constructor
        · rintro rfl
          exact ⟨by omega, less, by omega⟩
        · rintro ⟨inside, -, far⟩
          by_contra other
          have := far i (by omega) (by omega)
          omega
      · rename_i more
        rw [ih]
        constructor
        · rintro ⟨inside, less, far⟩
          refine ⟨by omega, less, fun k above below => ?_⟩
          rcases Nat.lt_succ_iff_lt_or_eq.mp below with below | rfl
          · exact far k above below
          · omega
        · rintro ⟨inside, less, far⟩
          have : j ≠ i := by
            rintro rfl
            exact more less
          exact ⟨by omega, less, fun k above below => far k above (by omega)⟩

theorem lastBelow?_eq_none : lastBelow? ns bound i = none ↔ ∀ k < i, bound ≤ indentAt ns k := by
  induction i with
  | zero => simp [lastBelow?]
  | succ i ih =>
      rw [lastBelow?]
      split
      · rename_i less
        simp only [reduceCtorEq, false_iff]
        intro all
        have := all i (by omega)
        omega
      · rename_i more
        rw [ih, Nat.forall_lt_succ_right]
        exact ⟨fun all => ⟨all, by omega⟩, fun all => all.1⟩

/-- **A line is nested in the nearest line above it that is indented less.** -/
theorem parent?_eq_some : parent? ns i = some j ↔
    j < i ∧ indentAt ns j < indentAt ns i ∧
      ∀ k, j < k → k < i → indentAt ns i ≤ indentAt ns k :=
  lastBelow?_eq_some

/-- Children are the lines with this parent. -/
theorem mem_children {p : Option Nat} : i ∈ children ns p ↔ i < ns.length ∧ parent? ns i = p := by
  simp [children]

/-! ### Two parts -/

theorem indentAt_append_left (h : i < ns.length) : indentAt (ns ++ ms) i = indentAt ns i := by
  simp [indentAt, List.getElem?_append_left h]

theorem indentAt_append_right : indentAt (ns ++ ms) (ns.length + i) = indentAt ms i := by
  simp [indentAt, List.getElem?_append_right]

theorem lastBelow?_append_left (h : i ≤ ns.length) :
    lastBelow? (ns ++ ms) bound i = lastBelow? ns bound i := by
  induction i with
  | zero => rfl
  | succ i ih => rw [lastBelow?, lastBelow?, ih (by omega), indentAt_append_left (by omega)]

/-- What lies above in the second outline is looked at before the first. -/
theorem lastBelow?_append_right : lastBelow? (ns ++ ms) bound (ns.length + i) =
    ((lastBelow? ms bound i).map (ns.length + ·)).or (lastBelow? ns bound ns.length) := by
  induction i with
  | zero => exact lastBelow?_append_left (Nat.le_refl _)
  | succ i ih =>
      rw [← Nat.add_assoc, lastBelow?, lastBelow?, ih, indentAt_append_right]
      split <;> rfl

theorem parent?_append_left (h : i < ns.length) : parent? (ns ++ ms) i = parent? ns i := by
  rw [parent?, parent?, indentAt_append_left h, lastBelow?_append_left (by omega)]

/-- No line of the second part is nested in one of the first, if the second starts with a
line that is indented no more than all of the first. -/
theorem parent?_append_right (h : ∀ m ∈ ms.head?, ∀ n ∈ ns, m ≤ n) :
    parent? (ns ++ ms) (ns.length + i) = (parent? ms i).map (ns.length + ·) := by
  rw [parent?, parent?, indentAt_append_right, lastBelow?_append_right]
  cases none : lastBelow? ms (indentAt ms i) i with
  | some j => rfl
  | none =>
      rw [Option.map_none, Option.none_or, lastBelow?_eq_none]
      rw [lastBelow?_eq_none] at none
      intro k below
      have first : indentAt ms i ≤ indentAt ms 0 := by
        cases i with
        | zero => exact Nat.le_refl _
        | succ i => exact none 0 (Nat.succ_pos i)
      cases ms with
      | nil => simp [indentAt]
      | cons m ms =>
          have least := h m rfl (indentAt ns k) (by simp [indentAt, below])
          exact Nat.le_trans first least

/-- What stands below a line and is indented more is nested in it, unless it is nested in a
line between. -/
theorem parent?_cons (h : ∀ m ∈ ms, n < m) (inside : i < ms.length) :
    parent? (n :: ms) (i + 1) = some (((parent? ms i).map (· + 1)).getD 0) := by
  have split := @lastBelow?_append_right [n] ms (indentAt ms i) i
  have indent : indentAt (n :: ms) (i + 1) = indentAt ms i := rfl
  have less : n < indentAt ms i := by
    apply h
    simp [indentAt, inside]
  rw [parent?, parent?, indent]
  simp only [List.singleton_append, List.length_singleton, Nat.add_comm 1] at split
  rw [split]
  cases lastBelow? ms (indentAt ms i) i with
  | some j => simp
  | none =>
      rw [Option.map_none, Option.none_or, Option.getD_none, lastBelow?]
      exact if_pos less

theorem parent?_zero : parent? ns 0 = none := rfl

/-! ### Children -/

/-- The roots of two outlines, the second of which starts no further in, are those of both. -/
theorem children_append_none (h : ∀ m ∈ ms.head?, ∀ n ∈ ns, m ≤ n) :
    children (ns ++ ms) none = children ns none ++ (children ms none).map (ns.length + ·) := by
  rw [children, List.length_append, List.range_add, List.filter_append, List.filter_map]
  congr 1
  · refine List.filter_congr fun i hi => ?_
    rw [parent?_append_left (List.mem_range.mp hi)]
  · refine congrArg _ (List.filter_congr fun i _ => ?_)
    simp [Function.comp, parent?_append_right h]

/-- A line of the first outline has its children there. -/
theorem children_append_left (h : ∀ m ∈ ms.head?, ∀ n ∈ ns, m ≤ n) (inside : i < ns.length) :
    children (ns ++ ms) (some i) = children ns (some i) := by
  rw [children, List.length_append, List.range_add, List.filter_append, List.filter_map]
  have second : (List.range ms.length).filter
      ((fun k => decide (parent? (ns ++ ms) k = some i)) ∘ (ns.length + ·)) = [] := by
    refine List.filter_eq_nil_iff.mpr fun k _ => ?_
    simp only [Function.comp, parent?_append_right h, decide_eq_true_eq]
    intro eq
    obtain ⟨j, -, rfl⟩ := Option.map_eq_some_iff.mp eq
    omega
  rw [second, List.map_nil, List.append_nil]
  refine List.filter_congr fun k hk => ?_
  rw [parent?_append_left (List.mem_range.mp hk)]

/-- A line of the second outline has its children there. -/
theorem children_append_right (h : ∀ m ∈ ms.head?, ∀ n ∈ ns, m ≤ n) :
    children (ns ++ ms) (some (ns.length + i)) = (children ms (some i)).map (ns.length + ·) := by
  rw [children, List.length_append, List.range_add, List.filter_append, List.filter_map]
  -- no line of the first outline has its parent in the second
  have first : (List.range ns.length).filter
      (fun k => decide (parent? (ns ++ ms) k = some (ns.length + i))) = [] := by
    refine List.filter_eq_nil_iff.mpr fun k hk => ?_
    have inside := List.mem_range.mp hk
    rw [parent?_append_left inside, decide_eq_true_eq]
    intro eq
    have := (parent?_eq_some.mp eq).1
    omega
  rw [first, List.nil_append]
  refine congrArg _ (List.filter_congr fun k _ => ?_)
  simp only [Function.comp, parent?_append_right h]
  cases parent? ms k with
  | none => simp
  | some j => simp

/-- A line with all others further in is the one root. -/
theorem children_cons_none (h : ∀ m ∈ ms, n < m) : children (n :: ms) none = [0] := by
  rw [children, List.length_cons, List.range_succ_eq_map, List.filter_cons_of_pos (by rfl),
    List.filter_map]
  have below : (List.range ms.length).filter
      ((fun k => decide (parent? (n :: ms) k = none)) ∘ Nat.succ) = [] := by
    refine List.filter_eq_nil_iff.mpr fun k hk => ?_
    simp [Function.comp, parent?_cons h (List.mem_range.mp hk)]
  rw [below, List.map_nil]

/-- The roots further in are the children of the line above them. -/
theorem children_cons_zero (h : ∀ m ∈ ms, n < m) :
    children (n :: ms) (some 0) = (children ms none).map (· + 1) := by
  rw [children, List.length_cons, List.range_succ_eq_map,
    List.filter_cons_of_neg (by simp [parent?_zero]), List.filter_map]
  refine congrArg _ (List.filter_congr fun k hk => ?_)
  simp only [Function.comp, Nat.succ_eq_add_one, parent?_cons h (List.mem_range.mp hk)]
  cases parent? ms k with
  | none => simp
  | some j => simp

/-- Further in, children stay the same. -/
theorem children_cons_succ (h : ∀ m ∈ ms, n < m) :
    children (n :: ms) (some (i + 1)) = (children ms (some i)).map (· + 1) := by
  rw [children, List.length_cons, List.range_succ_eq_map,
    List.filter_cons_of_neg (by simp [parent?_zero]), List.filter_map]
  refine congrArg _ (List.filter_congr fun k hk => ?_)
  simp only [Function.comp, Nat.succ_eq_add_one, parent?_cons h (List.mem_range.mp hk)]
  cases parent? ms k with
  | none => simp
  | some j => simp

/-! ### Levels -/

/-- How many of the first `i` lines are indented less than a bound and than all lines between
them and the last. -/
def levelFrom (ns : List Nat) (bound : Nat) : Nat → Nat
  | 0 => 0
  | i + 1 =>
      if indentAt ns i < bound then levelFrom ns (indentAt ns i) i + 1 else levelFrom ns bound i

/-- How many lines a line is nested in. -/
def level (ns : List Nat) (i : Nat) : Nat := levelFrom ns (indentAt ns i) i

def levels (ns : List Nat) : List Nat := (List.range ns.length).map (level ns)

theorem length_levels (ns : List Nat) : (levels ns).length = ns.length := by
  rw [levels, List.length_map, List.length_range]

theorem levelFrom_eq : levelFrom ns bound i =
    ((lastBelow? ns bound i).map fun j => level ns j + 1).getD 0 := by
  induction i with
  | zero => rfl
  | succ i ih =>
      rw [levelFrom, lastBelow?]
      split
      · rfl
      · exact ih

/-- **A line is one level below the line that it is nested in.** -/
theorem level_eq : level ns i = ((parent? ns i).map fun j => level ns j + 1).getD 0 :=
  levelFrom_eq

theorem level_append_left (h : i < ns.length) : level (ns ++ ms) i = level ns i := by
  induction i using Nat.strongRecOn with
  | ind i ih =>
      rw [level_eq, level_eq, parent?_append_left h]
      cases parent : parent? ns i with
      | none => rfl
      | some j =>
          have inside := (parent?_eq_some.mp parent).1
          simp only [Option.map_some, Option.getD_some, ih j inside (by omega)]

/-- The second outline keeps its levels. -/
theorem level_append_right (h : ∀ m ∈ ms.head?, ∀ n ∈ ns, m ≤ n) :
    level (ns ++ ms) (ns.length + i) = level ms i := by
  induction i using Nat.strongRecOn with
  | ind i ih =>
      rw [level_eq, level_eq, parent?_append_right h]
      cases parent : parent? ms i with
      | none => rfl
      | some j => simp [ih j (parent?_eq_some.mp parent).1]

/-- Below a line all levels are one deeper. -/
theorem level_cons (h : ∀ m ∈ ms, n < m) (inside : i < ms.length) :
    level (n :: ms) (i + 1) = level ms i + 1 := by
  induction i using Nat.strongRecOn with
  | ind i ih =>
      rw [level_eq, @level_eq ms, parent?_cons h inside]
      cases parent : parent? ms i with
      | none => simp [level, levelFrom]
      | some j =>
          have above := (parent?_eq_some.mp parent).1
          simp [ih j above (by omega)]

theorem levels_append (h : ∀ m ∈ ms.head?, ∀ n ∈ ns, m ≤ n) :
    levels (ns ++ ms) = levels ns ++ levels ms := by
  rw [levels, List.length_append, List.range_add, List.map_append, List.map_map]
  congr 1
  · exact List.map_congr_left fun i hi => level_append_left (List.mem_range.mp hi)
  · exact List.map_congr_left fun i _ => level_append_right h

theorem levels_cons (h : ∀ m ∈ ms, n < m) :
    levels (n :: ms) = 0 :: (levels ms).map (· + 1) := by
  rw [levels, List.length_cons, List.range_succ_eq_map, List.map_cons, List.map_map, levels,
    List.map_map]
  congr 1
  exact List.map_congr_left fun i hi => level_cons h (List.mem_range.mp hi)

end Docsig.Outline
