import Docsig.Number.Rounding
import Docsig.Proofs.Number.Double
import Docsig.Proofs.Number.Numeral
import Mathlib.Algebra.Order.Field.Power
import Mathlib.Data.Rat.Cast.Order
import Mathlib.Tactic.Linarith
import Mathlib.Tactic.NormNum
import Mathlib.Tactic.Positivity
import Mathlib.Tactic.Ring

/-!
The double nearest to a number.

A finite double is a rational number, and `IsNearest` says when it is nearest to another
one: no finite double is nearer, and where two are as near, its mantissa is even.

A positive number is rounded on a grid. `Fits` says which exponent the grid has: the one
whose mantissas are full at the number, unless it is the least one. The quotient of the
number by that power of two is rounded to an integer, and `packed` is the double with
this mantissa, which may be one too great for it. The doubles with a greater exponent are
on the grid as well, and those with a smaller one all lie below the number, with a double
of the grid between. So the nearest number of the grid is the nearest double.

* `integer?_eq_some`: the integer that a double has as its value.
* `Fits.nearest`: no double is nearer than the nearest number of the grid that fits.
* `ofRatio_cases`, `ofDecimal_cases`: the double of a quotient or of a decimal is nearest
  to it, below `overflowBound`; from there on it is infinite.
-/

namespace Docsig

/-- A magnitude with a sign. -/
def withSign (negative : Bool) (x : ℚ) : ℚ := if negative then -x else x

namespace Double

/-- The value of a finite double. -/
def toRat : Double → ℚ
  | finite negative m e => withSign negative (m * 2 ^ e)
  | _ => 0

/-- The mantissa of a finite double. -/
def mantissa : Double → Nat
  | finite _ m _ => m
  | _ => 0

/-- Whether a double has a minus, as one of the two zeros has. -/
def isNegative : Double → Bool
  | nan => false
  | infinite negative => negative
  | finite negative _ _ => negative

/-- A finite double that no other is nearer to a number than, nor as near unless the mantissa
is even. It has the sign of the number, even where it is zero. -/
structure IsNearest (q : ℚ) (d : Double) : Prop where
  finite : d.isFinite = true
  canonical : d.Canonical
  sign : q ≠ 0 → (d.isNegative = true ↔ q < 0)
  near : ∀ d' : Double, d'.isFinite = true → d'.Canonical → |d.toRat - q| ≤ |d'.toRat - q|
  even : ∀ d' : Double, d'.isFinite = true → d'.Canonical →
    |d'.toRat - q| = |d.toRat - q| → d'.toRat ≠ d.toRat → d.mantissa % 2 = 0

/-- Half a unit beyond the greatest finite double. -/
def overflowBound : ℚ := (2 ^ 53 - 1 / 2) * 2 ^ maxExponent

end Double

variable {negative : Bool} {m num den c : ℕ} {e n : ℤ} {d : Double} {x y : ℚ}

/-! ### Signs -/

theorem withSign_natCast (negative : Bool) (n : ℕ) :
    withSign negative n = (Double.signed negative n : ℤ) := by
  cases negative <;> simp [withSign, Double.signed]

theorem withSign_mul (negative : Bool) (x y : ℚ) :
    withSign negative (x * y) = withSign negative x * y := by
  cases negative <;> simp [withSign]

theorem abs_withSign (negative : Bool) (x : ℚ) : |withSign negative x| = |x| := by
  cases negative <;> simp [withSign]

theorem abs_withSign_sub (negative : Bool) (x y : ℚ) :
    |withSign negative x - withSign negative y| = |x - y| := by
  cases negative with
  | false => rfl
  | true => simp only [withSign, if_true, neg_sub_neg, abs_sub_comm]

/-! ### Integers -/

/-- A multiple is known by its sign and its magnitude. -/
theorem signed_eq_mul {k : ℕ} (pos : 0 < k) :
    Double.signed negative m = n * k ↔ m % k = 0 ∧ Double.signed negative (m / k) = n := by
  have nonzero : (k : ℤ) ≠ 0 := by exact_mod_cast pos.ne'
  constructor
  · intro h
    have divides : k ∣ m := by
      have divides : (k : ℤ) ∣ Double.signed negative m := ⟨n, by rw [h, mul_comm]⟩
      cases negative <;> simpa [Double.signed, Int.natCast_dvd_natCast] using divides
    refine ⟨Nat.mod_eq_zero_of_dvd divides, mul_right_cancel₀ nonzero ?_⟩
    rw [← Double.signed_mul, Nat.div_mul_cancel divides, h]
  · rintro ⟨divides, rfl⟩
    rw [← Double.signed_mul, Nat.div_mul_cancel (Nat.dvd_of_mod_eq_zero divides)]

/-- The integer that a natural times a power has as its value. -/
theorem scaled_eq_intCast {base : ℕ} (pos : 0 < base) (negative : Bool) (m : ℕ) (e n : ℤ) :
    withSign negative (m * (base : ℚ) ^ e) = n ↔
      (if 0 ≤ e then some (Double.signed negative (m * base ^ e.toNat))
        else if m % base ^ (-e).toNat = 0 then
          some (Double.signed negative (m / base ^ (-e).toNat))
        else none) = some n := by
  -- a power of the base is a whole number above zero, and a divisor below
  split
  · rename_i nonneg
    obtain ⟨k, rfl⟩ := Int.eq_ofNat_of_zero_le nonneg
    have whole : (m : ℚ) * (base : ℚ) ^ (k : ℤ) = (m * base ^ k : ℕ) := by push_cast; rfl
    rw [whole, withSign_natCast, Int.toNat_natCast, Option.some.injEq]
    exact Int.cast_inj
  · rename_i below
    obtain ⟨k, rfl⟩ : ∃ k : ℕ, e = -k := ⟨(-e).toNat, by omega⟩
    have nonzero : (base : ℚ) ^ k ≠ 0 := pow_ne_zero _ (by exact_mod_cast pos.ne')
    have whole : ((Double.signed negative m : ℤ) : ℚ) = n * (base : ℚ) ^ k ↔
        Double.signed negative m = n * (base ^ k : ℕ) := by exact_mod_cast Iff.rfl
    rw [neg_neg, Int.toNat_natCast, withSign_mul, withSign_natCast, zpow_neg, zpow_natCast,
      ← div_eq_mul_inv, div_eq_iff nonzero, whole, signed_eq_mul (Nat.pow_pos pos)]
    split <;> simp_all

namespace Double

/-- **The integer of a double is its value.** -/
theorem integer?_eq_some (isFinite : d.isFinite = true) :
    d.integer? = some n ↔ d.toRat = n := by
  cases d with
  | finite negative m e => exact (scaled_eq_intCast two_pos negative m e n).symm
  | _ => cases isFinite

/-! ### Rounding to an integer -/

/-- The natural that a number rounds to, ties to the even one. -/
structure RoundsTo (y : ℚ) (m : ℕ) : Prop where
  near : |m - y| ≤ 1 / 2
  even : |m - y| = 1 / 2 → m % 2 = 0

/-- A quotient is a natural and a fraction, which the remainder compares with one half. -/
theorem exists_fraction (pos : 0 < den) (num : ℕ) :
    ∃ f : ℚ, (num : ℚ) / den = (num / den : ℕ) + f ∧ 0 ≤ f ∧ f < 1 ∧
      (den < 2 * (num % den) ↔ 1 / 2 < f) ∧ (2 * (num % den) = den ↔ f = 1 / 2) := by
  have denPos : (0 : ℚ) < den := by exact_mod_cast pos
  refine ⟨(num % den : ℕ) / den, ?_, by positivity, ?_, ?_, ?_⟩
  · rw [div_eq_iff denPos.ne', add_mul, div_mul_cancel₀ _ denPos.ne']
    exact_mod_cast (Nat.div_add_mod' num den).symm
  · rw [div_lt_one denPos]
    exact_mod_cast Nat.mod_lt num pos
  · rw [div_lt_div_iff₀ two_pos denPos, one_mul, mul_comm]
    exact_mod_cast Iff.rfl
  · rw [div_eq_div_iff denPos.ne' two_ne_zero, one_mul, mul_comm]
    exact_mod_cast Iff.rfl

/-- The quotient that is taken is the nearest integer, the even one of two. -/
theorem nearest_roundsTo (pos : 0 < den) (num : ℕ) : RoundsTo (num / den) (nearest num den) := by
  obtain ⟨f, value, nonneg, small, above, tie⟩ := exists_fraction pos num
  rw [value, nearest]
  simp only [Bool.or_eq_true, Bool.and_eq_true, decide_eq_true_eq, above, tie]
  -- up from one half on, where the tie goes to the even quotient
  split
  · rename_i up
    have half : 1 / 2 ≤ f := up.elim le_of_lt fun tie => tie.1.ge
    have distance : |((num / den + 1 : ℕ) : ℚ) - ((num / den : ℕ) + f)| = 1 - f := by
      push_cast
      rw [add_sub_add_left_eq_sub, abs_of_nonneg (by linarith)]
    refine ⟨by linarith, fun same => ?_⟩
    rcases up with up | ⟨-, odd⟩
    · linarith
    · omega
  · rename_i down
    obtain ⟨least, even⟩ := not_or.mp down
    have distance : |((num / den : ℕ) : ℚ) - ((num / den : ℕ) + f)| = f := by
      rw [sub_add_cancel_left, abs_neg, abs_of_nonneg nonneg]
    refine ⟨by linarith, fun same => ?_⟩
    have odd : ¬ num / den % 2 = 1 := fun odd => even ⟨distance ▸ same, odd⟩
    omega

namespace RoundsTo

/-- Rounding does not pass an integer above. -/
theorem le_of_lt (h : RoundsTo y m) {k : ℕ} (below : y < k) : m ≤ k := by
  have near := abs_le.mp h.near
  have next : (m : ℚ) < (k + 1 : ℕ) := by
    push_cast
    linarith
  exact Nat.lt_succ_iff.mp (by exact_mod_cast next)

/-- Rounding does not pass an integer below. -/
theorem ge_of_le (h : RoundsTo y m) {k : ℕ} (above : k ≤ y) : k ≤ m := by
  have near := abs_le.mp h.near
  have next : (k : ℚ) < (m + 1 : ℕ) := by
    push_cast
    linarith
  exact Nat.lt_succ_iff.mp (by exact_mod_cast next)

/-- What rounds to a mantissa of full length lies half a unit below the next power of two,
for the last mantissa is odd. -/
theorem lt_half_below (h : RoundsTo y m) (below : m < 2 ^ 53) : y < 2 ^ 53 - 1 / 2 := by
  have last : (m : ℚ) + 1 ≤ 2 ^ 53 := by exact_mod_cast Nat.succ_le_of_lt below
  have near := abs_le.mp h.near
  refine lt_of_le_of_ne (by linarith) fun tie => ?_
  have odd : (m : ℚ) + 1 = 2 ^ 53 := by linarith
  have half : (m : ℚ) - y = -(1 / 2) := by linarith
  have even := h.even (by rw [half, abs_neg, abs_of_pos one_half_pos])
  have odd : m + 1 = 2 ^ 53 := by exact_mod_cast odd
  omega

/-- No integer is nearer to a number than the one that it rounds to. -/
theorem nearest (h : RoundsTo y m) (n : ℤ) :
    |m - y| ≤ |n - y| ∧ (|n - y| = |m - y| → n ≠ m → m % 2 = 0) := by
  rcases eq_or_ne n m with rfl | ne
  · exact ⟨le_rfl, fun _ ne => absurd rfl ne⟩
  · have apart : (1 : ℚ) ≤ |(n : ℚ) - m| := by
      have apart : (1 : ℤ) ≤ |n - m| := Int.one_le_abs (sub_ne_zero.mpr ne)
      exact_mod_cast apart
    have triangle : |(n : ℚ) - m| ≤ |n - y| + |m - y| := by
      rw [abs_sub_comm (m : ℚ) y]
      exact abs_sub_le _ _ _
    have near := h.near
    exact ⟨by linarith, fun same _ => h.even (by linarith)⟩

end RoundsTo

/-! ### The exponent of the grid -/

/-- The exponent of the grid on which a positive number is rounded. -/
structure Fits (x : ℚ) (e : ℤ) : Prop where
  least : minExponent ≤ e
  below : x < 2 ^ (e + 53)
  full : e = minExponent ∨ 2 ^ (e + 52) ≤ x

theorem two_zpow_pos (e : ℤ) : (0 : ℚ) < 2 ^ e := zpow_pos two_pos e

theorem two_zpow_mono {e e' : ℤ} (h : e ≤ e') : (2 : ℚ) ^ e ≤ 2 ^ e' :=
  zpow_le_zpow_right₀ one_le_two h

theorem two_zpow_add (e : ℤ) (k : ℕ) : (2 : ℚ) ^ (e + k) = (2 ^ k : ℕ) * 2 ^ e := by
  rw [zpow_add₀ two_ne_zero, zpow_natCast, mul_comm]
  push_cast
  rfl

/-- The logarithms of its parts give that of a quotient up to one. -/
theorem quotient_bounds (hn : num ≠ 0) (hd : den ≠ 0) :
    (2 : ℚ) ^ ((num.log2 : ℤ) - den.log2 - 1) < num / den ∧
      (num / den : ℚ) < 2 ^ ((num.log2 : ℤ) - den.log2 + 1) := by
  have numLow : (2 : ℚ) ^ (num.log2 : ℤ) ≤ num := by exact_mod_cast Nat.log2_self_le hn
  have denLow : (2 : ℚ) ^ (den.log2 : ℤ) ≤ den := by exact_mod_cast Nat.log2_self_le hd
  have numHigh : (num : ℚ) < 2 ^ ((num.log2 : ℤ) + 1) := by
    exact_mod_cast Nat.lt_log2_self (n := num)
  have denHigh : (den : ℚ) < 2 ^ ((den.log2 : ℤ) + 1) := by
    exact_mod_cast Nat.lt_log2_self (n := den)
  have denPos : (0 : ℚ) < den := (two_zpow_pos _).trans_le denLow
  constructor
  · rw [sub_sub, zpow_sub₀ two_ne_zero]
    exact div_lt_div₀' numLow denHigh ((two_zpow_pos _).trans_le numLow) denPos
  · rw [sub_add_eq_add_sub, zpow_sub₀ two_ne_zero]
    exact div_lt_div₀ numHigh denLow (two_zpow_pos _).le (two_zpow_pos _)

/-- The test of `exponentFor` compares a quotient with a power of two. -/
theorem test_iff_two_zpow_le (hd : den ≠ 0) (k : ℤ) :
    (if 0 ≤ k then decide (den * Nat.pow 2 k.toNat ≤ num)
      else decide (den ≤ num * Nat.pow 2 (-k).toNat)) = true ↔ (2 : ℚ) ^ k ≤ num / den := by
  have denPos : (0 : ℚ) < den := by exact_mod_cast Nat.pos_of_ne_zero hd
  rw [le_div_iff₀ denPos]
  split
  · rename_i nonneg
    obtain ⟨j, rfl⟩ := Int.eq_ofNat_of_zero_le nonneg
    rw [decide_eq_true_eq, Int.toNat_natCast, zpow_natCast, mul_comm]
    exact_mod_cast Iff.rfl
  · rename_i below
    obtain ⟨j, rfl⟩ : ∃ j : ℕ, k = -j := ⟨(-k).toNat, by omega⟩
    rw [decide_eq_true_eq, neg_neg, Int.toNat_natCast, zpow_neg, zpow_natCast,
      inv_mul_le_iff₀ (by positivity), mul_comm]
    exact_mod_cast Iff.rfl

/-- The exponent that is chosen leaves a full mantissa, or is the least. -/
theorem exponentFor_fits (hn : num ≠ 0) (hd : den ≠ 0) :
    Fits (num / den) (exponentFor num den) := by
  -- The quotient is within a factor of two of `2 ^ k`, and the test says on which side.
  obtain ⟨low, high⟩ := quotient_bounds hn hd
  rw [exponentFor]
  simp only [test_iff_two_zpow_le hd]
  generalize (num.log2 : ℤ) - den.log2 = k at low high
  obtain ⟨j, eq, full, below⟩ : ∃ j, (if (2 : ℚ) ^ k ≤ num / den then k - 52 else k - 53) = j ∧
      (2 : ℚ) ^ (j + 52) ≤ num / den ∧ (num / den : ℚ) < 2 ^ (j + 53) := by
    refine ⟨_, rfl, ?_⟩
    split
    · rename_i above
      exact ⟨by rwa [sub_add_cancel], by rwa [show k - 52 + 53 = k + 1 by omega]⟩
    · rename_i below
      refine ⟨?_, by rwa [sub_add_cancel, ← not_le]⟩
      rw [show k - 53 + 52 = k - 1 by omega]
      exact low.le
  rw [eq]
  refine ⟨le_max_right _ _, below.trans_le (two_zpow_mono ?_), ?_⟩
  · have := le_max_left j minExponent
    omega
  · rcases le_total j minExponent with least | greater
    · exact .inl (max_eq_right least)
    · rw [max_eq_left greater]
      exact .inr full

/-- The mantissa on the grid is full, and at most one too great. -/
theorem Fits.mantissa (fits : Fits x e) (rounds : RoundsTo (x / 2 ^ e) m) :
    m ≤ 2 ^ 53 ∧ (e = minExponent ∨ 2 ^ 52 ≤ m) := by
  have pos := two_zpow_pos e
  constructor
  · refine rounds.le_of_lt ?_
    rw [div_lt_iff₀ pos, ← two_zpow_add]
    exact fits.below
  · refine fits.full.imp_right fun full => rounds.ge_of_le ?_
    rw [le_div_iff₀ pos, ← two_zpow_add]
    exact full

/-! ### No double is nearer -/

theorem abs_mul_zpow_sub (y x : ℚ) (e : ℤ) : |y * 2 ^ e - x| = |y - x / 2 ^ e| * 2 ^ e := by
  have pos := two_zpow_pos e
  rw [← abs_of_pos pos, ← abs_mul, abs_of_pos pos, sub_mul, div_mul_cancel₀ _ pos.ne']

/-- A double with a greater exponent is on the grid. -/
theorem exists_multiple (negative : Bool) (m : ℕ) {e e' : ℤ} (le : e ≤ e') :
    ∃ n : ℤ, (finite negative m e').toRat = n * 2 ^ e := by
  obtain ⟨j, rfl⟩ := Int.le.dest le
  refine ⟨signed negative (m * 2 ^ j), ?_⟩
  rw [toRat, two_zpow_add, ← mul_assoc, withSign_mul, ← withSign_natCast]
  push_cast
  rfl

/-- A double with a smaller exponent lies below the full mantissas of the grid. -/
theorem abs_lt_full {k : ℕ} {e' : ℤ} (canonical : (finite negative k e').Canonical)
    (less : e' < e) : |(finite negative k e').toRat| < 2 ^ (e + 52) := by
  rw [toRat, abs_withSign, abs_of_nonneg (by positivity)]
  calc (k : ℚ) * 2 ^ e' < (2 ^ 53 : ℕ) * 2 ^ e' :=
        mul_lt_mul_of_pos_right (by exact_mod_cast canonical.1) (two_zpow_pos e')
    _ = 2 ^ (e' + 53) := (two_zpow_add e' 53).symm
    _ ≤ 2 ^ (e + 52) := two_zpow_mono (by omega)

/-- **No double is nearer to a number than the nearest number of its grid.** -/
theorem Fits.nearest (fits : Fits x e) (rounds : RoundsTo (x / 2 ^ e) m)
    (isFinite : d.isFinite = true) (canonical : d.Canonical) :
    |m * 2 ^ e - x| ≤ |d.toRat - x| ∧
      (|d.toRat - x| = |m * 2 ^ e - x| → d.toRat ≠ m * 2 ^ e → m % 2 = 0) := by
  have pos := two_zpow_pos e
  -- no multiple of the power is nearer than the rounded one
  have grid (n : ℤ) : |(m : ℚ) * 2 ^ e - x| ≤ |(n : ℚ) * 2 ^ e - x| := by
    rw [abs_mul_zpow_sub, abs_mul_zpow_sub]
    exact mul_le_mul_of_nonneg_right (rounds.nearest n).1 pos.le
  cases d with
  | finite negative k e' =>
      rcases le_or_gt e e' with le | less
      · obtain ⟨n, value⟩ := exists_multiple negative k le
        rw [value]
        refine ⟨grid n, fun same ne => (rounds.nearest n).2 ?_ ?_⟩
        · rw [abs_mul_zpow_sub, abs_mul_zpow_sub] at same
          exact mul_right_cancel₀ pos.ne' same
        · rintro rfl
          exact ne (by push_cast; rfl)
      · -- The least full mantissa of the grid stands between such a double and the number.
        have least := canonical.2.1
        have full : (2 : ℚ) ^ (e + 52) ≤ x := fits.full.resolve_left (by omega)
        have below := (abs_lt.mp (abs_lt_full canonical less)).2
        have between := grid (2 ^ 52 : ℕ)
        rw [Int.cast_natCast, ← two_zpow_add, Nat.cast_ofNat,
          abs_of_nonpos (sub_nonpos.mpr full)] at between
        generalize (2 : ℚ) ^ (e + 52) = edge at full below between
        have apart : |(finite negative k e').toRat - x| = x - (finite negative k e').toRat := by
          rw [abs_of_neg (by linarith), neg_sub]
        have nearer : |(m : ℚ) * 2 ^ e - x| < |(finite negative k e').toRat - x| := by linarith
        exact ⟨nearer.le, fun same _ => absurd same nearer.ne'⟩
  | _ => cases isFinite

theorem Canonical.neg (h : d.Canonical) : d.neg.Canonical := by
  cases d <;> exact h

theorem toRat_neg (isFinite : d.isFinite = true) : d.neg.toRat = -d.toRat := by
  cases d with
  | finite negative m e => cases negative <;> simp [neg, toRat, withSign]
  | _ => cases isFinite

/-- A double is another one, or itself, with a given sign in front. -/
theorem exists_withSign (negative : Bool) (isFinite : d.isFinite = true)
    (canonical : d.Canonical) : ∃ d' : Double, d'.isFinite = true ∧ d'.Canonical ∧
      d.toRat = withSign negative d'.toRat := by
  cases negative with
  | false => exact ⟨d, isFinite, canonical, rfl⟩
  | true =>
      refine ⟨d.neg, ?_, canonical.neg, ?_⟩
      · cases d with
        | finite => rfl
        | _ => cases isFinite
      · rw [toRat_neg isFinite]
        exact (neg_neg _).symm

theorem withSign_neg_iff (nonneg : 0 ≤ x) (nonzero : withSign negative x ≠ 0) :
    negative = true ↔ withSign negative x < 0 := by
  have pos : 0 < x := lt_of_le_of_ne nonneg fun zero => nonzero (by
    rw [← zero]
    cases negative <;> simp [withSign])
  cases negative with
  | false => simpa [withSign] using nonneg
  | true => simpa [withSign] using pos

/-- A double with the value of the nearest number of the grid is nearest, with either sign. -/
theorem Fits.isNearest (nonneg : 0 ≤ x) (fits : Fits x e) (rounds : RoundsTo (x / 2 ^ e) m)
    {m' : ℕ} {e' : ℤ} (canonical : (finite negative m' e').Canonical)
    (value : (m' : ℚ) * 2 ^ e' = m * 2 ^ e) (even : m % 2 = 0 → m' % 2 = 0) :
    IsNearest (withSign negative x) (finite negative m' e') := by
  refine ⟨rfl, canonical, withSign_neg_iff nonneg, fun d isFinite canonical => ?_,
    fun d isFinite canonical same ne => ?_⟩
  all_goals obtain ⟨d', isFinite', canonical', eq⟩ := exists_withSign negative isFinite canonical
  · rw [eq, toRat, abs_withSign_sub, abs_withSign_sub, value]
    exact (fits.nearest rounds isFinite' canonical').1
  · rw [eq, toRat, abs_withSign_sub, abs_withSign_sub, value] at same
    refine even ((fits.nearest rounds isFinite' canonical').2 same fun eq' => ne ?_)
    rw [eq, toRat, eq', value]

/-! ### The range of the doubles -/

theorem two_zpow_le_overflowBound (h : e ≤ maxExponent + 52) : 2 ^ e ≤ overflowBound :=
  calc (2 : ℚ) ^ e ≤ 2 ^ (maxExponent + (52 : ℕ)) := two_zpow_mono h
    _ = (2 ^ 52 : ℕ) * 2 ^ maxExponent := two_zpow_add _ _
    _ ≤ overflowBound := mul_le_mul_of_nonneg_right (by norm_num) (two_zpow_pos _).le

theorem overflowBound_le_two_zpow (h : maxExponent + 53 ≤ e) : overflowBound ≤ 2 ^ e :=
  calc overflowBound ≤ (2 ^ 53 : ℕ) * 2 ^ maxExponent :=
        mul_le_mul_of_nonneg_right (by norm_num) (two_zpow_pos _).le
    _ = 2 ^ (maxExponent + (53 : ℕ)) := (two_zpow_add _ _).symm
    _ ≤ 2 ^ e := two_zpow_mono h

/-- The double with a mantissa, which may be one too great, and an exponent. -/
def packed (negative : Bool) (m : ℕ) (e : ℤ) : Double :=
  let (m, e) := if m = Nat.pow 2 precision then (Nat.pow 2 (precision - 1), e + 1) else (m, e)
  if maxExponent < e then infinite negative else finite negative m e

/-- **A number of the grid is a double, unless what rounds to it reaches the bound.** -/
theorem packed_cases (fits : Fits x e) (rounds : RoundsTo (x / 2 ^ e) m) (negative : Bool) :
    (overflowBound ≤ x ∧ packed negative m e = infinite negative) ∨
      (x < overflowBound ∧ ∃ m' e', packed negative m e = finite negative m' e' ∧
        (finite negative m' e').Canonical ∧ (m' : ℚ) * 2 ^ e' = m * 2 ^ e ∧
        (m % 2 = 0 → m' % 2 = 0)) := by
  obtain ⟨le, full⟩ := fits.mantissa rounds
  have least := fits.least
  have pos := two_zpow_pos e
  have value : x = x / 2 ^ e * 2 ^ e := (div_mul_cancel₀ _ pos.ne').symm
  rw [packed]
  rcases eq_or_ne m (Nat.pow 2 precision) with carried | kept
  · -- Half of the mantissa goes with the next exponent, which may be beyond the range.
    rw [if_pos carried]
    dsimp only
    split
    · rename_i beyond
      refine .inl ⟨?_, rfl⟩
      have reached : (2 : ℚ) ^ 53 - 1 / 2 ≤ x / 2 ^ e := by
        have near := abs_le.mp rounds.near
        have carried : (m : ℚ) = 2 ^ 53 := by exact_mod_cast carried
        linarith
      rw [value, overflowBound]
      exact mul_le_mul reached (two_zpow_mono (by omega)) (two_zpow_pos _).le (by linarith)
    · rename_i inside
      have below : x < overflowBound :=
        fits.below.trans_le (two_zpow_le_overflowBound (by omega))
      refine .inr ⟨below, _, _, rfl, ⟨by decide, by omega, by omega, .inr le_rfl⟩, ?_, fun _ => rfl⟩
      have double : ((Nat.pow 2 (precision - 1) : ℕ) : ℚ) * 2 = (Nat.pow 2 precision : ℕ) := by
        norm_num [precision]
      rw [carried, ← double, zpow_add₀ two_ne_zero, zpow_one]
      ring
  · have below : m < 2 ^ 53 := lt_of_le_of_ne le kept
    rw [if_neg kept]
    dsimp only
    split
    · rename_i beyond
      have above : minExponent < e := lt_trans (by decide) beyond
      have top : (2 : ℚ) ^ (e + 52) ≤ x := fits.full.resolve_left above.ne'
      exact .inl ⟨(overflowBound_le_two_zpow (by omega)).trans top, rfl⟩
    · rename_i inside
      refine .inr ⟨?_, m, e, rfl, ⟨below, least, by omega, full⟩, rfl, id⟩
      calc x = x / 2 ^ e * 2 ^ e := value
        _ < (2 ^ 53 - 1 / 2) * 2 ^ e := mul_lt_mul_of_pos_right (rounds.lt_half_below below) pos
        _ ≤ overflowBound :=
          mul_le_mul_of_nonneg_left (two_zpow_mono (by omega)) (by norm_num)

/-! ### Quotients -/

/-- The quotient by a power of two is rounded as a quotient of naturals. -/
theorem exists_scaled (pos : 0 < den) (num : ℕ) (e : ℤ) :
    ∃ num' den' : ℕ, 0 < den' ∧ (num' : ℚ) / den' = num / den / 2 ^ e ∧
      (if 0 ≤ e then nearest num (den * Nat.pow 2 e.toNat)
        else nearest (num * Nat.pow 2 (-e).toNat) den) = nearest num' den' := by
  split
  · rename_i nonneg
    obtain ⟨j, rfl⟩ := Int.eq_ofNat_of_zero_le nonneg
    refine ⟨num, den * 2 ^ j, Nat.mul_pos pos (Nat.two_pow_pos j), ?_, rfl⟩
    rw [div_div, zpow_natCast]
    push_cast
    rfl
  · rename_i below
    obtain ⟨j, rfl⟩ : ∃ j : ℕ, e = -j := ⟨(-e).toNat, by omega⟩
    refine ⟨num * 2 ^ j, den, pos, ?_, by rw [neg_neg, Int.toNat_natCast]; rfl⟩
    rw [zpow_neg, zpow_natCast, div_inv_eq_mul, div_mul_eq_mul_div]
    push_cast
    rfl

/-- A quotient is packed from the mantissa that it rounds to at its exponent. -/
theorem ofRatio_eq_packed (negative : Bool) (hn : num ≠ 0) (hd : den ≠ 0) :
    ∃ m e, Fits (num / den) e ∧ RoundsTo (num / den / 2 ^ e) m ∧
      ofRatio negative num den = packed negative m e := by
  obtain ⟨num', den', pos, value, eq⟩ :=
    exists_scaled (Nat.pos_of_ne_zero hd) num (exponentFor num den)
  refine ⟨nearest num' den', exponentFor num den, exponentFor_fits hn hd, ?_, ?_⟩
  · rw [← value]
    exact nearest_roundsTo pos num'
  · rw [ofRatio, if_neg hn, packed, ← eq]

/-- What is below half of the least double rounds to zero, on the grid of the least exponent. -/
theorem isNearest_zero (negative : Bool) (nonneg : 0 ≤ x) (small : x < 2 ^ (minExponent - 1)) :
    x < overflowBound ∧ IsNearest (withSign negative x) (zero negative) := by
  have pos := two_zpow_pos minExponent
  have below {e : ℤ} (h : minExponent - 1 ≤ e) : x < 2 ^ e := small.trans_le (two_zpow_mono h)
  have fits : Fits x minExponent := ⟨le_rfl, below (by omega), .inl rfl⟩
  have half : x / 2 ^ minExponent < 1 / 2 := by
    rw [div_lt_iff₀ pos]
    rwa [zpow_sub₀ two_ne_zero, zpow_one, div_eq_inv_mul, ← one_div] at small
  have distance : |((0 : ℕ) : ℚ) - x / 2 ^ minExponent| < 1 / 2 := by
    rwa [Nat.cast_zero, zero_sub, abs_neg, abs_of_nonneg (by positivity)]
  have rounds : RoundsTo (x / 2 ^ minExponent) 0 :=
    ⟨distance.le, fun tie => absurd tie distance.ne⟩
  have canonical : (finite negative 0 minExponent).Canonical :=
    ⟨by decide, le_rfl, by decide, .inl rfl⟩
  refine ⟨?_, fits.isNearest nonneg rounds canonical rfl id⟩
  exact (below (by decide)).trans_le (two_zpow_le_overflowBound (e := 0) (by decide))

/-- **The double of a quotient is nearest to it** or infinite. -/
theorem ofRatio_cases (negative : Bool) (num : ℕ) (hd : den ≠ 0) :
    (overflowBound ≤ num / den ∧ ofRatio negative num den = infinite negative) ∨
      ((num : ℚ) / den < overflowBound ∧
        IsNearest (withSign negative (num / den)) (ofRatio negative num den)) := by
  rcases eq_or_ne num 0 with rfl | hn
  · rw [ofRatio, if_pos rfl, Nat.cast_zero, zero_div]
    exact .inr (isNearest_zero negative le_rfl (two_zpow_pos _))
  · obtain ⟨m, e, fits, rounds, eq⟩ := ofRatio_eq_packed negative hn hd
    rw [eq]
    refine (packed_cases fits rounds negative).imp_right ?_
    rintro ⟨small, m', e', eq, canonical, value, even⟩
    rw [eq]
    exact ⟨small, fits.isNearest (by positivity) rounds canonical value even⟩

/-! ### Decimals -/

theorem ten_zpow_pos (e : ℤ) : (0 : ℚ) < 10 ^ e := zpow_pos (by norm_num) e

theorem ten_zpow_mono {e e' : ℤ} (h : e ≤ e') : (10 : ℚ) ^ e ≤ 10 ^ e' :=
  zpow_le_zpow_right₀ (by norm_num) h

/-- The number of its digits tells a number up to a factor of ten. -/
theorem length_toDigits_bounds {n : ℕ} (h : n ≠ 0) :
    10 ^ ((Nat.toDigits 10 n).length - 1) ≤ n ∧ n < 10 ^ (Nat.toDigits 10 n).length := by
  have pos : 0 < (Nat.toDigits 10 n).length := Nat.length_toDigits_pos
  refine ⟨?_, (Nat.length_toDigits_le_iff (by decide) pos).mp le_rfl⟩
  rcases Nat.eq_zero_or_pos ((Nat.toDigits 10 n).length - 1) with one | more
  · rw [one]
    exact Nat.one_le_iff_ne_zero.mpr h
  · rw [← not_lt, ← Nat.length_toDigits_le_iff (by decide) more]
    omega

/-- The digits of a decimal tell its magnitude up to a factor of ten. -/
theorem decimal_bounds (hc : c ≠ 0) (e : ℤ) :
    (10 : ℚ) ^ (e + (Nat.toDigits 10 c).length - 1) ≤ c * 10 ^ e ∧
      (c : ℚ) * 10 ^ e < 10 ^ (e + (Nat.toDigits 10 c).length) := by
  obtain ⟨low, high⟩ := length_toDigits_bounds hc
  have pos : 0 < (Nat.toDigits 10 c).length := Nat.length_toDigits_pos
  generalize (Nat.toDigits 10 c).length = len at low high pos
  have ten : (10 : ℚ) ≠ 0 := by norm_num
  constructor
  · rw [show e + len - 1 = (len - 1 : ℕ) + e by omega, zpow_add₀ ten, zpow_natCast]
    exact mul_le_mul_of_nonneg_right (by exact_mod_cast low) (ten_zpow_pos e).le
  · rw [add_comm, zpow_add₀ ten, zpow_natCast]
    exact mul_lt_mul_of_pos_right (by exact_mod_cast high) (ten_zpow_pos e)

/-- Decimals that `ofDecimal` takes for zero are below half of the least double. -/
theorem ten_zpow_lt_two_zpow : (10 : ℚ) ^ (-401 : ℤ) < 2 ^ (minExponent - 1) := by
  have powers : 2 ^ 1075 < 10 ^ 401 := by decide +kernel
  rw [show minExponent - 1 = -(1075 : ℕ) from rfl, show (-401 : ℤ) = -(401 : ℕ) from rfl, zpow_neg,
    zpow_neg, zpow_natCast, zpow_natCast]
  exact inv_strictAnti₀ (by positivity) (by exact_mod_cast powers)

/-- Decimals that `ofDecimal` takes for infinite reach the bound. -/
theorem overflowBound_le_ten_zpow : overflowBound ≤ 10 ^ (400 : ℤ) := by
  have powers : 2 ^ 1024 ≤ 10 ^ 400 := by decide +kernel
  refine (overflowBound_le_two_zpow (e := (1024 : ℕ)) (by decide)).trans ?_
  rw [show (400 : ℤ) = (400 : ℕ) from rfl, zpow_natCast, zpow_natCast]
  exact_mod_cast powers

/-- **The double of a decimal is nearest to it** or infinite. -/
theorem ofDecimal_cases (negative : Bool) (c : ℕ) (e : ℤ) :
    (overflowBound ≤ c * 10 ^ e ∧ ofDecimal negative c e = infinite negative) ∨
      ((c : ℚ) * 10 ^ e < overflowBound ∧
        IsNearest (withSign negative (c * 10 ^ e)) (ofDecimal negative c e)) := by
  rw [ofDecimal]
  rcases eq_or_ne c 0 with rfl | hc
  · rw [if_pos (by simp), Nat.cast_zero, zero_mul]
    exact .inr (isNearest_zero negative le_rfl (two_zpow_pos _))
  -- the size settles what is far beyond or below the range, without a quotient
  obtain ⟨low, high⟩ := decimal_bounds hc e
  simp only [hc, decide_false, Bool.false_or, decide_eq_true_eq]
  split
  · rename_i tiny
    have small : (c : ℚ) * 10 ^ e < 2 ^ (minExponent - 1) :=
      (high.trans_le (ten_zpow_mono (by omega))).trans ten_zpow_lt_two_zpow
    exact .inr (isNearest_zero negative (by positivity) small)
  · split
    · rename_i huge
      exact .inl ⟨overflowBound_le_ten_zpow.trans ((ten_zpow_mono (by omega)).trans low), rfl⟩
    · split
      · rename_i nonneg
        obtain ⟨k, rfl⟩ := Int.eq_ofNat_of_zero_le nonneg
        have value : ((c * 10 ^ k : ℕ) : ℚ) / (1 : ℕ) = c * 10 ^ (k : ℤ) := by
          rw [Nat.cast_one, div_one, zpow_natCast]
          push_cast
          rfl
        rw [← value]
        exact ofRatio_cases negative _ one_ne_zero
      · rename_i below
        obtain ⟨k, rfl⟩ : ∃ k : ℕ, e = -k := ⟨(-e).toNat, by omega⟩
        have value : (c : ℚ) / (10 ^ k : ℕ) = c * 10 ^ (-k : ℤ) := by
          rw [zpow_neg, zpow_natCast, div_eq_mul_inv]
          push_cast
          rfl
        rw [← value, neg_neg]
        exact ofRatio_cases negative c (Nat.pow_pos (by decide)).ne'

end Double

end Docsig
