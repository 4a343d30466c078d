import Docsig.Number.Double
import Mathlib.Algebra.Order.Ring.Int

/-!
Doubles that are integers.

Comparison scales both sides by a power of two; `scaledBy_of_integer` says that a
double with the value `n` scales to `n` times that power, so that it compares as `n`
does.
-/

namespace Docsig.Double

variable {negative : Bool} {m : Nat} {e n bound : Int} {d : Double}

/-- A sign passes through a product. -/
theorem signed_mul (negative : Bool) (m k : Nat) :
    signed negative (m * k) = signed negative m * (k : Int) := by
  cases negative <;> simp [signed]

/-- A double that is an integer scales to a multiple of it. -/
theorem scaledBy_of_integer (h : integer? (finite negative m e) = some n) :
    scaledBy (-e).toNat negative m e = n * (Nat.pow 2 (-e).toNat : Nat) := by
  rw [integer?] at h
  rw [scaledBy]
  split at h
  · rename_i nonneg
    cases h
    have none : (-e).toNat = 0 := by omega
    simp [none]
  · rename_i below
    split at h
    · rename_i divides
      cases h
      have none : (e + (-e).toNat).toNat = 0 := by omega
      rw [none, ← signed_mul, Nat.div_mul_cancel (Nat.dvd_of_mod_eq_zero divides)]
      simp
    · cases h

theorem pow_pos (k : Nat) : (0 : Int) < (Nat.pow 2 k : Nat) := by
  exact_mod_cast Nat.two_pow_pos k

/-- A double that is an integer lies below the bounds that the integer lies below. -/
theorem ltInt_iff (h : d.integer? = some n) : d.ltInt bound = true ↔ n < bound := by
  cases d with
  | finite negative m e =>
      rw [ltInt, scaledBy_of_integer h, decide_eq_true_eq]
      exact mul_lt_mul_iff_left₀ (pow_pos _)
  | _ => cases h

/-- A double that is an integer lies above the bounds that the integer lies above. -/
theorem gtInt_iff (h : d.integer? = some n) : d.gtInt bound = true ↔ bound < n := by
  cases d with
  | finite negative m e =>
      rw [gtInt, scaledBy_of_integer h, decide_eq_true_eq]
      exact mul_lt_mul_iff_left₀ (pow_pos _)
  | _ => cases h

end Docsig.Double
