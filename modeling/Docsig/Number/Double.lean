/-!
Double-precision numbers as exact data.

A finite double is a signed mantissa times a power of two, so that comparison
and integrality are decided in the integers. `Canonical` picks one
representation for each value; every double that the library computes is
canonical, and no operation here relies on it.
-/

namespace Docsig

/-- A double: not a number, an infinity, or `± mantissa * 2 ^ exponent`. -/
inductive Double where
  | nan
  | infinite (negative : Bool)
  | finite (negative : Bool) (mantissa : Nat) (exponent : Int)
  deriving DecidableEq, Repr

namespace Double

/-! ### Bounds of the format -/

/-- The number of bits of a full mantissa. -/
def precision : Nat := 53

def minExponent : Int := -1074

def maxExponent : Int := 971

/-- The one representation of each value: the mantissa is full unless the
exponent is the least one. -/
def Canonical : Double → Prop
  | finite _ m e =>
      m < Nat.pow 2 precision ∧ minExponent ≤ e ∧ e ≤ maxExponent ∧
        (e = minExponent ∨ Nat.pow 2 (precision - 1) ≤ m)
  | _ => True

def zero (negative : Bool) : Double := finite negative 0 minExponent

/-! ### Classes of values -/

/-- Neither an infinity nor "not a number". -/
def isFinite : Double → Bool
  | finite _ _ _ => true
  | _ => false

/-- The integer with a sign and a magnitude. -/
def signed (negative : Bool) (n : Nat) : Int := if negative then -(n : Int) else n

/-- The value of a double that is an integer. -/
def integer? : Double → Option Int
  | finite s m e =>
      if 0 ≤ e then some (signed s (m * Nat.pow 2 e.toNat))
      else if m % Nat.pow 2 (-e).toNat = 0 then some (signed s (m / Nat.pow 2 (-e).toNat))
      else none
  | _ => none

def neg : Double → Double
  | nan => nan
  | infinite s => infinite (!s)
  | finite s m e => finite (!s) m e

/-! ### Comparison

Values are compared after scaling both sides by the same power of two. -/

/-- The integer `value * 2 ^ scale` of a finite double whose exponent is at
least `-scale`. -/
def scaledBy (scale : Nat) (negative : Bool) (m : Nat) (e : Int) : Int :=
  signed negative (m * Nat.pow 2 (e + scale).toNat)

/-- Equality of values: nothing equals "not a number", and both zeros are
equal. -/
def same : Double → Double → Bool
  | infinite s, infinite t => s == t
  | finite s m e, finite t n f =>
      let scale := (-(min e f)).toNat
      scaledBy scale s m e == scaledBy scale t n f
  | _, _ => false

def ltInt : Double → Int → Bool
  | nan, _ => false
  | infinite s, _ => s
  | finite s m e, n =>
      let scale := (-e).toNat
      scaledBy scale s m e < n * (Nat.pow 2 scale : Nat)

def gtInt : Double → Int → Bool
  | nan, _ => false
  | infinite s, _ => !s
  | finite s m e, n =>
      let scale := (-e).toNat
      n * (Nat.pow 2 scale : Nat) < scaledBy scale s m e

/-- Whether the double is an integer's value. -/
def sameInt (d : Double) (n : Int) : Bool := d.integer? == some n

end Double

end Docsig
