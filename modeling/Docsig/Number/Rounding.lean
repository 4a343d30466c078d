import Docsig.Number.Double

/-!
The double nearest to a rational or decimal value.

`ofRatio` rounds a quotient of naturals to the nearest double, ties to the even
mantissa. `ofDecimal` rounds a coefficient times a power of ten; exponents so
far out that only zero or infinity can result are settled without computing the
power.
-/

namespace Docsig.Double

/-- The quotient rounded to the nearest natural, ties to the even one. -/
def nearest (num den : Nat) : Nat :=
  let q := num / den
  let r := num % den
  if den < 2 * r || (2 * r = den && q % 2 = 1) then q + 1 else q

/-- The least exponent whose mantissas can hold the positive quotient
`num / den`. -/
def exponentFor (num den : Nat) : Int :=
  let k : Int := (Nat.log2 num : Int) - Nat.log2 den
  let fits : Bool :=
    if 0 ≤ k then den * Nat.pow 2 k.toNat ≤ num else den ≤ num * Nat.pow 2 (-k).toNat
  max (if fits then k - 52 else k - 53) minExponent

/-- The double nearest to `± num / den`; `den` is positive. -/
def ofRatio (negative : Bool) (num den : Nat) : Double :=
  if num = 0 then zero negative
  else
    let e := exponentFor num den
    let m :=
      if 0 ≤ e then nearest num (den * Nat.pow 2 e.toNat)
      else nearest (num * Nat.pow 2 (-e).toNat) den
    let (m, e) := if m = Nat.pow 2 precision then (Nat.pow 2 (precision - 1), e + 1) else (m, e)
    if maxExponent < e then infinite negative else finite negative m e

/-- The double nearest to `± coefficient * 10 ^ exponent`. -/
def ofDecimal (negative : Bool) (coefficient : Nat) (exponent : Int) : Double :=
  let top := exponent + (Nat.toDigits 10 coefficient).length
  if coefficient = 0 || top < -400 then zero negative
  else if 400 < top then infinite negative
  else if 0 ≤ exponent then ofRatio negative (coefficient * Nat.pow 10 exponent.toNat) 1
  else ofRatio negative coefficient (Nat.pow 10 (-exponent).toNat)

end Docsig.Double
