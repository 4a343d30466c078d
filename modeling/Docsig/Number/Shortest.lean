import Docsig.Number.Rounding

/-!
The shortest decimal text of a double.

`shortest` finds the fewest digits that read back as the same double, and among
those the nearest: on each decimal grid, from coarse to fine, it tries the two
neighbours of the value. `text` writes them positionally or with an exponent.
-/

namespace Docsig.Double

/-! ### Digits -/

/-- A positive decimal: `digits * 10 ^ exponent`. -/
structure Decimal where
  digits : Nat
  exponent : Int
  deriving DecidableEq, Repr

/-- The number of zeros after the point before the first digit of the positive
quotient `num / den` below one. -/
def leadingZeros : Nat → Nat → Nat → Nat
  | 0, _, _ => 0
  | fuel + 1, num, den => if num * 10 < den then 1 + leadingZeros fuel (num * 10) den else 0

/-- The place of the decimal point: the positive quotient `num / den` lies
between `10 ^ (place - 1)` and `10 ^ place`. -/
def place (num den : Nat) : Int :=
  if den ≤ num then (Nat.toDigits 10 (num / den)).length else -(leadingZeros 400 num den : Int)

/-- The quotient `num / den` on the grid of multiples of `10 ^ unit`: the
multiple below it and the remainder, over a common denominator. -/
def onGrid (num den : Nat) (unit : Int) : Nat × Nat × Nat :=
  let num := if 0 ≤ unit then num else num * Nat.pow 10 (-unit).toNat
  let den := if 0 ≤ unit then den * Nat.pow 10 unit.toNat else den
  (num / den, num % den, den)

/-- The neighbour of `num / den` on the grid of `10 ^ unit` that rounds to the
double `value`, the nearer one if both do. -/
def neighbour? (value : Double) (num den : Nat) (unit : Int) : Option Decimal :=
  let (below, rest, whole) := onGrid num den unit
  let above := below + 1
  let belowReads := ofDecimal false below unit == value
  let aboveReads := ofDecimal false above unit == value
  let preferAbove := whole < 2 * rest || (whole = 2 * rest && below % 2 = 1)
  if belowReads && (!aboveReads || !preferAbove) then some ⟨below, unit⟩
  else if aboveReads then some ⟨above, unit⟩
  else none

/-- The first grid with a neighbour that reads back, from `count` digits on. -/
def shortestFrom (value : Double) (num den : Nat) (point : Int) : Nat → Nat → Decimal
  | 0, count => ⟨(onGrid num den (point - count)).1, point - count⟩
  | fuel + 1, count =>
      match neighbour? value num den (point - count) with
      | some d => d
      | none => shortestFrom value num den point fuel (count + 1)

/-- The shortest decimal of the positive double `mantissa * 2 ^ exponent`. -/
def shortest (mantissa : Nat) (exponent : Int) : Decimal :=
  let num := if 0 ≤ exponent then mantissa * Nat.pow 2 exponent.toNat else mantissa
  let den := if 0 ≤ exponent then 1 else Nat.pow 2 (-exponent).toNat
  shortestFrom (finite false mantissa exponent) num den (place num den) 17 1

/-! ### Notation -/

/-- Where positional notation ends, and what a whole number shows after it. -/
structure Layout where
  /-- The least place of the point that is written positionally. -/
  low : Int
  /-- The greatest such place. -/
  high : Int
  /-- What follows the digits of a whole number. -/
  whole : List Char
  deriving DecidableEq, Repr

/-- A number shows its point; from `10 ^ 16` on, and below `10 ^ -4`, it has an
exponent. -/
def Layout.real : Layout := ⟨-3, 16, ['.', '0']⟩

/-- An imaginary part shows no point it does not need. -/
def Layout.imaginary : Layout := ⟨-3, 16, []⟩

/-- An exponent with its sign and at least two digits. -/
def exponentText (e : Int) : List Char :=
  let digits := Nat.toDigits 10 e.natAbs
  'e' :: (if e < 0 then '-' else '+') :: (if digits.length < 2 then '0' :: digits else digits)

/-- The text of digits whose point stands at `point`. -/
def Layout.write (style : Layout) (digits : List Char) (point : Int) : List Char :=
  if style.low ≤ point && point ≤ style.high then
    if point ≤ 0 then '0' :: '.' :: (List.replicate (-point).toNat '0' ++ digits)
    else if digits.length ≤ point.toNat then
      digits ++ List.replicate (point.toNat - digits.length) '0' ++ style.whole
    else digits.take point.toNat ++ '.' :: digits.drop point.toNat
  else
    match digits with
    | [] => []
    | d :: [] => d :: exponentText (point - 1)
    | d :: ds => d :: '.' :: (ds ++ exponentText (point - 1))

/-- The digits without the zeros at their end. -/
def significant (digits : List Char) : List Char :=
  (digits.reverse.dropWhile (· = '0')).reverse

/-- The text of a positive finite double. -/
def magnitudeText (style : Layout) (mantissa : Nat) (exponent : Int) : List Char :=
  if mantissa = 0 then '0' :: style.whole
  else
    let d := shortest mantissa exponent
    let digits := Nat.toDigits 10 d.digits
    style.write (significant digits) (d.exponent + digits.length)

def textIn (style : Layout) : Double → List Char
  | nan => ['n', 'a', 'n']
  | infinite s => if s then ['-', 'i', 'n', 'f'] else ['i', 'n', 'f']
  | finite s m e => if s then '-' :: magnitudeText style m e else magnitudeText style m e

def text (d : Double) : String := String.ofList (d.textIn .real)

end Docsig.Double
