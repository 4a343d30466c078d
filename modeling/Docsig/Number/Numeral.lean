import Docsig.Number.Rounding
import Docsig.Text.Blank
import Docsig.Text.Digit

/-!
Numbers written in text.

A decimal numeral has a sign, digits of any script with an optional point, and
an optional exponent; it may also name an infinity or "not a number". Its value
is kept exactly. An integer text has a sign and digits with single underscores
between them.
-/

namespace Docsig

open Text

/-! ### Digits -/

/-- The leading digits of a text and what follows them. -/
def takeDigits : List Char → List Nat × List Char
  | [] => ([], [])
  | c :: cs =>
      match digit? c with
      | some d => let (ds, rest) := takeDigits cs; (d :: ds, rest)
      | none => ([], c :: cs)

/-- The number that digits write in a base. -/
def ofDigits (base : Nat) (ds : List Nat) : Nat := ds.foldl (fun n d => n * base + d) 0

/-- A sign at the start of a text: whether it is a minus, and the rest. -/
def takeSign : List Char → Bool × List Char
  | '-' :: cs => (true, cs)
  | '+' :: cs => (false, cs)
  | cs => (false, cs)

/-! ### Decimal numerals -/

/-- The value of a decimal numeral: a finite one `± coefficient * 10 ^ exponent`,
or one that is no number. -/
inductive Numeral where
  | finite (negative : Bool) (coefficient : Nat) (exponent : Int)
  | nonFinite
  deriving DecidableEq, Repr

namespace Numeral

def maxExponent : Int := 999999999999999999

def minExponent : Int := -1999999999999999997

/-- A finite numeral within the bounds on exponents. -/
def bounded? (negative : Bool) (coefficient : Nat) (exponent : Int) : Option Numeral :=
  let top := exponent + (Nat.toDigits 10 coefficient).length - 1
  if maxExponent < top || exponent < minExponent then none
  else some (finite negative coefficient exponent)

/-- The exponent part of a numeral, which ends the text. -/
def exponentPart? : List Char → Option Int
  | [] => some 0
  | c :: cs =>
      if c = 'e' || c = 'E' then
        let (negative, cs) := takeSign cs
        match takeDigits cs with
        | (d :: ds, []) => some (Double.signed negative (ofDigits 10 (d :: ds)))
        | _ => none
      else none

/-- A text in lower case, as far as ASCII goes. -/
def lowered (cs : List Char) : List Char := cs.map Char.toLower

/-- Whether a text names an infinity or "not a number", the latter with an
optional payload of digits. -/
def isSpecial (cs : List Char) : Bool :=
  let word := lowered cs
  word == "inf".toList || word == "infinity".toList ||
    (match word with
      | 'n' :: 'a' :: 'n' :: payload => (takeDigits payload).2.isEmpty
      | 's' :: 'n' :: 'a' :: 'n' :: payload => (takeDigits payload).2.isEmpty
      | _ => false)

/-- The numeral that a text without surrounding white space writes. Underscores
are ignored wherever they stand. -/
def read? (cs : List Char) : Option Numeral :=
  let (negative, cs) := takeSign (cs.filter (· ≠ '_'))
  if isSpecial cs then some nonFinite
  else
    let (whole, rest) := takeDigits cs
    let (fraction, rest) :=
      match rest with
      | '.' :: cs => takeDigits cs
      | _ => ([], rest)
    if whole.isEmpty && fraction.isEmpty then none
    else do
      let exponent ← exponentPart? rest
      bounded? negative (ofDigits 10 (whole ++ fraction)) (exponent - fraction.length)

/-- The value of a finite numeral that is an integer. -/
def integer? : Numeral → Option Int
  | finite s c e =>
      if c = 0 then some 0
      else if 0 ≤ e then some (Double.signed s (c * Nat.pow 10 e.toNat))
      else if (Nat.toDigits 10 c).length < (-e).toNat then none
      else if c % Nat.pow 10 (-e).toNat = 0 then some (Double.signed s (c / Nat.pow 10 (-e).toNat))
      else none
  | nonFinite => none

/-- The double nearest to a numeral; no number gives none. -/
def toDouble : Numeral → Double
  | finite s c e => .ofDecimal s c e
  | nonFinite => .nan

end Numeral

/-! ### Integer texts -/

/-- Digits with single underscores between them, up to the end of the text;
`ds` holds the digits so far, last first, and is not empty. -/
def integerDigits? (ds : List Nat) : List Char → Option (List Nat)
  | [] => some ds.reverse
  | '_' :: c :: cs =>
      match digit? c with
      | some d => integerDigits? (d :: ds) cs
      | none => none
  | c :: cs =>
      match digit? c with
      | some d => integerDigits? (d :: ds) cs
      | none => none

/-- The integer that a text writes, white space around it allowed. -/
def integerText? (cs : List Char) : Option Int :=
  let (negative, cs) := takeSign (trim cs)
  match cs with
  | [] => none
  | c :: cs => do
      let d ← digit? c
      let ds ← integerDigits? [d] cs
      return Double.signed negative (ofDigits 10 ds)

end Docsig
