import Docsig.Code.Token
import Docsig.Number.Numeral

/-!
Numbers in source files.

Digits may be grouped by single underscores. A decimal number other than zero
does not start with a zero unless it has a point, an exponent or an imaginary
mark. A number must not run into a name, except into one of the words that can
follow an operand.
-/

namespace Docsig.Code.Lexer

/-- A character that may be part of a name, by its first look: every character
beyond ASCII is. -/
def isNameChar (c : Char) : Bool := c.isAlphanum || c = '_' || 128 ≤ c.toNat

/-- The values of the digits at the start of a text, single underscores between
them or before the first allowed; none if an underscore has no digit after it. -/
def digitRun? (digit? : Char → Option Nat) : List Char → Option (List Nat × List Char)
  | [] => some ([], [])
  | '_' :: cs =>
      match cs with
      | c :: _ =>
          match digit? c with
          | some _ => digitRun? digit? cs
          | none => none
      | [] => none
  | c :: cs =>
      match digit? c with
      | some d => (digitRun? digit? cs).map fun (ds, rest) => (d :: ds, rest)
      | none => some ([], c :: cs)

/-- Words that can follow an operand directly, even a number. -/
def followingWords : List (List Char) :=
  ["and".toList, "else".toList, "for".toList, "if".toList, "in".toList, "is".toList, "or".toList,
    "not".toList]

/-- Whether a number may end in front of a text. -/
def endsNumber (rest : List Char) : Bool :=
  followingWords.any (fun w => w.isPrefixOf rest) || !(rest.head?.any isNameChar)

/-- A number that ends properly, with the rest. -/
def closeNumber (value : Constant) (rest : List Char) : Option (Constant × List Char) :=
  if endsNumber rest then some (value, rest) else none

def digitBelow? (base : Nat) (c : Char) : Option Nat :=
  (Text.hexDigit? c).filter (· < base)

/-- A number in another base, after its mark. -/
def basedNumber? (base : Nat) (cs : List Char) : Option (Constant × List Char) := do
  let (ds, rest) ← digitRun? (digitBelow? base) cs
  if ds.isEmpty || rest.head?.any Char.isDigit then none
  else closeNumber (.int (ofDigits base ds)) rest

/-- The fraction at the start of a text, after its point. -/
def fraction? (cs : List Char) : Option (List Nat × List Char) :=
  if cs.head?.any Char.isDigit then digitRun? Text.asciiDigit? cs else some ([], cs)

/-- The exponent at the start of a text: nothing, or its value. A letter that
starts a word is left alone. -/
def exponent? (cs : List Char) : Option (Option Int × List Char) :=
  match cs with
  | c :: rest =>
      if c = 'e' || c = 'E' then
        let signed := rest.head? = some '+' || rest.head? = some '-'
        let (negative, digits) := takeSign rest
        if digits.head?.any Char.isDigit then
          (digitRun? Text.asciiDigit? digits).map fun (ds, rest) =>
            (some (Double.signed negative (ofDigits 10 ds)), rest)
        else if signed then none
        else if endsNumber cs then some (none, cs)
        else none
      else some (none, cs)
  | [] => some (none, [])

/-- Closes a real number, or an imaginary one if its mark follows. -/
def closeReal (whole fraction : List Nat) (exponent : Int) (real : Constant) (rest : List Char) :
    Option (Constant × List Char) :=
  match rest with
  | c :: after =>
      if c = 'j' || c = 'J' then
        closeNumber (.imaginary
          (.ofDecimal false (ofDigits 10 (whole ++ fraction)) (exponent - fraction.length))) after
      else closeNumber real rest
  | [] => some (real, [])

/-- A decimal number after its whole part; `point` if that part may be missing. -/
def afterWhole? (whole : List Nat) (rest : List Char) : Option (Constant × List Char) := do
  let hasPoint := rest.head? = some '.'
  let (fraction, rest) ← if hasPoint then fraction? (rest.drop 1) else some ([], rest)
  let (exponent?, rest) ← exponent? rest
  let exponent := exponent?.getD 0
  let double := Constant.float
    (.ofDecimal false (ofDigits 10 (whole ++ fraction)) (exponent - fraction.length))
  let isReal := hasPoint || exponent?.isSome
  let imaginary := rest.head?.any fun c => c = 'j' || c = 'J'
  if whole.head? = some 0 && whole.any (· ≠ 0) && !isReal && !imaginary then none
  else closeReal whole fraction exponent (if isReal then double else .int (ofDigits 10 whole)) rest

/-- The number at the start of a text, which starts with a digit or a point. -/
def number? (cs : List Char) : Option (Constant × List Char) :=
  match cs with
  | '.' :: _ => afterWhole? [] cs
  | '0' :: c :: rest =>
      if c = 'x' || c = 'X' then basedNumber? 16 rest
      else if c = 'o' || c = 'O' then basedNumber? 8 rest
      else if c = 'b' || c = 'B' then basedNumber? 2 rest
      else do
        let (whole, rest) ← digitRun? Text.asciiDigit? cs
        afterWhole? whole rest
  | _ => do
      let (whole, rest) ← digitRun? Text.asciiDigit? cs
      afterWhole? whole rest

end Docsig.Code.Lexer
