/-!
Base64 with padding.

`encode` writes four characters for every three bytes. `decode` is strict: every
character counts, padding closes the last group, and nothing follows it. Bits
that the last group leaves over are not examined.
-/

namespace Docsig.Text.Base64

/-! ### The alphabet -/

/-- The character of a six-bit value. -/
def digitChar (n : Nat) : Char :=
  if n < 26 then Char.ofNat ('A'.toNat + n)
  else if n < 52 then Char.ofNat ('a'.toNat + (n - 26))
  else if n < 62 then Char.ofNat ('0'.toNat + (n - 52))
  else if n = 62 then '+'
  else '/'

/-- The six-bit value of a character of the alphabet. -/
def value? (c : Char) : Option Nat :=
  if 'A' ≤ c && c ≤ 'Z' then some (c.toNat - 'A'.toNat)
  else if 'a' ≤ c && c ≤ 'z' then some (c.toNat - 'a'.toNat + 26)
  else if '0' ≤ c && c ≤ '9' then some (c.toNat - '0'.toNat + 52)
  else if c = '+' then some 62
  else if c = '/' then some 63
  else none

/-! ### Encoding -/

def encode : List UInt8 → List Char
  | [] => []
  | [a] =>
      let n := a.toNat * 16
      [digitChar (n / 64), digitChar (n % 64), '=', '=']
  | [a, b] =>
      let n := (a.toNat * 256 + b.toNat) * 4
      [digitChar (n / 4096), digitChar (n / 64 % 64), digitChar (n % 64), '=']
  | a :: b :: c :: rest =>
      let n := (a.toNat * 256 + b.toNat) * 256 + c.toNat
      digitChar (n / 262144) :: digitChar (n / 4096 % 64) :: digitChar (n / 64 % 64) ::
        digitChar (n % 64) :: encode rest

/-! ### Decoding -/

inductive Fault where
  /-- The text holds a character that is not ASCII. -/
  | notAscii
  /-- The text starts with padding. -/
  | leadingPadding
  /-- Something follows the padding of a complete group. -/
  | excessAfterPadding
  /-- A character is not in the alphabet. -/
  | foreignCharacter
  /-- A character of the alphabet follows padding. -/
  | discontinuousPadding
  /-- The text ends after the first character of a group. -/
  | loneCharacter (count : Nat)
  /-- The last group lacks padding. -/
  | incorrectPadding
  deriving DecidableEq, Repr

def Fault.message : Fault → String
  | .notAscii => "string argument should contain only ASCII characters"
  | .leadingPadding => "Leading padding not allowed"
  | .excessAfterPadding => "Excess data after padding"
  | .foreignCharacter => "Only base64 data is allowed"
  | .discontinuousPadding => "Discontinuous padding not allowed"
  | .loneCharacter count =>
      s!"Invalid base64-encoded string: number of data characters ({count}) cannot be 1 more than a multiple of 4"
  | .incorrectPadding => "Incorrect padding"

/-- Where decoding stands inside a group: the number of characters read, the
bits not yet written, the padding in a row, and whether padding was seen. -/
structure Group where
  filled : Nat := 0
  bits : Nat := 0
  pads : Nat := 0
  padded : Bool := false
  deriving DecidableEq, Repr

/-- Decodes from inside a group; `bytes` holds what was written, last byte
first. -/
def decodeFrom (g : Group) (bytes : List UInt8) : List Char → Except Fault (List UInt8)
  | [] =>
      match g.filled with
      | 0 => .ok bytes.reverse
      | 1 => .error (.loneCharacter (bytes.length / 3 * 4 + 1))
      | _ => .error .incorrectPadding
  | c :: cs =>
      if c = '=' then
        if 2 ≤ g.filled then
          if 4 ≤ g.filled + (g.pads + 1) then
            if cs.isEmpty then .ok bytes.reverse else .error .excessAfterPadding
          else decodeFrom { g with pads := g.pads + 1, padded := true } bytes cs
        else decodeFrom { g with padded := true } bytes cs
      else
        match value? c with
        | none => .error .foreignCharacter
        | some v =>
            if g.padded then .error .discontinuousPadding
            else
              match g.filled with
              | 0 => decodeFrom ⟨1, v, 0, false⟩ bytes cs
              | 1 => decodeFrom ⟨2, v % 16, 0, false⟩ (UInt8.ofNat (g.bits * 4 + v / 16) :: bytes) cs
              | 2 => decodeFrom ⟨3, v % 4, 0, false⟩ (UInt8.ofNat (g.bits * 16 + v / 4) :: bytes) cs
              | _ => decodeFrom ⟨0, 0, 0, false⟩ (UInt8.ofNat (g.bits * 64 + v) :: bytes) cs

/-- The bytes that a text encodes, or why it encodes none. -/
def decode (cs : List Char) : Except Fault (List UInt8) :=
  if cs.any fun c => 128 ≤ c.toNat then .error .notAscii
  else if cs.head? = some '=' then .error .leadingPadding
  else decodeFrom {} [] cs

end Docsig.Text.Base64
