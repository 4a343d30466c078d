/-!
UTF-8, with the reason of the first fault.

`decode` reads one character at a time from its lead byte. A lead byte fixes how
many bytes follow and which values the second of them may take, so overlong
forms, surrogates and code points beyond the last are refused at that byte.
`decodeSource` also drops one byte order mark.
-/

namespace Docsig.Text.Utf8

/-! ### Faults -/

/-- Why bytes are no text. -/
inductive Fault where
  /-- A byte that no character starts with. -/
  | start
  /-- A byte inside a character that cannot follow the bytes before it. -/
  | continuation
  /-- The bytes end inside a character. -/
  | truncated
  deriving DecidableEq, Repr

def Fault.message : Fault → String
  | .start => "invalid start byte"
  | .continuation => "invalid continuation byte"
  | .truncated => "unexpected end of data"

/-! ### Lead bytes -/

/-- What a lead byte announces: the number of bytes after it, the bits it
contributes, and the range of the byte next to it. -/
structure Lead where
  more : Nat
  bits : Nat
  low : Nat
  high : Nat
  deriving DecidableEq, Repr

/-- The announcement of a lead byte beyond ASCII. -/
def lead? (b : Nat) : Option Lead :=
  if b < 0xC2 then none
  else if b < 0xE0 then some ⟨1, b - 0xC0, 0x80, 0xBF⟩
  else if b < 0xF0 then
    some ⟨2, b - 0xE0, if b = 0xE0 then 0xA0 else 0x80, if b = 0xED then 0x9F else 0xBF⟩
  else if b < 0xF5 then
    some ⟨3, b - 0xF0, if b = 0xF0 then 0x90 else 0x80, if b = 0xF4 then 0x8F else 0xBF⟩
  else none

/-! ### Decoding -/

/-- A character whose first bytes have been read: how many are still due, the
bits so far, and the range of the next byte. -/
structure Pending where
  more : Nat
  bits : Nat
  low : Nat
  high : Nat
  deriving DecidableEq, Repr

/-- Decodes bytes after an unfinished character, if there is one. -/
def decodeFrom : Option Pending → List UInt8 → Except Fault (List Char)
  | none, [] => .ok []
  | some _, [] => .error .truncated
  | none, b :: bs =>
      if b.toNat < 0x80 then do
        let rest ← decodeFrom none bs
        return Char.ofNat b.toNat :: rest
      else
        match lead? b.toNat with
        | none => .error .start
        | some l => decodeFrom (some ⟨l.more, l.bits, l.low, l.high⟩) bs
  | some p, b :: bs =>
      if b.toNat < p.low || p.high < b.toNat then .error .continuation
      else
        let bits := p.bits * 64 + (b.toNat - 0x80)
        if p.more ≤ 1 then do
          let rest ← decodeFrom none bs
          return Char.ofNat bits :: rest
        else decodeFrom (some ⟨p.more - 1, bits, 0x80, 0xBF⟩) bs

/-- The text that the bytes encode, or the first fault. -/
def decode (bytes : List UInt8) : Except Fault (List Char) := decodeFrom none bytes

/-- The text of a source file: one byte order mark at its start is no part of
it. -/
def decodeSource : List UInt8 → Except Fault (List Char)
  | 0xEF :: 0xBB :: 0xBF :: bytes => decode bytes
  | bytes => decode bytes

/-! ### Encoding -/

def encodeChar (c : Char) : List UInt8 :=
  let n := c.toNat
  let tail (k : Nat) : UInt8 := UInt8.ofNat (0x80 + n / Nat.pow 64 k % 64)
  if n < 0x80 then [UInt8.ofNat n]
  else if n < 0x800 then [UInt8.ofNat (0xC0 + n / 64), tail 0]
  else if n < 0x10000 then [UInt8.ofNat (0xE0 + n / 4096), tail 1, tail 0]
  else [UInt8.ofNat (0xF0 + n / 262144), tail 2, tail 1, tail 0]

def encode (cs : List Char) : List UInt8 := cs.flatMap encodeChar

def width (c : Char) : Nat := (encodeChar c).length

end Docsig.Text.Utf8
