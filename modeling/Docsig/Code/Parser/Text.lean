import Docsig.Code.Parser.Basic
import Docsig.Code.Template

/-!
Reading texts.

Texts next to each other are one text. Texts and bytes do not mix. A text with
fields becomes a list of parts, in which neighbouring literals are joined.
-/

namespace Docsig.Code.Parser

/-- How the source of a field is read: its expression, or the line of a fault. -/
abbrev FieldReader := Place → List Char → Except Nat Expr

/-! ### Parts -/

/-- Parts with neighbouring literals joined and without empty ones. -/
def joinParts : List TextPart → List TextPart
  | [] => []
  | .literal a :: rest =>
      match joinParts rest with
      | .literal b :: rest => .literal (a ++ b) :: rest
      | rest => if a.isEmpty then rest else .literal a :: rest
  | part :: rest => part :: joinParts rest

mutual

/-- The part that a piece is. -/
def partOf (read : FieldReader) : Template.Piece → Except Nat TextPart
  | .literal cs => .ok (.literal (String.ofList cs))
  | .field place source conversion? format? => do
      let value ← read place source
      let format? ← formatOf read format?
      return .field value conversion? format?

def formatOf (read : FieldReader) : Option (List Template.Piece) →
    Except Nat (Option (List TextPart))
  | some ps => do return some (joinParts (← partsOf read ps))
  | none => .ok none

def partsOf (read : FieldReader) : List Template.Piece → Except Nat (List TextPart)
  | [] => .ok []
  | p :: ps => do
      let part ← partOf read p
      let parts ← partsOf read ps
      return part :: parts

end

/-! ### Runs of texts -/

structure TextToken where
  marks : TextMarks
  body : List Char
  lead : Nat
  place : Place

def textToken? : Reader (Option TextToken) := do
  let t ← peek
  match t.kind with
  | .text marks body lead =>
      advance
      return some ⟨marks, body, lead, t.place⟩
  | _ => return none

/-- The parts of a text; the line is reported where its escapes or fields are
wrong. -/
def textParts (read : FieldReader) (line : Nat) (t : TextToken) : Except Nat (List TextPart) :=
  if t.marks.formatted then
    match Template.ofBody? t.marks.raw ⟨t.place.line, t.place.column + t.lead⟩ t.body with
    | some pieces => partsOf read pieces
    | none => .error line
  else
    match Escape.text? t.marks.raw t.body with
    | some cs => .ok [.literal (String.ofList cs)]
    | none => .error line

def textBytes (line : Nat) (t : TextToken) : Except Nat (List UInt8) :=
  if t.body.any fun c => 128 ≤ c.toNat then .error t.place.line
  else
    match Escape.bytes? t.marks.raw t.body with
    | some data => .ok data
    | none => .error line

/-- The text of parts without fields. -/
def literalText : List TextPart → String
  | .literal s :: rest => s ++ literalText rest
  | _ => ""

/-- The expression that a run of texts is; `line` is that of the token after it. -/
def joinTexts (read : FieldReader) (line : Nat) (place : Place) (ts : List TextToken) :
    Except Nat Expr :=
  if ts.all fun t => t.marks.bytes then do
    let data ← ts.mapM (textBytes line)
    return .constant place (.bytes data.flatten)
  else if ts.any fun t => t.marks.bytes then .error line
  else do
    let parts ← ts.mapM (textParts read line)
    let joined := joinParts parts.flatten
    if ts.any fun t => t.marks.formatted then return .joined place joined
    else return .constant place (.text (literalText joined) (ts.head?.any fun t => t.marks.unicode))

def texts (read : FieldReader) : Reader Expr := do
  let start ← place
  let ts ← many textToken?
  let line := (← peek).place.line
  match joinTexts read line start ts with
  | .ok e => return e
  | .error line => raise line

end Docsig.Code.Parser
