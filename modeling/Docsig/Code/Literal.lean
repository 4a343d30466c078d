import Docsig.Code.Parser
import Docsig.Code.Printer
import Docsig.Text.Blank
import Docsig.Value.Display
import Docsig.Value.Equality

/-!
Literals: the expressions that stand for values.

Constants other than bytes, imaginary numbers and the ellipsis are literals, and
so are numbers with a sign, lists, tuples and maps of literals whose keys are
texts. Tuples stand for lists. `Literal.ofExpr` evaluates an expression or says
which part of it is no literal.
-/

namespace Docsig.Code.Literal

inductive Cause where
  /-- A constant of another kind. -/
  | unsupported (kind : String)
  /-- A sign in front of something that is no number. -/
  | sign
  /-- A map that is spread in another. -/
  | spread
  /-- A key that is no text. -/
  | key (found : Value)
  /-- An expression of another form, by its text. -/
  | form (text : String)
  /-- An expression of another form that has no text. -/
  | unprintable
  deriving Repr

def Cause.message : Cause → String
  | unsupported kind => "Unsupported literal of type " ++ kind
  | sign => "Unary sign is only allowed in front of a number"
  | spread => "Dictionary unpacking is not allowed in literals"
  | key found => "Object keys must be strings, got " ++ found.display
  | form text => "Expected a literal value, got '" ++ text ++ "'"
  | unprintable => "Expected a literal value"

/-- Why an expression is no literal, and the line of the part that is none. -/
structure Fault where
  cause : Cause
  line : Nat
  deriving Repr

/-! ### Evaluation -/

/-- The fault of an expression that has no literal form. -/
def formFault (e : Expr) : Fault :=
  match Printer.text? e with
  | some text => ⟨.form text, e.place.line⟩
  | none => ⟨.unprintable, e.place.line⟩

def ofConstant (line : Nat) : Constant → Except Fault Value
  | .none => .ok .null
  | .bool b => .ok (.bool b)
  | .int n => .ok (.int n)
  | .float d => .ok (.float d)
  | .text s _ => .ok (.text s)
  | .bytes _ => .error ⟨.unsupported "bytes", line⟩
  | .imaginary _ => .error ⟨.unsupported "complex", line⟩
  | .ellipsis => .error ⟨.unsupported "ellipsis", line⟩

/-- The value of a sign in front of an expression. -/
def signed (line : Nat) (negative : Bool) : Expr → Except Fault Value
  | .constant _ (.int n) => .ok (.int (if negative then -(n : Int) else n))
  | .constant _ (.float d) => .ok (.float (if negative then d.neg else d))
  | _ => .error ⟨.sign, line⟩

/-- A key, which has to be a text. -/
def textKey (line : Nat) (key : Value) : Except Fault Value :=
  if key.text?.isSome then .ok key else .error ⟨.key key, line⟩

mutual

def ofExpr : Expr → Except Fault Value
  | .constant p c => ofConstant p.line c
  | .unary p .minus operand => signed p.line true operand
  | .unary p .plus operand => signed p.line false operand
  | .list _ items => do return .list (← ofItems items)
  | .tuple _ items => do return .list (← ofItems items)
  | .dict _ entries => do return .dict (Value.ofEntries (← ofEntries entries))
  | e => .error (formFault e)

def ofItems : List Expr → Except Fault (List Value)
  | [] => .ok []
  | e :: es => do
      let v ← ofExpr e
      return v :: (← ofItems es)

def ofEntries : List (Option Expr × Expr) → Except Fault (List (Value × Value))
  | [] => .ok []
  | (none, value) :: _ => .error ⟨.spread, value.place.line⟩
  | (some key, value) :: es => do
      let k ← ofExpr key
      let k ← textKey key.place.line k
      let v ← ofExpr value
      return (k, v) :: (← ofEntries es)

end

/-! ### Texts -/

/-- Why a text is no literal. -/
inductive TextFault where
  /-- The text is no expression. -/
  | invalid (text : String)
  | nullCharacter
  | fault (f : Fault)
  deriving Repr

def TextFault.message : TextFault → String
  | invalid text => "Invalid literal '" ++ text ++ "'"
  | nullCharacter => "Invalid literal"
  | fault f => f.cause.message

/-- The value of the literal that a text is, white space around it allowed. -/
def ofText (cs : List Char) : Except TextFault Value :=
  let stripped := Text.trim cs
  match expression stripped with
  | .error .nullCharacter => .error .nullCharacter
  | .error (.invalid _) => .error (.invalid (String.ofList stripped))
  | .ok e =>
      match ofExpr e with
      | .ok v => .ok v
      | .error f => .error (.fault f)

end Docsig.Code.Literal
