import Docsig.Number.Double

/-!
The values that the type engine works on.

A value is a scalar, a sequence of bytes, a sequence of values or a map from
values to values. Sequences and maps come in an open and a frozen kind: reading
a literal gives open ones, a definition keeps frozen ones. Map entries stand in
insertion order.
-/

namespace Docsig

/-! ### Kinds -/

/-- Whether bytes are fixed or growable. -/
inductive BytesKind where
  | fixed
  | growable
  deriving DecidableEq, Repr

/-- Whether a sequence is an open list or a frozen tuple. -/
inductive SeqKind where
  | list
  | tuple
  deriving DecidableEq, Repr

/-- Whether a map is open or a frozen view. -/
inductive MapKind where
  | dict
  | frozen
  deriving DecidableEq, Repr

inductive Value where
  | null
  | bool (b : Bool)
  | int (n : Int)
  | float (d : Double)
  | text (s : String)
  | bytes (kind : BytesKind) (data : List UInt8)
  | seq (kind : SeqKind) (items : List Value)
  | map (kind : MapKind) (entries : List (Value × Value))
  deriving Repr, Inhabited

namespace Value

/-! ### Constructors for the common kinds -/

/-- An open list. -/
abbrev list (items : List Value) : Value := seq .list items

/-- A frozen sequence. -/
abbrev tuple (items : List Value) : Value := seq .tuple items

/-- An open map. -/
abbrev dict (entries : List (Value × Value)) : Value := map .dict entries

/-- An open map with text keys. -/
def record (fields : List (String × Value)) : Value :=
  dict (fields.map fun (key, value) => (text key, value))

/-! ### Parts -/

def isNull : Value → Bool
  | null => true
  | _ => false

def text? : Value → Option String
  | text s => some s
  | _ => none

def items? : Value → Option (List Value)
  | seq _ xs => some xs
  | _ => none

def entries? : Value → Option (List (Value × Value))
  | map _ es => some es
  | _ => none

/-- The name of a value's kind in messages. -/
def kindName : Value → String
  | null => "NoneType"
  | bool _ => "bool"
  | int _ => "int"
  | float _ => "float"
  | text _ => "str"
  | bytes .fixed _ => "bytes"
  | bytes .growable _ => "bytearray"
  | seq .list _ => "list"
  | seq .tuple _ => "tuple"
  | map .dict _ => "dict"
  | map .frozen _ => "mappingproxy"

/-- Whether a value counts as present where an optional part is tested: null,
false, zero and everything empty do not. -/
def isTruthy : Value → Bool
  | null => false
  | bool b => b
  | int n => n != 0
  | float (.finite _ m _) => m != 0
  | float _ => true
  | text s => !s.isEmpty
  | bytes _ data => !data.isEmpty
  | seq _ xs => !xs.isEmpty
  | map _ es => !es.isEmpty

/-- The elements that a value yields when it is walked: the items of a sequence,
the characters of a text, the keys of a map, the numbers of bytes. Other values
cannot be walked. -/
def elements? : Value → Option (List Value)
  | seq _ xs => some xs
  | text s => some (s.toList.map fun c => text (String.singleton c))
  | map _ es => some (es.map Prod.fst)
  | bytes _ data => some (data.map fun b => int b.toNat)
  | _ => none

/-! ### Depth -/

mutual

/-- The nesting depth of a value; a scalar has depth one. -/
def depth : Value → Nat
  | seq _ xs => depthOfAll xs + 1
  | map _ es => depthOfEntries es + 1
  | _ => 1

def depthOfAll : List Value → Nat
  | [] => 0
  | x :: xs => max (depth x) (depthOfAll xs)

def depthOfEntries : List (Value × Value) → Nat
  | [] => 0
  | (_, x) :: es => max (depth x) (depthOfEntries es)

end

end Value

end Docsig
