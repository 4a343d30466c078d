import Docsig.Number.Numeral
import Docsig.Text.Basic
import Docsig.Yaml.Document
import Docsig.Yaml.Node

/-!
Values of YAML nodes.

A plain scalar is a truth value, a number or null if it is written like one, and
a text otherwise; a quoted scalar is a text. Numbers may have underscores, a base
or parts to the base sixty. The later of two equal keys wins. The key for merging
takes over the pairs of other mappings. Only scalars are keys.

`load` is a reader of a part of YAML. Block scalars, anchors, aliases, tags and
directives are malformed to it, and a date anywhere in a text is a fault.
-/

namespace Docsig.Yaml

/-! ### Arithmetic to the base sixty -/

/-- The sum of two doubles, rounded. -/
def addDoubles : Double → Double → Double
  | .finite s m e, .finite t n f =>
      let scale := (-(min e f)).toNat
      let sum := Double.scaledBy scale s m e + Double.scaledBy scale t n f
      Double.ofRatio (sum < 0) sum.natAbs (Nat.pow 2 scale)
  | .infinite s, _ => .infinite s
  | _, d => d

/-- A double times a natural, rounded. -/
def scaleDouble (k : Nat) : Double → Double
  | .finite s m e =>
      if 0 ≤ e then Double.ofRatio s (m * k * Nat.pow 2 e.toNat) 1
      else Double.ofRatio s (m * k) (Nat.pow 2 (-e).toNat)
  | d => d

/-- The sum of parts to the base sixty, the last part first. -/
def sumDoubles (base : Nat) (sum : Double) : List Double → Double
  | [] => sum
  | d :: ds => sumDoubles (base * 60) (addDoubles sum (scaleDouble base d)) ds

/-! ### Forms of plain scalars -/

def isDecimal (ch : Char) : Bool := '0' ≤ ch && ch ≤ '9'

/-- A digit of a base, or an underscore. -/
def isLooseDigit (base : Nat) (ch : Char) : Bool :=
  ch == '_' || (Text.hexDigit? ch).any fun d => d < base

def digitsOf (cs : List Char) : List Nat := cs.filterMap Text.hexDigit?

/-- The number that loose digits write. -/
def looseNumber (base : Nat) (cs : List Char) : Nat := ofDigits base (digitsOf cs)

/-- Digits with underscores, of which the first is a digit. -/
def isLooseNumber : List Char → Bool
  | [] => false
  | ch :: cs => isDecimal ch && cs.all (isLooseDigit 10)

/-- One digit, or two of which the first is below six. -/
def isSixtieth : List Char → Bool
  | [a] => isDecimal a
  | [a, b] => isDecimal a && a ≤ '5' && isDecimal b
  | _ => false

/-- The parts of a number to the base sixty, the fraction apart: a loose number
and at least one sixtieth. -/
def sixtieths? (cs : List Char) : Option (List (List Char)) :=
  match Text.splitAt ':' cs with
  | first :: second :: further =>
      if isLooseNumber first && (second :: further).all isSixtieth then
        some (first :: second :: further)
      else none
  | _ => none

/-- The integer with a sign that a plain scalar writes behind its sign. -/
def unsigned? (cs : List Char) : Option (Except Fault Nat) :=
  match cs with
  | '0' :: 'b' :: d :: ds =>
      if !(d :: ds).all (isLooseDigit 2) then none
      else if (digitsOf (d :: ds)).isEmpty then some (.error .noDigits)
      else some (.ok (looseNumber 2 (d :: ds)))
  | '0' :: 'x' :: d :: ds =>
      if !(d :: ds).all (isLooseDigit 16) then none
      else if (digitsOf (d :: ds)).isEmpty then some (.error .noDigits)
      else some (.ok (looseNumber 16 (d :: ds)))
  | '0' :: ds => if ds.all (isLooseDigit 8) then some (.ok (looseNumber 8 ds)) else none
  | _ =>
      if isLooseNumber cs then some (.ok (looseNumber 10 cs))
      else
        (sixtieths? cs).map fun parts => .ok (ofDigits 60 (parts.map (looseNumber 10)))

/-- An exponent with a sign, or nothing. -/
def isExponent : List Char → Bool
  | [] => true
  | e :: sign :: d :: ds =>
      (e == 'e' || e == 'E') && (sign == '-' || sign == '+') && (d :: ds).all isDecimal
  | _ => false

/-- What stands behind the point of a decimal number: loose digits and perhaps an
exponent. -/
def isFraction (cs : List Char) : Bool := isExponent (cs.dropWhile (isLooseDigit 10))

/-- The double that a decimal number writes. Underscores are ignored. -/
def decimal (cs : List Char) : Double :=
  let (whole, rest) := takeDigits (cs.filter (· ≠ '_'))
  let (fraction, rest) :=
    match rest with
    | '.' :: rest => takeDigits rest
    | _ => ([], rest)
  let exponent := (Numeral.exponentPart? rest).getD 0
  .ofDecimal false (ofDigits 10 (whole ++ fraction)) (exponent - fraction.length)

/-- The double that a plain scalar writes behind its sign. -/
def unsignedDouble? (cs : List Char) : Option Double :=
  let whole := cs.takeWhile (· != '.')
  match cs.dropWhile (· != '.') with
  | [] => none
  | _ :: fraction =>
      if isLooseNumber whole && isFraction fraction then some (decimal cs)
      else
        (sixtieths? whole).bind fun _ =>
          if fraction.all (isLooseDigit 10) then
            some (sumDoubles 1 (Double.zero false)
              ((Text.splitAt ':' cs).map decimal).reverse)
          else none

def double? (s : String) : Option Double :=
  let (negative, cs) := takeSign s.toList
  let signed (d : Double) : Double := if negative then d.neg else d
  if s == ".nan" || s == ".NaN" || s == ".NAN" then some .nan
  else if cs == ".inf".toList || cs == ".Inf".toList || cs == ".INF".toList then
    some (.infinite negative)
  else
    match s.toList with
    | '.' :: d :: ds =>
        if isDecimal d && isFraction (d :: ds) then some (decimal s.toList) else none
    | _ => (unsignedDouble? cs).map signed

def truth? (s : String) : Option Bool :=
  if ["yes", "Yes", "YES", "true", "True", "TRUE", "on", "On", "ON"].contains s then some true
  else if ["no", "No", "NO", "false", "False", "FALSE", "off", "Off", "OFF"].contains s then
    some false
  else none

def isNullName (s : String) : Bool := ["", "~", "null", "Null", "NULL"].contains s

/-! ### Dates and times -/

/-- What stands behind one or two digits. -/
def afterDigits? : List Char → Option (List Char)
  | a :: b :: cs =>
      if !isDecimal a then none else if isDecimal b then some cs else some (b :: cs)
  | [a] => if isDecimal a then some [] else none
  | [] => none

/-- A blank or a tab. -/
def isSpacing (ch : Char) : Bool := ch == ' ' || ch == '\t'

/-- A zone: a letter, or a sign, hours and perhaps minutes. -/
def isZone : List Char → Bool
  | [] => false
  | ch :: cs =>
      if ch == '-' || ch == '+' then
        match afterDigits? cs with
        | some [] => true
        | some [':', a, b] => isDecimal a && isDecimal b
        | _ => false
      else ch == 'Z' && cs.isEmpty

/-- What may stand behind the seconds of a time: a fraction and a zone. -/
def endsTime (cs : List Char) : Bool :=
  let cs :=
    match cs with
    | '.' :: cs => cs.dropWhile isDecimal
    | _ => cs
  cs.isEmpty || isZone (cs.dropWhile isSpacing)

def isTime (cs : List Char) : Bool :=
  match afterDigits? cs with
  | some (':' :: a :: b :: ':' :: c :: d :: rest) =>
      [a, b, c, d].all isDecimal && endsTime rest
  | _ => false

/-- What may stand behind the day of a date with a time. -/
def isTimed : List Char → Bool
  | [] => false
  | ch :: cs =>
      if ch == 'T' || ch == 't' then isTime cs
      else isSpacing ch && isTime (cs.dropWhile isSpacing)

/-- A month and a day, which have two digits each unless a time follows. -/
def isDayInYear (cs : List Char) : Bool :=
  match cs with
  | [a, b, '-', c, d] => [a, b, c, d].all isDecimal
  | _ =>
      match afterDigits? cs with
      | some ('-' :: cs) => (afterDigits? cs).any isTimed
      | _ => false

/-- Whether a plain scalar is a date, or a date and a time. -/
def isDate (s : String) : Bool :=
  match s.toList with
  | a :: b :: c :: d :: '-' :: cs => [a, b, c, d].all isDecimal && isDayInYear cs
  | _ => false

/-! ### Other plain scalars -/

/-- The key that stands for the pairs of other mappings. -/
def mergeName : String := "<<"

/-- A plain scalar that is read only as a key. -/
def valueName : String := "="

def plainValue (s : String) : Except Fault Value :=
  let (negative, cs) := takeSign s.toList
  match truth? s, double? s, unsigned? cs with
  | some b, _, _ => .ok (.bool b)
  | none, some d, _ => .ok (.float d)
  | none, none, some n => n.map fun n => .int (Double.signed negative n)
  | none, none, none =>
      if isNullName s then .ok .null
      else if s == mergeName || s == valueName then .error .malformed
      else if isDate s then .error .date
      else .ok (.text s)

/-! ### Nodes -/

namespace Node

/-- Whether a node is the key that stands for other pairs. -/
def isMerge : Node → Bool
  | scalar true s => s == mergeName
  | _ => false

/-- The pairs that a merged node gives: those of a mapping, or of a sequence of
mappings, in which the earlier ones win. -/
def pairsOf : Node → Except Fault (List (Node × Node))
  | mapping pairs => .ok pairs
  | sequence items => do
      let each ← items.mapM fun item =>
        match item with
        | mapping pairs => .ok pairs
        | _ => .error Fault.malformed
      return each.reverse.flatten
  | _ => .error .malformed

mutual

/-- A node whose mappings hold the pairs that they merge; merged pairs come
first, so that a mapping's own ones win. -/
def merged : Node → Except Fault Node
  | scalar plain text => .ok (scalar plain text)
  | sequence items => do
      let items ← mergedAll items
      return sequence items
  | mapping pairs => do
      let (taken, own) ← mergedPairs pairs
      return mapping (taken ++ own)

def mergedAll : List Node → Except Fault (List Node)
  | [] => .ok []
  | item :: items => do
      let item ← merged item
      let items ← mergedAll items
      return item :: items

/-- The pairs that are taken over by merging, and the own ones. -/
def mergedPairs : List (Node × Node) →
    Except Fault (List (Node × Node) × List (Node × Node))
  | [] => .ok ([], [])
  | (key, value) :: pairs => do
      let isMerge := key.isMerge
      let key ← merged key
      let value ← merged value
      let (taken, own) ← mergedPairs pairs
      if isMerge then
        let more ← pairsOf value
        return (more ++ taken, own)
      else return (taken, (key, value) :: own)

end

def keyScalar (plain : Bool) (s : String) : Except Fault Value :=
  if plain && s != valueName then plainValue s else .ok (.text s)

mutual

def toValue : Node → Except Fault Value
  | scalar plain s => if plain then plainValue s else .ok (.text s)
  | sequence items => do
      let values ← toValues items
      return .list values
  | mapping pairs => do
      let entries ← toEntries [] pairs
      return .dict entries

def toValues : List Node → Except Fault (List Value)
  | [] => .ok []
  | item :: items => do
      let value ← toValue item
      let values ← toValues items
      return value :: values

/-- The entries of a map after some pairs. -/
def toEntries (entries : List (Value × Value)) :
    List (Node × Node) → Except Fault (List (Value × Value))
  | [] => .ok entries
  | (key, value) :: pairs => do
      let key ←
        match key with
        | scalar plain s => keyScalar plain s
        | _ => throw .malformed
      let value ← toValue value
      toEntries (Value.insert key value entries) pairs

end

end Node

/-- The value of the document in a text; null if there is none. -/
def read (s : String) : Except Fault Value := do
  let ts ← tokens s.toList
  match ← Node.ofTokens ts with
  | none => return .null
  | some node => do
      let node ← node.merged
      node.toValue

def load : Reader := fun s => read s >>= Document.ofValue

end Docsig.Yaml
