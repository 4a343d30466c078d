import Docsig.Types.Tag

/-!
The class of a value.

Truth values are no numbers, and neither are infinities and "not a number". The
classes of `classify` exclude each other: every value has exactly one.
-/

namespace Docsig

/-- The greatest integer up to which every integer is a double, `2 ^ 53 - 1`. -/
def maxSafeInteger : Int := 9007199254740991

namespace Value

/-- An integer or a finite double. -/
def isNumber : Value → Bool
  | int _ => true
  | float d => d.isFinite
  | _ => false

/-- A number without a fraction, within the safe range. -/
def isInteger : Value → Bool
  | int n => -maxSafeInteger ≤ n && n ≤ maxSafeInteger
  | float d =>
      match d.integer? with
      | some n => -maxSafeInteger ≤ n && n ≤ maxSafeInteger
      | none => false
  | _ => false

/-- A sequence of bytes. -/
def isBuffer : Value → Bool
  | bytes _ _ => true
  | _ => false

/-- A list or a tuple. -/
def isArray : Value → Bool
  | seq _ _ => true
  | _ => false

/-- A map. -/
def isObject : Value → Bool
  | map _ _ => true
  | _ => false

def isText : Value → Bool
  | text _ => true
  | _ => false

def isBoolean : Value → Bool
  | bool _ => true
  | _ => false

/-- The tag of a value's class. Null may be anything, and what is no finite
number counts as an object. -/
def classify : Value → Tag
  | null => .any
  | text _ => .string
  | bool _ => .boolean
  | int _ => .number
  | float d => if d.isFinite then .number else .object
  | bytes _ _ => .buffer
  | seq _ _ => .array
  | map _ _ => .object

end Value

end Docsig
