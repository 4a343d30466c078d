import Docsig.Value.Basic

/-!
Freezing and thawing.

`freeze` gives the read-only form of a value, in which every sequence is a tuple
and every map a frozen view; `thaw` gives the open form. Keys are left as they
are: they cannot be changed in either form.
-/

namespace Docsig.Value

/-! ### Freezing -/

mutual

/-- The read-only form of a value. -/
def freeze : Value → Value
  | seq _ xs => seq .tuple (freezeAll xs)
  | map _ es => map .frozen (freezeEntries es)
  | v => v

def freezeAll : List Value → List Value
  | [] => []
  | x :: xs => freeze x :: freezeAll xs

def freezeEntries : List (Value × Value) → List (Value × Value)
  | [] => []
  | (k, x) :: es => (k, freeze x) :: freezeEntries es

end

/-! ### Thawing -/

mutual

/-- The open form of a value. -/
def thaw : Value → Value
  | seq _ xs => seq .list (thawAll xs)
  | map _ es => map .dict (thawEntries es)
  | v => v

def thawAll : List Value → List Value
  | [] => []
  | x :: xs => thaw x :: thawAll xs

def thawEntries : List (Value × Value) → List (Value × Value)
  | [] => []
  | (k, x) :: es => (k, thaw x) :: thawEntries es

end

end Docsig.Value
