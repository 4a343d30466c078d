import Docsig.Value.Basic

/-!
Equality of values and look-up in maps.

Numbers are equal when their values are, whatever their kinds: true is one and
one is also a double. Lists differ from tuples; maps are equal when they have
the same keys with equal values, in any order. `Value.same` is this equality,
`lookup?` and `insert` treat keys by it.
-/

namespace Docsig.Value

/-! ### Scalars -/

/-- The integer that a truth value counts as. -/
def truthInt (b : Bool) : Int := if b then 1 else 0

/-- Equality of scalars; containers are never equal here. -/
def sameScalar : Value → Value → Bool
  | null, null => true
  | bool a, bool b => a == b
  | bool a, int b => truthInt a == b
  | int a, bool b => a == truthInt b
  | bool a, float b => b.sameInt (truthInt a)
  | float a, bool b => a.sameInt (truthInt b)
  | int a, int b => a == b
  | int a, float b => b.sameInt a
  | float a, int b => a.sameInt b
  | float a, float b => a.same b
  | text a, text b => a == b
  | bytes _ a, bytes _ b => a == b
  | _, _ => false

/-! ### Containers -/

mutual

def same : Value → Value → Bool
  | seq k xs, other =>
      match other with
      | seq l ys => k == l && sameItems xs ys
      | _ => false
  | map _ es, other =>
      match other with
      | map _ fs => es.length == fs.length && sameEntries es fs
      | _ => false
  | a, b => sameScalar a b

/-- Equality of lists of values, item by item. -/
def sameItems : List Value → List Value → Bool
  | [], [] => true
  | x :: xs, y :: ys => same x y && sameItems xs ys
  | _, _ => false

/-- Whether every entry has an equal one among the others. -/
def sameEntries : List (Value × Value) → List (Value × Value) → Bool
  | [], _ => true
  | (k, x) :: es, fs => fs.any (fun f => same k f.1 && same x f.2) && sameEntries es fs

end

/-! ### Entries -/

def lookup? (key : Value) : List (Value × Value) → Option Value
  | [] => none
  | (k, x) :: es => if same k key then some x else lookup? key es

def hasKey (key : Value) (entries : List (Value × Value)) : Bool :=
  (lookup? key entries).isSome

/-- The value under a text key. -/
def field? (name : String) (entries : List (Value × Value)) : Option Value :=
  lookup? (text name) entries

/-- Entries with a value under a key: an equal key keeps its place and its
spelling, a new one goes to the end. -/
def insert (key value : Value) : List (Value × Value) → List (Value × Value)
  | [] => [(key, value)]
  | (k, x) :: es => if same k key then (k, value) :: es else (k, x) :: insert key value es

/-- The entries that result from inserting one after the other. -/
def ofEntries (entries : List (Value × Value)) : List (Value × Value) :=
  entries.foldl (fun es (key, value) => insert key value es) []

/-- Whether two values have the same kind, so that only values of one kind are
compared. -/
def sameKind (a b : Value) : Bool := a.kindName == b.kindName

end Docsig.Value
