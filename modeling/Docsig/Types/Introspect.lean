import Docsig.Types.Classify
import Docsig.Value.Equality

/-!
Schemas inferred from samples.

The elements of an array are merged into one fragment: null elements make it
nullable, elements of several classes make it anything, arrays are merged as one
long array, and maps field by field, where only fields that all of them have
remain. Fields keep a leaf value as their sample.
-/

namespace Docsig

/-- An inferred schema. -/
structure Fragment where
  type : Tag
  /-- The key, for the fragment of a field. -/
  name? : Option Value := none
  schema? : Option (List Fragment) := none
  /-- Whether null was seen, so that null is the default. -/
  nullable : Bool := false
  sample? : Option Value := none
  deriving Repr, Inhabited

namespace Fragment

/-- Why no fragment is found: a value that is no finite number stands where its
fields are needed. -/
inductive Fault where
  /-- The fields of one value are asked for. -/
  | noFields (found : Value)
  /-- Its keys are compared with those of other values. -/
  | noKeys (found : Value)
  deriving Repr

/-- The fragment of values of which nothing but null is known. -/
def unknown : Fragment := { type := .any, nullable := true }

def named (name : Value) (f : Fragment) : Fragment := { f with name? := some name }

/-! ### Classes of several values -/

/-- The class that all values share; none if there are several or no value. -/
def commonClass? : List Value → Option Tag
  | [] => none
  | v :: vs => if vs.all fun w => w.classify == v.classify then some v.classify else none

/-- The first value that is not null, if it is a leaf. -/
def firstLeaf? (vs : List Value) : Option Value :=
  (vs.find? fun v => !v.isNull).filter fun v => v.classify.isLeaf

/-! ### Fields of several maps -/

/-- The entries of a value whose keys are needed. -/
def entriesOf (v : Value) : Except Fault (List (Value × Value)) :=
  match v with
  | .map _ es => .ok es
  | _ => .error (.noKeys v)

/-- Whether all values have a key. A value is looked at only if all before it
have the key. -/
def allHaveKey (key : Value) : List Value → Except Fault Bool
  | [] => .ok true
  | v :: vs => do
      let es ← entriesOf v
      if Value.hasKey key es then allHaveKey key vs else return false

/-- Those of some entries whose keys all values have. -/
def sharedEntries (others : List Value) :
    List (Value × Value) → Except Fault (List (Value × Value))
  | [] => .ok []
  | (key, x) :: es => do
      let shared ← allHaveKey key others
      let rest ← sharedEntries others es
      return if shared then (key, x) :: rest else rest

def valuesUnder (key : Value) (vs : List Value) : List Value :=
  vs.filterMap fun v => v.entries?.bind (Value.lookup? key)

/-- The keys that all of some maps have, in the order of the first, each with the values
under it. The first map has the values of its own entries, even under a key that equals
nothing. -/
def columns : List Value → Except Fault (List (Value × List Value))
  | [] => .ok []
  | first :: rest => do
      let es ← entriesOf first
      let shared ← sharedEntries rest es
      return shared.map fun e => (e.1, e.2 :: valuesUnder e.1 rest)

/-! ### Merging -/

/-- The items of some arrays, one array after the other. -/
def allItems (vs : List Value) : List Value := vs.flatMap fun v => v.items?.getD []

/-- The fragment of a field whose values have several classes. -/
def mixedField (name : Value) (values : List Value) : Fragment :=
  { type := .any, name? := some name, nullable := values.any Value.isNull,
    sample? := firstLeaf? values }

/-- The fragment of a field; `below` merges values as the elements of an array. -/
def ofField (below : List Value → Except Fault Fragment) (name : Value) (values : List Value) :
    Except Fault Fragment :=
  match commonClass? values with
  | none => .ok (mixedField name values)
  | some .any => .ok (named name unknown)
  | some .object => (below values).map (named name)
  | some .array => (below values).map (named name)
  | some tag => .ok { type := tag, name? := some name, sample? := values.head? }

/-- The fragments of the fields that all of some maps have. -/
def ofMaps (below : List Value → Except Fault Fragment) (maps : List Value) :
    Except Fault (List Fragment) := do
  let columns ← columns maps
  columns.mapM fun column => ofField below column.1 column.2

/-- The fragment of elements other than null; `below` merges what stands one
level deeper. -/
def ofPresent (below : List Value → Except Fault Fragment) (nullable : Bool)
    (present : List Value) : Except Fault Fragment :=
  match commonClass? present with
  | none => .ok { type := .any, nullable := nullable }
  | some .object => do
      let fields ← ofMaps below present
      return { type := .object, schema? := some fields, nullable := nullable }
  | some .array => do
      let element ← below (allItems present)
      return { type := .array, schema? := some [element], nullable := nullable }
  | some tag => .ok { type := tag, nullable := nullable }

/-- The fragment of the elements of an array, none of them deeper than the first
argument. -/
def merge : Nat → List Value → Except Fault Fragment
  | 0, _ => .ok unknown
  | depth + 1, elements =>
      let present := elements.filter fun v => !v.isNull
      if present.isEmpty then .ok unknown
      else ofPresent (merge depth) (present.length < elements.length) present

def ofElements (elements : List Value) : Except Fault Fragment :=
  merge (Value.depthOfAll elements) elements

/-! ### Single values -/

mutual

/-- The fragment of a value. -/
def ofValue : Value → Except Fault Fragment
  | .null => .ok unknown
  | .map _ es => do
      let fields ← ofEntries es
      return { type := .object, schema? := some fields }
  | .seq _ xs => do
      let element ← ofElements xs
      return { type := .array, schema? := some [element] }
  | v => if v.classify = .object then .error (.noFields v) else .ok { type := v.classify }

/-- The fragments of entries; leaves are their own samples. -/
def ofEntries : List (Value × Value) → Except Fault (List Fragment)
  | [] => .ok []
  | (key, v) :: es => do
      let fragment ← ofValue v
      let rest ← ofEntries es
      let sample? := if v.classify.isLeaf then some v else none
      return { fragment with name? := some key, sample? := sample? } :: rest

end

end Fragment

end Docsig
