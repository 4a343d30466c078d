import Docsig.Value.Display
import Docsig.Value.Equality
import Docsig.Yaml.Cursor

/-!
What a YAML file holds, as far as settings are read from it.

The keys of a mapping are scalars: null, truth values, numbers, texts, bytes, days and
moments. Keys of one sort have an order. A moment has a distance from universal time or none,
and only moments that agree in that can be compared.

A reader of files is any function to documents. What it leaves of a value that the library
has no values for, such as a day or a list that holds itself, is that there is one.
-/

namespace Docsig.Yaml

/-! ### Days and moments -/

structure Day where
  year : Nat
  month : Nat
  day : Nat
  deriving DecidableEq, Repr

/-- A day and a time on it, with the distance from universal time in seconds if there is
one. -/
structure Moment where
  day : Day
  hour : Nat
  minute : Nat
  second : Nat
  microsecond : Nat
  offset? : Option Int
  deriving DecidableEq, Repr

namespace Day

def isLeap (year : Nat) : Bool := year % 4 = 0 && (year % 100 ≠ 0 || year % 400 = 0)

/-- The days before each month of a year that is no leap year. -/
def daysBefore : List Nat := [0, 31, 59, 90, 120, 151, 181, 212, 243, 273, 304, 334]

/-- The number of a day, from the first day of the year one. -/
def ordinal (d : Day) : Nat :=
  let years := d.year - 1
  let leapDay := if isLeap d.year && 2 < d.month then 1 else 0
  years * 365 + years / 4 - years / 100 + years / 400 + daysBefore.getD (d.month - 1) 0 +
    leapDay + d.day

def parts (d : Day) : List Nat := [d.year, d.month, d.day]

def display (d : Day) : String :=
  "datetime.date(" ++ Value.joined ", " (d.parts.map toString) ++ ")"

end Day

namespace Moment

/-- The microseconds from the beginning of the calendar, in universal time. -/
def instant (m : Moment) : Int :=
  let hours := m.day.ordinal * 24 + m.hour
  let seconds := ((hours * 60 + m.minute) * 60 + m.second : Nat) - m.offset?.getD 0
  seconds * 1000000 + m.microsecond

/-- The numbers of a moment; seconds and their fractions are left out at its end if they
are zero. -/
def parts (m : Moment) : List Nat :=
  m.day.parts ++ [m.hour, m.minute] ++
    (if m.microsecond ≠ 0 then [m.second, m.microsecond]
      else if m.second ≠ 0 then [m.second] else [])

/-- The text of a distance from universal time, by whole days and the seconds after them. -/
def displayOffset (seconds : Int) : String :=
  if seconds = 0 then "tzinfo=datetime.timezone.utc"
  else
    let days := seconds / 86400
    let rest := seconds % 86400
    let parts := (if days = 0 then [] else ["days=" ++ toString days]) ++
      (if rest = 0 then [] else ["seconds=" ++ toString rest])
    "tzinfo=datetime.timezone(datetime.timedelta(" ++ Value.joined ", " parts ++ "))"

def display (m : Moment) : String :=
  let parts := m.parts.map toString ++ (m.offset?.map displayOffset).toList
  "datetime.datetime(" ++ Value.joined ", " parts ++ ")"

end Moment

/-! ### Keys -/

/-- The key of an entry in a mapping. -/
inductive Key where
  | null
  | bool (b : Bool)
  | int (n : Int)
  | float (d : Double)
  | text (s : String)
  | bytes (data : List UInt8)
  | day (d : Day)
  | moment (m : Moment)
  deriving Repr

/-- The sorts of keys that have an order. -/
inductive KeySort where
  | number
  | text
  | bytes
  | day
  | localMoment
  | universalMoment
  deriving DecidableEq, Repr

namespace Key

/-- The sort of a key. Null has no order, not even with itself. -/
def sort? : Key → Option KeySort
  | null => none
  | bool _ | int _ | float _ => some .number
  | text _ => some .text
  | bytes _ => some .bytes
  | day _ => some .day
  | moment m => some (if m.offset?.isSome then .universalMoment else .localMoment)

/-- An integer as a number among doubles, without rounding. -/
def exactly (n : Int) : Double := .finite (n < 0) n.natAbs 0

/-- The number that a key is; a truth value is one. -/
def number? : Key → Option Double
  | bool b => some (exactly (Value.truthInt b))
  | int n => some (exactly n)
  | float d => some d
  | _ => none

/-- Whether a number comes before another or is the same. -/
def numberAtMost : Double → Double → Bool
  | .infinite s, d => s || d == .infinite false
  | d, .infinite t => !t || d == .infinite true
  | .finite s m e, .finite t n f =>
      let scale := (-(min e f)).toNat
      Double.scaledBy scale s m e ≤ Double.scaledBy scale t n f
  | _, _ => false

/-- Whether a key comes before another of its sort or is the same. -/
def atMost : Key → Key → Bool
  | text s, text t => s ≤ t
  | bytes data, bytes other => data ≤ other
  | day d, day e => d.ordinal ≤ e.ordinal
  | moment m, moment n => m.instant ≤ n.instant
  | k, l => numberAtMost (k.number?.getD .nan) (l.number?.getD .nan)

def display : Key → String
  | null => Value.null.display
  | bool b => (Value.bool b).display
  | int n => (Value.int n).display
  | float d => (Value.float d).display
  | text s => (Value.text s).display
  | bytes data => (Value.bytes .fixed data).display
  | day d => d.display
  | moment m => m.display

/-- The key that a value is; a list or a map is none. -/
def ofValue? : Value → Option Key
  | .null => some null
  | .bool b => some (bool b)
  | .int n => some (int n)
  | .float d => some (float d)
  | .text s => some (text s)
  | .bytes .fixed data => some (bytes data)
  | _ => none

end Key

/-! ### Documents -/

inductive Document where
  | empty
  /-- A mapping, in which each key is there once; a value that the library has none for is
  left out. -/
  | mapping (entries : List (Key × Option Value))
  | other
  deriving Repr

/-- A function that reads the text of a file. -/
abbrev Reader := String → Except Fault Document

/-- An entry with a key; there is none with a list or a map in place of the key. -/
def Document.entryOf (e : Value × Value) : Except Fault (Key × Option Value) :=
  match Key.ofValue? e.1 with
  | some key => .ok (key, some e.2)
  | none => .error .malformed

def Document.ofValue : Value → Except Fault Document
  | .null => .ok empty
  | .map _ entries => (entries.mapM entryOf).map mapping
  | _ => .ok other

end Docsig.Yaml
