import Docsig.Logging.Basic
import Docsig.Settings.Basic

/-!
Where log records go.

The records of the library are kept from a level on and then go to one of two
streams: errors to the one, the rest to the other. A record is a line with the
name of the speaker and the level. Records of other speakers go to the stream of
errors as they are, from warnings on.
-/

namespace Docsig.Logging

/-- From which levels on records are kept and are errors. -/
structure Setup where
  level : Int
  errorsFrom : Int
  deriving DecidableEq, Repr

inductive Fault where
  /-- A value that is no text where a level is named. -/
  | notText (found : Value)
  /-- A name of something else than a level. -/
  | notLevel (meaning : Meaning)
  /-- The same, where levels are compared. -/
  | notComparable (meaning : Meaning)
  deriving Repr

namespace Setup

/-- What a value means that names a level. -/
def meaningOf (usual : Int) : Value → Except Fault Meaning
  | .text s => .ok (meaning usual s)
  | v => .error (.notText v)

def ofSettings (s : Settings) : Except Fault Setup := do
  let kept ← meaningOf infoLevel s.logLevel
  let errors ← meaningOf errorLevel s.printLevel
  match kept, errors with
  | .level kept, .level errors => return ⟨kept, max errors debugLevel⟩
  | .level _, other => throw (.notComparable other)
  | other, _ => throw (.notLevel other)

/-- The levels from which on the two streams take records. -/
def streamLevels (setup : Setup) : List Int := [debugLevel, setup.errorsFrom]

/-! ### Streams -/

/-- The name of the library's logger. -/
def rootLogger : String := "funcdoc"

/-- Whether a speaker belongs to the library. -/
def isOwn (logger : String) : Bool :=
  logger == rootLogger || (rootLogger ++ ".").toList.isPrefixOf logger.toList

/-- The level from which on the library's records are kept: the one of the setup,
and warnings where that is zero. -/
def keptFrom (setup : Setup) : Int := if setup.level = 0 then warningLevel else setup.level

/-- Whether a record is kept. No record at or below level zero is. -/
def keeps (setup : Setup) (r : Record) : Bool :=
  0 < r.level && (if isOwn r.logger then setup.keptFrom else warningLevel) ≤ r.level

def line (r : Record) : String :=
  if isOwn r.logger then r.logger ++ " - " ++ levelText r.level ++ " - " ++ r.message ++ "\n"
  else r.message ++ "\n"

/-- Whether a record goes to the stream of errors. -/
def isError (setup : Setup) (r : Record) : Bool :=
  setup.keeps r && (!isOwn r.logger || setup.errorsFrom ≤ r.level)

/-- Whether a record goes to the other stream. -/
def isOutput (setup : Setup) (r : Record) : Bool :=
  setup.keeps r && isOwn r.logger && debugLevel ≤ r.level && r.level < setup.errorsFrom

def errorText (setup : Setup) (rs : List Record) : String :=
  String.join ((rs.filter setup.isError).map line)

def outputText (setup : Setup) (rs : List Record) : String :=
  String.join ((rs.filter setup.isOutput).map line)

end Setup

end Docsig.Logging
