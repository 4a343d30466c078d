/-!
Log records and their levels.

Settings name the levels from which on records are kept and from which on they
are errors. Names are read without regard to case, and a name that no level has
counts as the usual level. A few names mean something that is no level.
-/

namespace Docsig.Logging

/-! ### Records -/

/-- A log record: how grave it is, who speaks, and what is said. -/
structure Record where
  level : Int
  logger : String
  message : String
  deriving DecidableEq, Repr, Inhabited

def debugLevel : Int := 10

def infoLevel : Int := 20

def warningLevel : Int := 30

def errorLevel : Int := 40

def criticalLevel : Int := 50

/-! ### Names -/

/-- The upper case of a letter, as far as it matters for the names of levels:
besides the letters of ASCII, the dotless i and the long s have one there. -/
def upperLetter (c : Char) : Char :=
  if c = '\u0131' then 'I' else if c = '\u017f' then 'S' else c.toUpper

def upperName (s : String) : String := String.ofList (s.toList.map upperLetter)

def levelNames : List (String × Int) :=
  [("CRITICAL", criticalLevel), ("FATAL", criticalLevel), ("ERROR", errorLevel),
    ("WARNING", warningLevel), ("WARN", warningLevel), ("INFO", infoLevel),
    ("DEBUG", debugLevel), ("NOTSET", 0)]

/-- What a name means. -/
inductive Meaning where
  | level (level : Int)
  /-- The pattern of a record. -/
  | pattern
  /-- The styles of patterns. -/
  | styles
  deriving DecidableEq, Repr

/-- What a name means; `usual` is the level for other names. -/
def meaning (usual : Int) (name : String) : Meaning :=
  let name := upperName name
  if name == "BASIC_FORMAT" then .pattern
  else if name == "_STYLES" then .styles
  else .level (((levelNames.find? fun entry => entry.1 == name).map Prod.snd).getD usual)

def levelText (level : Int) : String :=
  if level = criticalLevel then "CRITICAL"
  else if level = errorLevel then "ERROR"
  else if level = warningLevel then "WARNING"
  else if level = infoLevel then "INFO"
  else if level = debugLevel then "DEBUG"
  else if level = 0 then "NOTSET"
  else "Level " ++ toString level

end Docsig.Logging
