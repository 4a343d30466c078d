import Docsig.Comment.Declaration

/-!
Comment blocks: a description and the declarations after it.

The description is kept as it is written, without the one blank line that
separates it from the first declaration. Lines below a declaration continue it,
blank ones do not count.
-/

namespace Docsig.Comment

structure Block where
  description : String
  declarations : List Declaration
  deriving DecidableEq, Repr, Inhabited

structure BlockFault where
  fault : Fault
  line : Nat
  deriving DecidableEq, Repr

/-- Whether a line starts a declaration. -/
def isDeclarationLine (line : Line) : Bool := (Text.trim line.text).head? = some '@'

def continuation (lines : List Line) : List String :=
  (lines.map fun line => Text.trim line.text).filter (· ≠ []) |>.map String.ofList

/-- The declarations that start at some lines; other lines continue the
declaration above them. -/
def readDeclarations : List Line → Except BlockFault (List Declaration)
  | [] => .ok []
  | line :: rest =>
      if isDeclarationLine line then
        let stripped := Text.trim line.text
        match readHeading (String.ofList stripped) (stripped.drop 1) with
        | .error fault => .error ⟨fault, line.number⟩
        | .ok heading => do
            let extra := continuation (rest.takeWhile fun l => !isDeclarationLine l)
            let declarations ← readDeclarations rest
            return ⟨heading, line.number, extra⟩ :: declarations
      else readDeclarations rest

/-- Lines without the last one, if that is blank. -/
def dropFinalBlank (lines : List (List Char)) : List (List Char) :=
  match lines.getLast? with
  | some last => if Text.isBlankText last then lines.dropLast else lines
  | none => lines

def joinLines (lines : List (List Char)) : String :=
  String.intercalate "\n" (lines.map String.ofList)

/-- The description: the lines above the first declaration. -/
def description (lines : List Line) : String :=
  let above := (lines.takeWhile fun l => !isDeclarationLine l).map Line.text
  joinLines (if lines.any isDeclarationLine then dropFinalBlank above else above)

def readBlock (lines : List Line) : Except BlockFault Block := do
  let declarations ← readDeclarations lines
  return ⟨description lines, declarations⟩

end Docsig.Comment
