/-
Where an object file can be written.

Whether a path can be written to depends on the directories that exist. For a path that starts in
a directory without any subdirectories the answer depends on the path alone: a path that names a
directory is refused as such, a path through a name that does not exist is refused because there
is no such directory, and any other path is a new file. Names and paths have a longest length,
counted in bytes, and no name has a zero character.
-/
import Dynarec.Fault
import Dynarec.Text.Lines

set_option autoImplicit false

namespace Dynarec.Report

/-- A piece of a path that stays among the directories known to exist. -/
def staysPut (piece : List Char) : Bool :=
  piece.isEmpty || piece == ".".toList || piece == "..".toList

/-- The number of bytes of a text. -/
def byteLength (text : List Char) : Nat := (String.ofList text).utf8ByteSize

/-- A piece of a path that is longer than any name. -/
def isTooLong (piece : List Char) : Bool := 255 < byteLength piece

/-- Why the pieces of a path cannot be written to. -/
def refusedPieces : List (List Char) → Option WriteCause
  | [] => some .isDirectory
  | piece :: rest =>
    if staysPut piece then refusedPieces rest
    else if !rest.isEmpty && rest.all (·.isEmpty) then some .isDirectory
    else if isTooLong piece then some .nameTooLong
    else if rest.isEmpty then none
    else some .noSuchDirectory

/-- Why a path cannot be written to from an empty directory, if it cannot. -/
def refusedInEmptyDirectory (path : String) : Option WriteCause :=
  if path.contains '\x00' then some .zeroInPath
  else if path.isEmpty then some .noSuchDirectory
  else if 4095 < path.utf8ByteSize then some .nameTooLong
  else refusedPieces (Text.splitOn '/' path.toList)

end Dynarec.Report
