import Workbench.Host.Error
import Workbench.Text.Split

set_option autoImplicit false

/-! # Building packages

A builder lists the packages of the standard library, says whether a package is there, fetches one,
and builds one with everything it depends on. A build keeps its work directory and announces it in
what it prints. -/

namespace Workbench.Package

/-- What a command left behind: whether it succeeded, and what it printed. -/
structure Printout where
  success : Bool
  stdout : String
  stderr : String
  deriving DecidableEq, Repr, Inhabited

namespace Printout

/-- What announces the work directory at the start of a line. -/
def announcement : String := "WORK="

/-- The directory that the first announcement names, which may be in either stream; lines of the
    standard error come first. An announcement of nothing counts, and names none. -/
def workDir? (p : Printout) : Option String := do
  let announced (line : List Char) := Text.strip? announcement.toList (Text.trim line)
  let dir ← (Text.linesOf p.stderr ++ Text.linesOf p.stdout).findSome? announced
  if dir.isEmpty then none else some (String.ofList dir)

/-- Both streams in one text; a blank one is left out. -/
def combined (p : Printout) : String :=
  if (Text.trim p.stdout.toList).isEmpty then p.stderr
  else if (Text.trim p.stderr.toList).isEmpty then p.stdout
  else String.ofList (Text.trimEnd p.stdout.toList) ++ "\n" ++ p.stderr

end Printout

/-- A way to list, fetch and build packages in a world. -/
structure Builder (World : Type) where
  listStandard : World → Except Host.Error (List String) × World
  isAvailable : World → String → Except Host.Error Bool × World
  fetch : World → String → Except Host.Error Printout × World
  build : World → String → Except Host.Error Printout × World

end Workbench.Package
