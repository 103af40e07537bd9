import Workbench.Host.Directory

set_option autoImplicit false

/-! # Safe writing

A file is replaced in one step: the new content goes into a file of its own beside it, which then
takes its place. So a reader sees either the old content or the new. Where several programs append
to one file they take turns by means of a lock, an empty file whose holder may go on. -/

namespace Workbench.Host.Job

/-- The permissions of the file that is to take the place of another. -/
def stagedMode : Nat := 0o600

/-- A name that no file in a directory has. -/
def freshName (children : List (String × Tree Nat)) : String :=
  let taken (n : Nat) : Bool := (children.lookup (".staged" ++ toString n)).isSome
  ".staged" ++ toString (((List.range (children.length + 1)).find? (!taken ·)).getD 0)

/-- The directory that a file is in, as a path. -/
def holderOf (text : String) : String :=
  match Location.parentText? text with
  | none | some "" => "."
  | some parent => parent

/-- Replace a file in one step, making the directories above it. If that fails nothing is left of
    the new content. -/
def replaceFile (text : String) (data : ByteArray) : Job Unit := do
  let parent := holderOf text
  makeDirs parent
  let staged := Location.join parent (freshName (← ask (·.list parent)))
  change (·.alter staged stagedMode fun _ => data)
  if text.toList.contains '\x00' then
    change (·.unlink staged)
    refuse .invalid
  tryCatch (change (·.rename staged text)) fun e => do
    change (·.unlink staged)
    throw e

/-- Take a lock and give it back, which leaves the file of the lock behind. -/
def passLock (text : String) : Job Unit := do
  makeParents text
  change (·.alter text Disk.fileMode id)

/-- Append a line to a file while holding the lock beside it. -/
def appendLine (text line : String) : Job Unit := do
  passLock (text ++ ".lock")
  makeParents text
  change (·.alter text Disk.fileMode (· ++ (line ++ "\n").toUTF8))

end Workbench.Host.Job
