import Workbench.Host.Disk

set_option autoImplicit false

/-! # Jobs on directory trees

Making a directory with all that are missing above it, removing a directory with all that is in it,
copying a file, and listing every file below a directory. -/

namespace Workbench.Host

namespace Job

/-- Make a directory, given by the path of its parent if it has one and its own text, once the
    directory above has been seen to. That it is there already is no failure. -/
def makeOne (text : String) (makeParent : Job Unit) : Job Unit := do
  let settle (e : Error) : Job Unit := do if (← get).isDir text then return else throw e
  match (← get).makeDir text with
  | .ok d => set d
  | .error e =>
    if e.kind = .notFound then
      makeParent
      tryCatch (change (·.makeDir text)) settle
    else settle e

/-- Make the directory that the first `n` components of a path lead to, and the missing ones above.
    -/
def makeUpTo (l : Location) : Nat → Job Unit
  | 0 => return
  | n + 1 => makeOne { l with parts := l.parts.take (n + 1) }.toText (makeUpTo l n)

/-- Make a directory and the missing ones above it. Nothing is to be done for the empty path. A
    system root that is missing cannot be made. -/
def makeDirs (text : String) : Job Unit := do
  let l := Location.ofText text
  if l.parts.isEmpty then
    if text.isEmpty then return else makeOne text (refuse .noEntry)
  else makeOne text (makeUpTo l (l.parts.length - 1))

/-- Make the directory above a path, if the path has one. -/
def makeParents (text : String) : Job Unit :=
  match Location.parentText? text with
  | some parent => makeDirs parent
  | none => return

/-- Remove a directory and all that is in it. -/
def removeTree (text : String) : Job Unit := do
  let (parts, node) ← ask (·.find text)
  match node with
  | .file .. => refuse .notDir
  | .dir _ mode =>
    modify fun d => d.put parts (.dir [] mode)
    change (·.removeDir text)

/-- Create or replace a file. -/
def write (text : String) (data : ByteArray) : Job Unit :=
  change (·.alter text Disk.fileMode fun _ => data)

/-- Put a file or, without content, a directory in its place, with the directories above it. -/
def install (text : String) (content : Option ByteArray) (mode : Nat) : Job Unit :=
  match content with
  | none => makeDirs text
  | some data => do
    makeParents text
    change (·.alter text mode fun _ => data)

/-- Copy a file, with its permissions. The target is emptied before the source is read. -/
def copy (source target : String) : Job Unit := do
  let (parts, node) ← ask (·.find source)
  if node.isDir then
    throw (.fixed .invalidInput
      "the source path is neither a regular file nor a symlink to a regular file")
  change (·.alter target node.attributes fun _ => .empty)
  let (place, _, _) ← ask (·.openFile target node.attributes)
  let data := match (← get).tree.get? parts with
    | some (.file data _) => data
    | _ => .empty
  modify fun d => d.put place (.file data node.attributes)

end Job

namespace Disk

/-- Every file below a directory by its path from there. A directory in which nothing is stands with
    a slash after its path and no content. -/
def filesBelow (d : Disk) (text : String) : List (String × Option ByteArray) :=
  match d.find text with
  | .ok (_, .dir children mode) =>
    ((Tree.dir children mode).entries []).filterMap fun (parts, node) =>
      let path := "/".intercalate parts
      match node with
      | .file data _ => some (path, some data)
      | .dir [] _ => if parts.isEmpty then none else some (path ++ "/", none)
      | .dir (_ :: _) _ => none
  | _ => []

end Disk

end Workbench.Host
