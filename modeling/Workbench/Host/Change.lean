import Workbench.Host.Disk

set_option autoImplicit false

/-! # What has changed on a disk

The difference of two trees as a list of changes that lead from the one to the other: first
everything that is gone or of another kind is removed, what is deeper before what holds it, and then
directories are made and files written, each after the directory that holds it. -/

namespace Workbench.Host

/-- A change to a tree of files, at the place that a list of names leads to. -/
inductive Change where
  | removeFile (parts : List String)
  | removeDir (parts : List String)
  | makeDir (parts : List String)
  | write (parts : List String) (data : ByteArray) (mode : Nat)
  deriving Inhabited

namespace Change

/-- The removal of a node, unless a node of its kind is in its place afterwards. -/
def removal? (after : Tree Nat) (entry : List String × Tree Nat) : Option Change :=
  let stays := (after.get? entry.1).any (·.isDir == entry.2.isDir)
  if stays then none
  else if entry.2.isDir then some (.removeDir entry.1)
  else some (.removeFile entry.1)

/-- What has to be done for a node to be there, if it was not there before. -/
def creation? (before : Tree Nat) (entry : List String × Tree Nat) : Option Change :=
  match entry.2, before.get? entry.1 with
  | .dir .., some (.dir ..) => none
  | .dir .., _ => some (.makeDir entry.1)
  | .file data mode, some (.file data' mode') =>
    if data.data = data'.data ∧ mode = mode' then none else some (.write entry.1 data mode)
  | .file data mode, _ => some (.write entry.1 data mode)

/-- The changes that lead from a tree to another. -/
def between (before after : Tree Nat) : List Change :=
  ((before.entries []).reverse.filterMap (removal? after)) ++
    (after.entries []).filterMap (creation? before)

end Change

end Workbench.Host
