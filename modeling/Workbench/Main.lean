import Std.Time.DateTime.Timestamp
import Workbench.Command.Program
import Workbench.Host.Change
import Workbench.Shell.Program

set_option autoImplicit false

/-! # The command line

The program reads the tree below the working directory, runs on it as on a disk, and then makes the
changes that it has made there. Programs are the shell scripts in that tree and the utilities that
the shell itself provides; a file that names an interpreter in its first line may be run. -/

namespace Workbench.Main

open Host (Disk Change Location)

/-- The depth to which directories are read. -/
def maxDepth : Nat := 64

/-- The permissions of a file with these bytes. -/
def modeOf (data : ByteArray) : Nat :=
  if data.toList.take 2 = "#!".toUTF8.toList then Disk.dirMode else Disk.fileMode

/-- Read a file, or a directory with all that is in it. -/
def readNode : Nat → IO.FS.DirEntry → IO (Option (String × Tree Nat))
  | 0, _ => return none
  | depth + 1, entry => do
    if ← entry.path.isDir then
      let children ← (← entry.path.readDir).toList.filterMapM (readNode depth)
      return some (entry.fileName, .dir children Disk.dirMode)
    else
      let data ← IO.FS.readBinFile entry.path
      return some (entry.fileName, .file data (modeOf data))

/-- Make a change below a directory. -/
def apply (root : String) (change : Change) : IO Unit := do
  let place (parts : List String) : String := Location.join root ("/".intercalate parts)
  match change with
  | .removeFile parts => IO.FS.removeFile (place parts)
  | .removeDir parts => IO.FS.removeDirAll (place parts)
  | .makeDir parts => IO.FS.createDirAll (place parts)
  | .write parts data _ => IO.FS.writeBinFile (place parts) data

/-- The disk on which a tree stands at a place, with a directory for what is not kept. -/
def diskWith (parts : List String) (tree : Tree Nat) : Disk :=
  let place := (Location.mk true parts).toText
  let disk := ((do Host.Job.makeDirs "/tmp"; Host.Job.makeDirs place : Host.Job Unit).run .empty).2
  { disk.put parts tree with cwd := parts }

/-- What the program finds around it. Sites cannot be reached. -/
def surroundings (path : String) (time : Nat) : Command.Surroundings where
  launcher := Shell.launcher [("PATH", path)]
  download := fun _ => .error "no connection"
  time := time
  scratchRoot := "/tmp/wasmplay-scratch"

end Workbench.Main

open Workbench in
/-- Run the program. -/
def main (words : List String) : IO UInt32 := do
  let here ← IO.currentDir
  let children ← (← here.readDir).toList.filterMapM (Main.readNode Main.maxDepth)
  let tree : Workbench.Tree Nat := .dir children Host.Disk.dirMode
  let parts := (Host.Location.ofText here.toString).parts
  let time := (← Std.Time.Timestamp.now).toSecondsSinceUnixEpoch.val.toNat
  let around := Main.surroundings ((← IO.getEnv "PATH").getD "/usr/bin:/bin") time
  let exit := Command.runProgram around words (Main.diskWith parts tree)
  let after := (exit.scene.disk.tree.get? parts).getD tree
  for change in Host.Change.between tree after do
    Main.apply here.toString change
  IO.print exit.scene.terminal.stdout
  IO.eprint exit.scene.terminal.stderr
  return exit.status.toUInt32
