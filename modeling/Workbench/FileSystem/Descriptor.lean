import Workbench.FileSystem.Basic
import Workbench.FileSystem.Bytes

set_option autoImplicit false

/-! # Operations on descriptors

Reading and writing through open descriptors. Numbers 0, 1 and 2 are the standard streams: reading
the first yields nothing, writing to the others fills the two output buffers. Every other number
stands for an entry of the descriptor table. Only `read` can change the file system and then fail:
it moves the cursor to the requested position before it looks for the file. -/

namespace Workbench.FileSystem

/-- The open descriptor with a number. -/
def descriptor (fs : FileSystem) (number : Nat) : Except Error Descriptor :=
  match fs.descriptors.get? number with
  | some d => .ok d
  | none => .error (.badDescriptor number)

/-- Change the cursor of a descriptor. -/
def setCursor (fs : FileSystem) (number cursor : Nat) : FileSystem :=
  { fs with descriptors := fs.descriptors.update number fun d => { d with cursor := cursor } }

/-- The end of `length` bytes laid at `offset`, if the size of a file may reach it. -/
def boundedEnd (offset length : Nat) : Except Error Nat :=
  if offset + length ≤ maxFileSize then .ok (offset + length)
  else .error (.invalidArgument ("file size past " ++ toString maxFileSize ++ " bytes (offset " ++
    toString offset ++ ", length " ++ toString length ++ ")"))

/-- Close a descriptor. Closing a standard stream does nothing. -/
def close (fs : FileSystem) (number : Nat) : Except Error FileSystem := do
  if number < firstDescriptor then return fs
  let _ ← fs.descriptor number
  return { fs with descriptors := fs.descriptors.remove number }

/-- The descriptor with a number, if a file can be read through it. -/
def readableDescriptor (fs : FileSystem) (number : Nat) : Except Error Descriptor := do
  let d ← fs.descriptor number
  if !d.mode.readable then throw (.badDescriptor number)
  if d.isDir then throw (.isDirectory d.path.toString)
  return d

/-- Read at most `length` bytes, from `position` if it is given and from the cursor otherwise. -/
def read (fs : FileSystem) (number length : Nat) (position : Option Nat) :
    Except Error ByteArray × FileSystem :=
  if number = 0 then (.ok .empty, fs)
  else
    match fs.readableDescriptor number with
    | .error e => (.error e, fs)
    | .ok d =>
      let cursor := position.getD d.cursor
      let moved := fs.setCursor number cursor
      match fs.file d.path with
      | .error e => (.error e, moved)
      | .ok (data, times) =>
        let start := min cursor data.size
        let bytes := data.extract start (start + length)
        let read := moved.setFile d.path data { times with accessed := fs.clock }
        (.ok bytes, read.setCursor number (start + bytes.size))

/-- Write bytes; a descriptor that appends writes at the end of the file, any other at `position` or
    else at the cursor. The number of bytes written is returned. -/
def write (fs : FileSystem) (number : Nat) (bytes : ByteArray) (position : Option Nat) :
    Except Error (Nat × FileSystem) := do
  if number = 0 then throw (.badDescriptor number)
  if number = 1 then return (bytes.size, { fs with stdout := fs.stdout ++ bytes })
  if number = 2 then return (bytes.size, { fs with stderr := fs.stderr ++ bytes })
  let d ← fs.descriptor number
  if !d.mode.writable then throw (.badDescriptor number)
  let (data, times) ← fs.file d.path
  let offset := if d.mode.append then data.size else position.getD d.cursor
  let finish ← boundedEnd offset bytes.size
  let times := { times with modified := fs.clock, changed := fs.clock }
  return (bytes.size, (fs.setFile d.path (overlay data offset bytes) times).setCursor number finish)

/-- Cut or zero-fill the file behind a descriptor. -/
def truncateDescriptor (fs : FileSystem) (number length : Nat) : Except Error FileSystem := do
  let d ← fs.descriptor number
  if !d.mode.writable then throw (.badDescriptor number)
  let length ← boundedEnd length 0
  let (data, times) ← fs.file d.path
  return fs.setFile d.path (resize data length) { times with modified := fs.clock }

/-- What is behind a descriptor. A standard stream is a terminal; any other descriptor looks for a
    node under the key for what was opened. -/
def statDescriptor (fs : FileSystem) (number : Nat) : Except Error Stat := do
  if number < firstDescriptor then return ⟨false, 0, 0o020620, .stamp fs.clock⟩
  let d ← fs.descriptor number
  match fs.nodes.get? (if d.isDir then d.path.dirKey else d.path.fileKey) with
  | some node => return statOf node
  | none => throw (.notFound d.path.toString)

/-! ## The output buffers -/

/-- Take what was written to the standard output, leaving it empty. -/
def takeStdout (fs : FileSystem) : ByteArray × FileSystem :=
  (fs.stdout, { fs with stdout := .empty })

/-- Take what was written to the standard error, leaving it empty. -/
def takeStderr (fs : FileSystem) : ByteArray × FileSystem :=
  (fs.stderr, { fs with stderr := .empty })

/-- Drop what was written to the standard streams. -/
def clearOutput (fs : FileSystem) : FileSystem := { fs with stdout := .empty, stderr := .empty }

end Workbench.FileSystem
