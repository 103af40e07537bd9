import Workbench.Shell.Condition
import Workbench.Shell.Expression
import Workbench.Shell.Machine
import Workbench.Shell.Printing

set_option autoImplicit false

/-! # Utilities

The small programs that scripts rely on: printing, testing, and making, removing, moving and editing
files. Each is given its arguments and comes to an exit status. -/

namespace Workbench.Shell

open Host (Disk Job Location)

/-- A utility. -/
abbrev Utility := List String → Doing Nat

/-- Do something for each argument; the status tells whether all went well. -/
def forEach (act : String → Doing Bool) : List String → Doing Nat
  | [] => return 0
  | arg :: rest => do
    let well ← act arg
    let status ← forEach act rest
    return if well then status else 1

/-- Do a job on the disk, complaining if it is refused. -/
def tryJob (complaint : String) (job : Job Unit) : Doing Bool := do
  match ← onDisk job with
  | .ok () => return true
  | .error e => do
    complain (complaint ++ ": " ++ reason e)
    return false

/-- Split the options off, which begin with a dash and end at a lone `--`. -/
def splitOptions : List String → List Char × List String
  | "--" :: rest => ([], rest)
  | arg :: rest =>
    match arg.toList with
    | '-' :: c :: more =>
      let (options, operands) := splitOptions rest
      (c :: more ++ options, operands)
    | _ => ([], arg :: rest)
  | [] => ([], [])

/-- A name in quotes. -/
def quoteName (name : String) : String := "'" ++ name ++ "'"

/-! ## Printing and testing -/

/-- Print the arguments in a line. -/
def echoUtility : Utility := fun args => do
  emit (echo args)
  return 0

/-- Print by a format. -/
def printfUtility : Utility
  | [] => do
    complain "printf: usage: printf format [arg ...]"
    return 2
  | format :: args => do
    let (bytes, valid) := printf format args
    emit bytes
    return if valid then 0 else 1

/-- Test a condition. -/
def testUtility : Utility := fun args => do
  match holds? (← get).disk (args.length + 1) args with
  | some truth => return if truth then 0 else 1
  | none => return 2

/-- Test a condition that stands in brackets. -/
def bracketUtility : Utility := fun args => do
  if args.getLast? = some "]" then testUtility args.dropLast
  else
    complain "[: missing ]"
    return 2

/-- Print the working directory. -/
def pwdUtility : Utility := fun _ => do
  say ("/" ++ "/".intercalate (← get).disk.cwd)
  return 0

/-! ## Files -/

/-- Print the bytes of a file, or of the input where it is called `-`. -/
def catOne (name : String) : Doing Bool := do
  let m ← get
  if name = "-" then
    emit m.input
    modify fun m => { m with input := .empty }
    return true
  else if name = "/dev/null" then return true
  else
    match m.disk.read name with
    | .ok bytes => do
      emit bytes
      return true
    | .error e => do
      complain ("cat: " ++ name ++ ": " ++ reason e)
      return false

/-- Print files one after the other. -/
def catUtility : Utility := fun args =>
  let operands := (splitOptions args).2
  forEach catOne (if operands.isEmpty then ["-"] else operands)

/-- Make directories. -/
def mkdirUtility : Utility := fun args => do
  let (options, operands) := splitOptions args
  forEach (fun name => tryJob ("mkdir: cannot create directory " ++ quoteName name)
    (if options.contains 'p' then Job.makeDirs name else Job.change (·.makeDir name))) operands

/-- Remove empty directories. -/
def rmdirUtility : Utility := fun args => do
  forEach (fun name => tryJob ("rmdir: failed to remove " ++ quoteName name)
    (Job.change (·.removeDir name))) (splitOptions args).2

/-- Remove files, and directories where that is asked for. -/
def rmUtility : Utility := fun args => do
  let (options, operands) := splitOptions args
  let force := options.contains 'f'
  forEach (fun name => do
    let d := (← get).disk
    let recursive := (options.contains 'r' || options.contains 'R') && d.isDir name
    if force && !d.contains name then return true
    tryJob ("rm: cannot remove " ++ quoteName name)
      (if recursive then Job.removeTree name else Job.change (·.unlink name))) operands

/-- Where a file goes that is moved or copied to a place: into it, if it is a directory. -/
def placeFor (d : Disk) (source target : String) : String :=
  if d.isDir target then
    Location.join target ((Location.ofText source).fileName?.getD "")
  else target

/-- The sources and the target among operands. -/
def splitTarget (operands : List String) : List String × String :=
  (operands.dropLast, operands.getLast?.getD "")

/-- Move files. -/
def mvUtility : Utility := fun args => do
  let (sources, target) := splitTarget (splitOptions args).2
  forEach (fun source => do
    let d := (← get).disk
    if d.contains source then
      tryJob ("mv: cannot move " ++ quoteName source ++ " to " ++ quoteName target)
        (Job.change (·.rename source (placeFor d source target)))
    else
      complain ("mv: cannot stat " ++ quoteName source ++ ": No such file or directory")
      return false) sources

/-- Copy files. -/
def cpUtility : Utility := fun args => do
  let (sources, target) := splitTarget (splitOptions args).2
  forEach (fun source => do
    let d := (← get).disk
    match d.read source with
    | .error e =>
      if d.isDir source then
        complain ("cp: -r not specified; omitting directory " ++ quoteName source)
      else complain ("cp: cannot stat " ++ quoteName source ++ ": " ++ reason e)
      return false
    | .ok _ =>
      tryJob ("cp: cannot create regular file " ++ quoteName target)
        (Job.copy source (placeFor d source target))) sources

/-- Make files where there are none. -/
def touchUtility : Utility := fun args =>
  forEach (fun name => do
    if (← get).disk.isDir name then return true
    tryJob ("touch: cannot touch " ++ quoteName name) (Job.change (·.alter name Disk.fileMode id)))
    (splitOptions args).2

/-- Change the permissions of files: to an octal number, or making them executable or not. -/
def chmodUtility : Utility := fun args => do
  match args with
  | mode :: operands =>
    let change (old : Nat) : Nat :=
      if mode.toList.all isOctal then mode.toList.foldl (fun n c => 8 * n + (c.toNat - '0'.toNat)) 0
      else if mode.toList.contains '-' then old - (old &&& 0o111)
      else old ||| 0o111
    forEach (fun name => do
      let m ← get
      match m.disk.find name with
      | .ok (parts, node) => do
        let tree := m.disk.tree.modify (fun _ => node.withAttributes (change node.attributes)) parts
        set { m with disk := { m.disk with tree := tree } }
        return true
      | .error e => do
        complain ("chmod: cannot access " ++ quoteName name ++ ": " ++ reason e)
        return false) operands
  | [] => return 1

/-- List the names in directories. -/
def lsUtility : Utility := fun args => do
  let operands := (splitOptions args).2
  let status ← forEach (fun name => do
    match (← get).disk.list name with
    | .ok children => do
      let names := ((children.map Prod.fst).filter (·.toList.head? ≠ some '.')).mergeSort (· ≤ ·)
      names.forM say
      return true
    | .error (.system .notDir) => do
      say name
      return true
    | .error e => do
      complain ("ls: cannot access " ++ quoteName name ++ ": " ++ reason e)
      return false) (if operands.isEmpty then ["."] else operands)
  return if status = 0 then 0 else 2

/-- Print the last component of a path. -/
def basenameUtility : Utility := fun args => do
  let name := ((Location.ofText (args.headD "")).parts.getLast?).getD "/"
  let suffix := (args[1]?.getD "").toList
  let cut := (Text.stripEnd? suffix name.toList).filter (!·.isEmpty)
  say (String.ofList (cut.getD name.toList))
  return 0

/-- Print the directory of a path. -/
def dirnameUtility : Utility := fun args => do
  let text := (Location.parentText? (args.headD "")).getD "/"
  say (if text.isEmpty then "." else text)
  return 0

/-! ## Editing -/

/-- The scripts and the files among the arguments of the editor, and whether files are edited in
    place. -/
def editorArgs : List String → List String × List String × Bool
  | [] => ([], [], false)
  | "-e" :: script :: rest =>
    let (scripts, files, inPlace) := editorArgs rest
    (script :: scripts, files, inPlace)
  | "-i" :: rest =>
    let (scripts, files, _) := editorArgs rest
    (scripts, files, true)
  | arg :: rest =>
    let (scripts, files, inPlace) := editorArgs rest
    (scripts, arg :: files, inPlace)

/-- Bytes as characters, one for each. -/
def charsOf (bytes : ByteArray) : List Char := bytes.data.toList.map fun b => Char.ofNat b.toNat

/-- The bytes that characters stand for. -/
def ofChars (s : List Char) : ByteArray := ⟨(s.map fun c => c.toNat.toUInt8).toArray⟩

/-- Edit the lines of files, or of the input. Characters are bytes here. -/
def sedUtility : Utility := fun args => do
  let (scripts, operands, inPlace) := editorArgs args
  let (scripts, files) :=
    if scripts.isEmpty then (operands.take 1, operands.drop 1) else (scripts, operands)
  let script := charsOf ("\n".intercalate scripts).toUTF8
  match readSubstitutions (script.length + 1) script with
  | none => do
    complain "sed: -e expression #1, char 1: unknown command"
    return 1
  | some us =>
    let edit (bytes : ByteArray) : ByteArray := ofChars (editLines us (charsOf bytes))
    if files.isEmpty then
      let m ← get
      set { m with input := .empty }
      emit (edit m.input)
      return 0
    else
      let status ← forEach (fun name => do
        match (← get).disk.read name with
        | .error (.system .isDir) => do
          complain ("sed: couldn't edit " ++ name ++ ": not a regular file")
          return false
        | .error e => do
          complain ("sed: can't read " ++ name ++ ": " ++ reason e)
          return false
        | .ok bytes =>
          if inPlace then
            tryJob ("sed: couldn't edit " ++ name) (Job.write name (edit bytes))
          else
            emit (edit bytes)
            return true) files
      return if status = 0 then 0 else 2

/-! ## The table -/

/-- The utilities that a shell has built in. -/
def builtins : List (String × Utility) := [
  (":", fun _ => return 0), ("true", fun _ => return 0), ("false", fun _ => return 1),
  ("echo", echoUtility), ("printf", printfUtility), ("test", testUtility), ("[", bracketUtility),
  ("pwd", pwdUtility)]

/-- The utilities that are programs. -/
def programs : List (String × Utility) := builtins.drop 1 ++ [
  ("cat", catUtility), ("mkdir", mkdirUtility), ("rmdir", rmdirUtility), ("rm", rmUtility),
  ("mv", mvUtility), ("cp", cpUtility), ("touch", touchUtility), ("chmod", chmodUtility),
  ("ls", lsUtility), ("basename", basenameUtility), ("dirname", dirnameUtility),
  ("sed", sedUtility)]

end Workbench.Shell
