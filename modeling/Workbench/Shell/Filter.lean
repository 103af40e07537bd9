import Workbench.Shell.Utility

set_option autoImplicit false

/-! # Filters

Utilities that read files, or the input where no file is named, and print a part of what they have
read, or something about it. Characters are bytes here, and lines are in the order of their bytes.
-/

namespace Workbench.Shell

open Host (Disk Job)

/-! ## Reading and printing -/

/-- The bytes of a file, or of the input where it is called `-`. -/
def readOne (complaint : String → String) (name : String) : Doing (Option ByteArray) := do
  let m ← get
  if name = "-" then
    set { m with input := .empty }
    return some m.input
  else if name = "/dev/null" then return some .empty
  else
    match m.disk.read name with
    | .ok bytes => return some bytes
    | .error e => do
      complain (complaint name ++ ": " ++ reason e)
      return none

/-- What is read from files by their names, or from the input where there are none, and whether
    all could be read. -/
def readInputs (complaint : String → String) (names : List String) :
    Doing (List (String × ByteArray) × Bool) := do
  let contents ← (if names.isEmpty then ["-"] else names).mapM fun name => do
    return (← readOne complaint name).map (name, ·)
  return (contents.filterMap id, contents.all Option.isSome)

/-- The lines of bytes; whether a line end follows the last is not told. -/
def rawLines (bytes : ByteArray) : List (List Char) :=
  let pieces := Text.splitOn '\n' (charsOf bytes)
  if pieces.getLast? = some [] then pieces.dropLast else pieces

/-- Print lines. -/
def emitLines (lines : List (List Char)) : Doing Unit :=
  emit (ofChars (lines.flatMap (· ++ ['\n'])))

/-- The status of a filter that could read everything, or not. -/
def statusOf (well : Bool) : Nat := if well then 0 else 1

/-! ## Parts -/

/-- How much of a text is wanted: a number of lines or bytes; counted from its start where
    `fromStart` is set. -/
structure Extent where
  count : Nat
  ofBytes : Bool
  fromStart : Bool
  deriving DecidableEq, Repr, Inhabited

/-- Read a count, which may have a sign before it. -/
def Extent.read? (ofBytes : Bool) (s : List Char) : Option Extent :=
  match s with
  | '+' :: digits => (Text.natural? digits).map (⟨·, ofBytes, true⟩)
  | '-' :: digits => (Text.natural? digits).map (⟨·, ofBytes, false⟩)
  | digits => (Text.natural? digits).map (⟨·, ofBytes, false⟩)

/-- The extent that arguments ask for, and the files. -/
def extentArgs (e : Extent) : List String → Extent × List String
  | "-n" :: count :: rest => extentArgs ((Extent.read? false count.toList).getD e) rest
  | "-c" :: count :: rest => extentArgs ((Extent.read? true count.toList).getD e) rest
  | arg :: rest =>
    match arg.toList with
    | '-' :: 'n' :: count => extentArgs ((Extent.read? false count).getD e) rest
    | '-' :: 'c' :: count => extentArgs ((Extent.read? true count).getD e) rest
    | '-' :: c :: count =>
      if c.isDigit then extentArgs ((Extent.read? false (c :: count)).getD e) rest
      else extentArgs e rest
    | _ => (e, arg :: rest)
  | [] => (e, [])

/-- The pieces of a text that an extent counts, which are bytes or lines with their ends. -/
def Extent.units (e : Extent) (bytes : ByteArray) : List (List Char) :=
  let s := charsOf bytes
  if e.ofBytes then s.map ([·])
  else
    let pieces := Text.splitOn '\n' s
    let last := pieces.getLast?.getD []
    pieces.dropLast.map (· ++ ['\n']) ++ (if last.isEmpty then [] else [last])

/-- Print the first or the last part of files. -/
def partUtility (name : String) (part : Extent → List (List Char) → List (List Char)) : Utility :=
  fun args => do
    let (e, files) := extentArgs ⟨10, false, false⟩ args
    let complaint (file : String) := name ++ ": cannot open " ++ quoteName file ++ " for reading"
    let (contents, well) ← readInputs complaint files
    contents.forM fun (_, bytes) => emit (ofChars (part e (e.units bytes)).flatten)
    return statusOf well

/-- Print the first lines or bytes. -/
def headUtility : Utility := partUtility "head" fun e units => units.take e.count

/-- Print the last lines or bytes, or those from a number on. -/
def tailUtility : Utility := partUtility "tail" fun e units =>
  if e.fromStart then units.drop (e.count - 1) else units.drop (units.length - e.count)

/-! ## Selecting, counting and sorting -/

/-- Whether an expression matches somewhere in a line. -/
def Expression.occursIn (e : Expression) (line : List Char) : Bool :=
  (List.range (if e.atStart then 1 else line.length + 1)).any fun n =>
    (matchAtoms e.atEnd e.atoms (line.drop n)).isSome

/-- Print the lines that an expression matches, or say whether there are any. -/
def grepUtility : Utility := fun args => do
  let (options, operands) := splitOptions args
  let chars := ((operands.headD "").toUTF8)
  let e : Expression := if options.contains 'F' then
    ⟨false, (charsOf chars).map fun c => ⟨.char c, false⟩, false⟩ else .ofText (charsOf chars)
  let files := operands.drop 1
  let (contents, well) ← readInputs ("grep: " ++ ·) files
  let found := contents.map fun (name, bytes) =>
    let label := if files.length > 1 then name ++ ":" else ""
    (label, (rawLines bytes).filter fun line => e.occursIn line != options.contains 'v')
  if !options.contains 'q' then
    found.forM fun (label, lines) =>
      let start := charsOf label.toUTF8
      if options.contains 'c' then say (label ++ toString lines.length)
      else emitLines (lines.map (start ++ ·))
  return if !well then 2 else statusOf (found.any fun f => !f.2.isEmpty)

/-- The number of words between blanks. -/
def wordCount (s : List Char) : Nat :=
  let blank (c : Char) : Bool := " \t\n\r\x0b\x0c".toList.contains c
  (s.foldl (fun (n, inWord) c =>
    if blank c then (n, false) else (if inWord then n else n + 1, true)) (0, false)).1

/-- Count lines, words and bytes. -/
def wcUtility : Utility := fun args => do
  let (options, files) := splitOptions args
  let wanted (c : Char) : Bool := options.isEmpty || options.contains c
  let (contents, well) ← readInputs ("wc: " ++ ·) files
  let counts (bytes : ByteArray) : List Nat :=
    let s := charsOf bytes
    (if wanted 'l' then [s.count '\n'] else []) ++ (if wanted 'w' then [wordCount s] else []) ++
      (if wanted 'c' then [s.length] else [])
  let rows : List (String × List Nat) := contents.map fun (name, bytes) => (name, counts bytes)
  let total : List Nat := rows.foldl (fun sum row =>
    if sum.isEmpty then row.2 else List.zipWith Nat.add sum row.2) []
  let rows := if files.length > 1 then rows ++ [("total", total)] else rows
  let size := contents.foldl (fun n c => n + c.2.size) 0
  let isAlone := total.length ≤ 1 && files.length ≤ 1
  let width := if isAlone then 1 else if files.isEmpty then 7 else (toString size).length
  rows.forM fun (name, numbers) =>
    let cells := numbers.map fun n =>
      String.ofList (List.replicate (width - (toString n).length) ' ') ++ toString n
    say (" ".intercalate cells ++ (if files.isEmpty then "" else " " ++ name))
  return statusOf well

/-- Whether a line stands before another, or beside it. -/
def lineLe (a b : List Char) : Bool :=
  match a, b with
  | [], _ => true
  | _ :: _, [] => false
  | x :: a, y :: b => x < y || (x == y && lineLe a b)

/-- Sort the lines of files. -/
def sortUtility : Utility := fun args => do
  let (options, files) := splitOptions args
  let (contents, well) ← readInputs (fun name => "sort: cannot read: " ++ name) files
  let lines := (contents.flatMap fun c => rawLines c.2).mergeSort lineLe
  let lines := if options.contains 'n' then
    let value (line : List Char) : Nat := ((Text.digitsValue? (line.takeWhile Char.isDigit))).getD 0
    lines.mergeSort fun a b => value a ≤ value b else lines
  let lines := if options.contains 'u' then lines.eraseReps else lines
  emitLines (if options.contains 'r' then lines.reverse else lines)
  return if well then 0 else 2

/-! ## Characters -/

/-- The characters that a set spells, with ranges and escapes. -/
def spelledSet : Nat → List Char → List Char
  | 0, _ => []
  | fuel + 1, s =>
    match s with
    | [] => []
    | '\\' :: c :: rest =>
      let (bytes, rest) := readEscape (c :: rest)
      charsOf bytes ++ spelledSet fuel rest
    | a :: '-' :: b :: rest =>
      (List.range (b.toNat + 1 - a.toNat)).map (fun n => Char.ofNat (a.toNat + n)) ++
        spelledSet fuel rest
    | c :: rest => c :: spelledSet fuel rest

/-- Replace or delete characters of the input. -/
def trUtility : Utility := fun args => do
  let (options, operands) := splitOptions args
  let set (n : Nat) : List Char :=
    let s := charsOf ((operands[n]?.getD "").toUTF8)
    spelledSet (s.length + 1) s
  let m ← get
  let s := charsOf m.input
  modify fun m => { m with input := .empty }
  let first := set 0
  if options.contains 'd' then emit (ofChars (s.filter (!first.contains ·)))
  else
    let second := set 1
    let table := first.zip (second ++ List.replicate first.length (second.getLast?.getD ' '))
    emit (ofChars (s.map fun c => (table.lookup c).getD c))
  return 0

/-- Print the input and write it to files as well. -/
def teeUtility : Utility := fun args => do
  let (options, files) := splitOptions args
  let bytes := (← get).input
  modify fun m => { m with input := .empty }
  emit bytes
  forEach (fun name => tryJob ("tee: " ++ name) (Job.change (·.alter name Disk.fileMode
    fun old => if options.contains 'a' then old ++ bytes else bytes))) files

/-- Print whole numbers in a row. -/
def seqUtility : Utility := fun args => do
  let number (n : Nat) : Int := numberOf (args[n]?)
  let (first, step, last) : Int × Int × Int := match args.length with
    | 1 => (1, 1, number 0)
    | 2 => (number 0, 1, number 1)
    | _ => (number 0, number 1, number 2)
  let steps := if step = 0 then 0 else ((last - first).tdiv step).toNat
  let isEmpty := if step > 0 then first > last else first < last
  if !isEmpty then
    (List.range (steps + 1)).forM fun k => say (toString (first + step * k))
  return 0
where
  numberOf (text : Option String) : Int := (text.bind String.toInt?).getD 0

/-- Print the variables that programs see. -/
def envUtility : Utility := fun _ => do
  let m ← get
  let shown := m.environment.filter fun v => m.exported.contains v.1
  shown.forM fun (name, value) => say (name ++ "=" ++ value)
  return 0

/-- The filters, which are programs. -/
def filters : List (String × Utility) := [
  ("head", headUtility), ("tail", tailUtility), ("grep", grepUtility), ("wc", wcUtility),
  ("sort", sortUtility), ("tr", trUtility), ("tee", teeUtility), ("seq", seqUtility),
  ("env", envUtility)]

end Workbench.Shell
