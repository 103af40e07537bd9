import Workbench.Shell.Expansion
import Workbench.Shell.Filter
import Workbench.Shell.Reader

set_option autoImplicit false

/-! # Running shell scripts

Carrying out commands. A command that cannot be found or whose redirection fails is complained about
and fails, and the script goes on. A script ends at its end, by `exit`, by a signal, or when its
time is used up; a script that takes more than a given number of turns is held to run for ever. -/

namespace Workbench.Shell

open Host (Disk Job Location)

/-! ## Redirections -/

/-- The words with which a file for output is refused. -/
def createReason (e : Host.Error) : String :=
  if e.kind = .notFound || e.kind = .notADirectory then "Directory nonexistent" else reason e

/-- The words with which a file for input is refused. -/
def openReason (e : Host.Error) : String :=
  if e.kind = .notFound then "No such file" else reason e

/-- Tie a channel to a file, whose bytes are changed first. -/
def tieToFile (line number : Nat) (target : String) (f : ByteArray → ByteArray) : Doing Bool := do
  if target = "/dev/null" then
    modify (·.tie number .nothing)
    return true
  let m ← get
  match m.disk.alter target Disk.fileMode f, m.disk.openFile target Disk.fileMode with
  | .ok disk, .ok (parts, _, _) =>
    set ({ m with disk := disk }.tie number (.file parts))
    return true
  | .error e, _ | _, .error e =>
    complainAt line ("cannot create " ++ target ++ ": " ++ createReason e)
    return false

/-- Carry out a redirection, and say whether that was possible. -/
def redirectOne (exec : Exec) (line : Nat) : Redirection → Doing Bool
  | .to number channel word => do
    let target ← textOf exec word
    match channel with
    | .output => tieToFile line number target fun _ => .empty
    | .append => tieToFile line number target id
    | .document =>
      modify fun m => { m with input := target.toUTF8 }
      return true
    | .duplicate =>
      match target, (← get).channels.lookup (target.toNat?.getD 0) with
      | "-", _ =>
        modify (·.tie number .nothing)
        return true
      | _, some sink =>
        modify (·.tie number sink)
        return true
      | _, none => return number = 0
    | .input =>
      if target = "/dev/null" then
        modify fun m => { m with input := .empty }
        return true
      match (← get).disk.read target with
      | .ok bytes =>
        modify fun m => { m with input := bytes }
        return true
      | .error (.system .isDir) =>
        modify fun m => { m with input := .empty }
        return true
      | .error e =>
        complainAt line ("cannot open " ++ target ++ ": " ++ openReason e)
        return false

/-- Carry out redirections up to the first that is not possible. -/
def redirect (exec : Exec) (line : Nat) : List Redirection → Doing Bool
  | [] => return true
  | r :: rest => do if ← redirectOne exec line r then redirect exec line rest else return false

/-- Do something with redirections, which hold for as long as it takes. -/
def redirecting (exec : Exec) (line : Nat) (rs : List Redirection) (act : Doing Flow) :
    Doing Flow := do
  let before ← get
  let possible ← redirect exec line rs
  let flow ← if possible then act else finish 2
  let redirectsInput := rs.any fun
    | .to number channel _ => number = 0 && (channel == .input || channel == .document)
  modify fun m => { m with
    channels := before.channels
    input := if redirectsInput then before.input else m.input }
  return flow

/-! ## Commands that concern the shell itself -/

/-- The number that an argument denotes, or else another. -/
def numberOf (args : List String) (otherwise : Nat) : Nat :=
  ((args.head?.map (·.toList)).bind Text.natural?).getD otherwise

/-- Take a line from the input. -/
def takeLine (bytes : ByteArray) : List Char × ByteArray × Bool :=
  let s := charsOf bytes
  let line := s.takeWhile (· ≠ '\n')
  (line, bytes.extract (line.length + 1) bytes.size, line.length < s.length)

/-- Read a line into variables, of which the last takes all that remains. -/
def assignFields : List String → List Char → Machine → Machine
  | [], _, m => m
  | [name], s, m =>
    m.setVariable name (Text.ofUtf8Lossy (ofChars (Text.trim s)))
  | name :: rest, s, m =>
    let s := s.dropWhile fun c => c == ' ' || c == '\t'
    let field := s.takeWhile fun c => c ≠ ' ' ∧ c ≠ '\t'
    assignFields rest (s.drop field.length) (m.setVariable name (Text.ofUtf8Lossy (ofChars field)))

/-- Set or show variables that are given as a name and perhaps a value. -/
def exportAll (show_ : Bool) : List String → Machine → Machine
  | [], m => m
  | arg :: rest, m =>
    let (name, value) := match Text.cut? ['='] arg.toList with
      | some (name, value) => (String.ofList name, some (String.ofList value))
      | none => (arg, none)
    let m := match value with
      | some value => m.setVariable name value
      | none => m
    exportAll show_ rest (if show_ then m.exportVariable name else m)

/-- The milliseconds of a duration in seconds, with at most three places, or in another unit. -/
def duration? (text : String) : Option Nat := do
  let s := text.toList
  let (digits, unit) ← match s.getLast? with
    | some 's' => some (s.dropLast, 1000)
    | some 'm' => some (s.dropLast, 60000)
    | some 'h' => some (s.dropLast, 3600000)
    | _ => some (s, 1000)
  let (whole, part) := (Text.cut? ['.'] digits).getD (digits, [])
  let number (s : List Char) : Option Nat := if s.isEmpty then some 0 else Text.digitsValue? s
  if whole.isEmpty && part.isEmpty then none
  else return (← number whole) * unit + (← number part) * unit / Nat.pow 10 part.length

/-- Let time pass. -/
def sleep (args : List String) : Doing Flow := do
  match args.mapM duration? with
  | none =>
    complain ("sleep: invalid time interval " ++ quoteName (args.headD ""))
    finish 1
  | some durations =>
    let m ← get
    let spent := m.spent + durations.foldl (· + ·) 0
    if spent ≥ m.patience && spent > m.spent then return .stopped
    set { m with spent := spent }
    finish 0

/-- The numbers of the signals by name. -/
def signals : List (String × Nat) :=
  [("HUP", 1), ("INT", 2), ("QUIT", 3), ("ABRT", 6), ("KILL", 9), ("SEGV", 11), ("PIPE", 13),
    ("TERM", 15)]

/-- The signal that an option names. -/
def signal? (name : String) : Option Nat :=
  (signals.lookup name).or (Text.natural? name.toList)

/-- Send a signal, which is only known what it does to the shell itself. -/
def kill (args : List String) : Doing Flow := do
  let (signal, targets) := match args with
    | "-s" :: name :: rest => (signal? name, rest)
    | first :: rest =>
      match first.toList with
      | '-' :: name => (signal? (String.ofList name), rest)
      | _ => (some 15, args)
    | [] => (some 15, [])
  match signal with
  | some 0 => finish 0
  | some n => if targets.contains Machine.processNumber then return .killed n else finish 1
  | none => finish 1

/-- Change the working directory. -/
def changeDirectory (line : Nat) (args : List String) : Doing Flow := do
  let m ← get
  let target := args.headD ((m.parameter? "HOME").getD "/")
  match m.disk.find target with
  | .ok (parts, .dir ..) =>
    set { m with disk := { m.disk with cwd := parts } }
    finish 0
  | _ =>
    complainAt line ("cd: can't cd to " ++ target)
    finish 2

/-! ## Programs -/

/-- The directories in which programs are looked for. -/
def searchPath (m : Machine) : List String :=
  (Text.splitOn ':' ((m.parameter? "PATH").getD "").toList).map String.ofList

/-- The directories that hold the utilities. -/
def systemDirs : List String := ["/bin", "/usr/bin", "/usr/local/bin"]

/-- The interpreters of shell scripts. -/
def shells : List String := ["sh", "dash", "bash"]

/-- What a path of a program leads to. -/
inductive Executable where
  | utility (name : String)
  | script (path text : String)
  deriving Inhabited

/-- The utilities that are programs, by their names. -/
def utilities : List (String × Utility) := programs ++ filters

/-- Whether a name is that of a program of the system. -/
def isSystemProgram (name : String) : Bool :=
  (utilities.lookup name).isSome || name = "sleep" || shells.contains name

/-- The utility at a path, if it is one of the system's. -/
def utilityAt? (path : String) : Option String := do
  let l := Location.ofText path
  let name ← l.fileName?
  let dir := (l.parent?.map Location.toText).getD ""
  if systemDirs.contains dir && isSystemProgram name then some name else none

/-- The program of a script, which its first line names, with an argument. -/
def interpreter? (text : String) : Option (String × Option String) :=
  match Text.strip? ['#', '!'] text.toList with
  | none => none
  | some rest =>
    let line := Text.trim (rest.takeWhile (· ≠ '\n'))
    let program := line.takeWhile fun c => c ≠ ' ' ∧ c ≠ '\t'
    let arg := Text.trim (line.drop program.length)
    some (String.ofList program, if arg.isEmpty then none else some (String.ofList arg))

/-- Whether an interpreter runs shell scripts. -/
def isShell (program : String) (arg : Option String) : Bool :=
  let l := Location.ofText program
  match l.fileName? with
  | some name =>
    systemDirs.contains ((l.parent?.map Location.toText).getD "") &&
      (shells.contains name || (name = "env" && arg.any shells.contains))
  | none => false

/-- What the system makes of a path of a program. -/
def resolveProgram (d : Disk) (path : String) : Except Host.Error Executable := do
  match utilityAt? path with
  | some name => return .utility name
  | none =>
    match (← d.find path).2 with
    | .dir .. => Host.refuse .access
    | .file data mode =>
      if mode &&& 0o111 = 0 then Host.refuse .access
      else
        let text := Text.ofUtf8Lossy data
        match interpreter? text with
        | none => Host.refuse .execFormat
        | some (program, arg) =>
          if isShell program arg then return .script path text
          else
            match utilityAt? program with
            | some name => return .utility name
            | none => Host.refuse .noEntry

/-- Look for a program: at its path if it has a slash, and otherwise in directories. Having found
    one that may not be run counts only if no other is found. -/
def findProgram (d : Disk) (dirs : List String) (name : String) : Except Host.Error Executable :=
  if name.toList.contains '/' then resolveProgram d name
  else if name.isEmpty then Host.refuse .noEntry
  else
    let results := dirs.map fun dir =>
      resolveProgram d (Location.join (if dir.isEmpty then "." else dir) name)
    let isDecisive : Except Host.Error Executable → Bool
      | .error (.system e) => !([.noEntry, .notDir, .access].contains e)
      | _ => true
    let isDenied : Except Host.Error Executable → Bool
      | .error (.system .access) => true
      | _ => false
    match results.find? isDecisive with
    | some result => result
    | none => if results.any isDenied then Host.refuse .access else Host.refuse .noEntry

/-- Run a script in a shell of its own. -/
def runScript (exec : Exec) (path text : String) (args : List String) : Doing Flow :=
  enclosed do
    modify fun m => { m with
      environment := m.environment.filter fun v => m.exported.contains v.1
      functions := []
      name := path
      args := args
      status := 0
      strict := (interpreter? text).any fun i => i.2 = some "-e" }
    match parse? text with
    | some body => exec false body
    | none => do
      complainAt 1 "Syntax error"
      finish 2

/-- Run a shell as a program: on a script that is given as a text or as a file. -/
def runShell (exec : Exec) (name : String) : List String → Doing Flow
  | "-c" :: text :: args => runScript exec (args.headD name) text args.tail
  | file :: args => do
    match (← get).disk.readText file with
    | .ok text => runScript exec file text args
    | .error _ => do
      complain (name ++ ": 0: cannot open " ++ file ++ ": No such file")
      finish 2
  | [] => do
    let m ← get
    set { m with input := .empty }
    runScript exec name (Text.ofUtf8Lossy m.input) []

/-- Run a program that was found. -/
def runExecutable (exec : Exec) (args : List String) : Executable → Doing Flow
  | .script path text => runScript exec path text args
  | .utility name =>
    if name = "sleep" then sleep args
    else if shells.contains name then runShell exec name args
    else
      match utilities.lookup name with
      | some utility => do finish (← utility args)
      | none => finish 0

/-- How a shell goes on after a program of its own that was killed: with the status that tells the
    signal. -/
def afterProgram : Flow → Doing Flow
  | .killed signal => finish (128 + signal)
  | flow => return flow

/-- Look for a program and run it, complaining if that is not possible. -/
def runProgram (exec : Exec) (line : Nat) (name : String) (args : List String) : Doing Flow := do
  let m ← get
  match findProgram m.disk (searchPath m) name with
  | .ok program => runExecutable exec args program
  | .error (.system .noEntry) =>
    complainAt line (name ++ ": not found")
    finish 127
  | .error (.system .execFormat) =>
    match m.disk.readText name with
    | .ok text => runExecutable exec args (.script name text)
    | .error _ => finish 126
  | .error e =>
    complainAt line (name ++ ": " ++ reason e)
    finish 126

/-! ## Simple commands -/

/-- Carry out the words of a command. -/
def dispatch (exec : Exec) (line : Nat) (name : String) (args : List String) : Doing Flow := do
  match name with
  | "exit" =>
    modify fun m => { m with status := numberOf args m.status % 256 }
    return .exited
  | "return" =>
    modify fun m => { m with status := numberOf args m.status % 256 }
    return .returned
  | "break" => return .leave (numberOf args 1)
  | "continue" => return .again (numberOf args 1)
  | "exec" =>
    match args with
    | [] => finish 0
    | program :: args =>
      match ← runProgram exec line program args with
      | .next => return .exited
      | flow => return flow
  | "eval" =>
    match parse? (" ".intercalate args) with
    | some body => exec false body
    | none => finish 2
  | "." =>
    match (← get).disk.readText (args.headD "") with
    | .ok text => exec false ((parse? text).getD (.sequence []))
    | .error _ => finish 2
  | "shift" =>
    modify fun m => { m with args := m.args.drop (numberOf args 1) }
    finish 0
  | "set" =>
    match args with
    | "--" :: rest => modify fun m => { m with args := rest }
    | "-e" :: _ => modify fun m => { m with strict := true }
    | "+e" :: _ => modify fun m => { m with strict := false }
    | _ => pure ()
    finish 0
  | "export" => do
    modify (exportAll true args)
    finish 0
  | "local" | "readonly" => do
    modify (exportAll false args)
    finish 0
  | "unset" => do
    modify fun m => args.foldl Machine.unsetVariable m
    finish 0
  | "read" =>
    let names := args.filter fun a => a.toList.head? ≠ some '-'
    let m ← get
    let (text, rest, complete) := takeLine m.input
    set (assignFields (if names.isEmpty then ["REPLY"] else names) text { m with input := rest })
    finish (if complete then 0 else 1)
  | "cd" => changeDirectory line args
  | "kill" => kill args
  | "sleep" => sleep args
  | "trap" | "wait" | "umask" | "ulimit" => finish 0
  | "command" =>
    match args with
    | "-v" :: program :: _ =>
      let m ← get
      let found := (builtins.lookup program).isSome ||
        (findProgram m.disk (searchPath m) program).toOption.isSome
      if found then say program
      finish (if found then 0 else 127)
    | program :: args => do afterProgram (← runProgram exec line program args)
    | [] => finish 0
  | _ =>
    let m ← get
    match m.functions.lookup name, builtins.lookup name with
    | some body, _ =>
      set { m with args := args }
      let flow ← exec false body
      modify fun after => { after with args := m.args }
      return if flow = .returned then .next else flow
    | none, some utility => do finish (← utility args)
    | none, none => do afterProgram (← runProgram exec line name args)

/-- Carry out assignments. -/
def assign (exec : Exec) : List (String × Word) → Doing Unit
  | [] => return
  | (name, word) :: rest => do
    let value ← textOf exec word
    modify (·.setVariable name value)
    assign exec rest

/-- Whether a word holds the output of a command. -/
def hasOutput (word : Word) : Bool :=
  word.any fun
    | .output .. => true
    | _ => false

/-- Carry out a simple command. Assignments before a command hold for the command. -/
def runSimple (exec : Exec) (line : Nat) (assignments : List (String × Word)) (words : List Word)
    (rs : List Redirection) : Doing Flow := do
  match ← expandWords exec words with
  | [] => redirecting exec line rs do
    assign exec assignments
    if assignments.any fun a => hasOutput a.2 then return .next else finish 0
  | ["exec"] => do
    if ← redirect exec line rs then finish 0 else finish 2
  | name :: args => redirecting exec line rs do
    let before ← get
    assign exec assignments
    modify fun m => assignments.foldl (fun m a => m.exportVariable a.1) m
    let flow ← dispatch exec line name args
    if !assignments.isEmpty then
      modify fun m => { m with environment := before.environment, exported := before.exported }
    return flow

/-! ## Compound commands -/

/-- Carry out commands one after the other. -/
def runAll (exec : Bool → Command → Doing Flow) (tested : Bool) : List Command → Doing Flow
  | [] => return .next
  | c :: rest => do
    match ← exec tested c with
    | .next => runAll exec tested rest
    | flow => return flow

/-- What the end of a loop's body means for the loop: whether it goes on, and how the commands
    around it do if not. -/
def afterBody : Flow → Option Flow
  | .next => none
  | .leave n => some (if n ≤ 1 then .next else .leave (n - 1))
  | .again n => if n ≤ 1 then none else some (.again (n - 1))
  | flow => some flow

/-- Carry out a body for each of some values of a variable. -/
def runEach (exec : Exec) (name : String) (body : Command) : List String → Doing Flow
  | [] => return .next
  | value :: rest => do
    modify (·.setVariable name value)
    match afterBody (← exec false body) with
    | none => runEach exec name body rest
    | some flow => return flow

/-- The first arm of a selection with a pattern that matches. -/
def selectArm (exec : Exec) (s : List Char) : List (List Word × Command) → Doing (Option Command)
  | [] => return none
  | (patterns, body) :: rest => do
    let mut found := false
    for p in patterns do
      if Glob.matches (← patternOf exec p) s then found := true
    if found then return some body else selectArm exec s rest

/-- Carry out the commands of a pipeline; each reads what the one before it has printed. -/
def runPipeline (exec : Exec) : List Command → Doing Flow
  | [] => return .next
  | [last] => enclosed (exec false last)
  | c :: rest => do
    let (flow, bytes) ← captured (exec true c)
    if flow = .stopped then return .stopped
    modify fun m => { m with input := bytes }
    runPipeline exec rest

/-- Whether the last command has succeeded. -/
def succeeded : Doing Bool := do return (← get).status = 0

/-- End a strict script whose last command has failed. -/
def judge (tested : Bool) (flow : Flow) : Doing Flow := do
  let m ← get
  return if m.strict && !tested && flow = .next && m.status ≠ 0 then .exited else flow

/-- Carry out a command, given a way to carry out others. -/
def perform (exec : Exec) (tested : Bool) : Command → Doing Flow
  | .simple line assignments words rs => do
    judge tested (← runSimple exec line assignments words rs)
  | .sequence commands => runAll exec tested commands
  | .pipeline commands => do
    let before := (← get).input
    let flow ← runPipeline exec commands
    modify fun m => { m with input := before }
    judge tested flow
  | .negated c => do
    let flow ← exec true c
    modify fun m => { m with status := if m.status = 0 then 1 else 0 }
    return flow
  | .both first second => do
    match ← exec true first with
    | .next => if ← succeeded then exec tested second else return .next
    | flow => return flow
  | .either first second => do
    match ← exec true first with
    | .next => if ← succeeded then return .next else exec tested second
    | flow => return flow
  | .branch condition yes no => do
    match ← exec true condition with
    | .next =>
      if ← succeeded then exec tested yes
      else
        modify fun m => { m with status := 0 }
        exec tested no
    | flow => return flow
  | .loop inverted condition body => do
    match ← exec true condition with
    | .next =>
      if (← succeeded) != inverted then
        match afterBody (← exec false body) with
        | none => exec tested (.loop inverted condition body)
        | some flow => return flow
      else finish 0
    | flow => return flow
  | .each name words body => do
    let values ← match words with
      | some words => expandWords exec words
      | none => pure (← get).args
    modify fun m => { m with status := 0 }
    runEach exec name body values
  | .select word arms => do
    let s ← textOf exec word
    modify fun m => { m with status := 0 }
    match ← selectArm exec s.toList arms with
    | some body => exec tested body
    | none => return .next
  | .subshell body => do judge tested (← enclosed (exec tested body))
  | .redirected line body rs => redirecting exec line rs (exec tested body)
  | .define name body => do
    modify fun m => { m with functions := (name, body) :: m.functions }
    finish 0

/-- Carry out a command in a number of turns. -/
def run : Nat → Exec
  | 0, _, _ => return .stopped
  | turns + 1, tested, c => perform (run turns) tested c

/-- The number of turns after which a script is held to run for ever. -/
def maxTurns : Nat := 5000

end Workbench.Shell
