import Workbench.Command.Grammar
import Workbench.Host.Error

set_option autoImplicit false

/-! # Invocations

What the command line of the program asks for: to archive packages, to format a file, or to run one,
with settings for all of them. Options that all commands share may stand before or after the name of
the command; where they stand in both places, those after it count. -/

namespace Workbench.Command

/-- What is to be done. -/
inductive Action where
  /-- Archive the standard library or packages, in a store with a manifest. -/
  | precompile (standard : Bool) (packages : List String) (store manifest moduleDir : Option String)
      (timeout : Option Nat)
  /-- Format a file, and write it back or print it. -/
  | format (file : String) (write : Bool)
  /-- Run a file. -/
  | run (file : String) (site cacheDir outDir : Option String)
  deriving DecidableEq, Repr, Inhabited

/-- A command line that was understood. -/
structure Invocation where
  /-- The file of settings that was asked for. -/
  configFile : Option String
  /-- Settings for this invocation, each a field and a value around a `=`. -/
  assignments : List String
  verbose : Bool
  action : Action
  deriving DecidableEq, Repr, Inhabited

namespace Invocation

/-! ## The grammar -/

/-- The options that all commands share. -/
def sharedSwitches : List Switch := [
  ⟨"config", none, .value .path false⟩,
  ⟨"set", some 's', .value .text true⟩,
  ⟨"verbose", some 'v', .flag⟩,
  ⟨"help", some 'h', .help⟩]

/-- The names of the commands. -/
def commands : List String := ["precompile", "fmt", "run", "help"]

/-- The grammar of what stands before the name of a command. -/
def mainGrammar : Grammar where
  switches := sharedSwitches ++ [⟨"version", some 'V', .version⟩]
  operand := none
  subcommands := commands

/-- The grammar of archiving. -/
def precompileGrammar : Grammar where
  switches := sharedSwitches ++ [
    ⟨"std", none, .flag⟩,
    ⟨"store", none, .value .path false⟩,
    ⟨"manifest", none, .value .path false⟩,
    ⟨"module-dir", none, .value .path false⟩,
    ⟨"timeout", none, .value .number false⟩]
  operand := some ("packages", .text, true)
  subcommands := []

/-- The grammar of formatting. -/
def formatGrammar : Grammar where
  switches := sharedSwitches ++ [⟨"write", some 'w', .flag⟩]
  operand := some ("file", .path, false)
  subcommands := []

/-- The grammar of running. -/
def runGrammar : Grammar where
  switches := sharedSwitches ++ [
    ⟨"site", none, .value .text false⟩,
    ⟨"cache-dir", none, .value .path false⟩,
    ⟨"out", none, .value .path false⟩]
  operand := some ("file", .path, false)
  subcommands := []

/-! ## Commands -/

/-- Read the words of a command that has no subcommands. -/
def readCommand (g : Grammar) (words : List String) : Except Refusal Settled := do
  let (r, _) ← Reading.start.readWords g words
  return (← r.resolve).settled

/-- The operand of a command that needs one. -/
def file (s : Settled) : Except Refusal String :=
  match s.value? "file" with
  | some file => .ok file
  | none => .error .missingRequiredArgument

/-- Read the words of archiving. The standard library excludes packages, and one of both is needed.
    -/
def readPrecompile (words : List String) : Except Refusal (Action × Settled) := do
  let s ← readCommand precompileGrammar words
  let standard := s.has "std"
  let packages := s.values? "packages"
  if standard && packages.isSome then throw .argumentConflict
  if !standard && packages.isNone then throw .missingRequiredArgument
  let timeout := (s.value? "timeout").bind fun numeral => Text.word? 64 numeral.toList
  return (.precompile standard (packages.getD []) (s.value? "store") (s.value? "manifest")
    (s.value? "module-dir") timeout, s)

/-- Read the words of formatting. -/
def readFormat (words : List String) : Except Refusal (Action × Settled) := do
  let s ← readCommand formatGrammar words
  return (.format (← file s) (s.has "write"), s)

/-- Read the words of running. -/
def readRun (words : List String) : Except Refusal (Action × Settled) := do
  let s ← readCommand runGrammar words
  return (.run (← file s) (s.value? "site") (s.value? "cache-dir") (s.value? "out"), s)

/-- What asking for help comes to: the words have to name one command, or nothing. -/
def readHelp : List String → Refusal
  | [] => .displayHelp
  | [word] => if commands.contains word then .displayHelp else .invalidSubcommand
  | _ => .invalidSubcommand

/-- Read the words of a command. -/
def readAction (command : String) (words : List String) : Except Refusal (Action × Settled) :=
  match command with
  | "precompile" => readPrecompile words
  | "fmt" => readFormat words
  | "run" => readRun words
  | _ => .error (readHelp words)

/-- Read a command line. What stands after the name of the command is judged before what is still
    open before it. -/
def ofWords (words : List String) : Except Refusal Invocation := do
  let (r, command) ← Reading.start.readWords mainGrammar words
  match command with
  | none =>
    let s := (← r.resolve).settled
    throw (if s.isEmpty then .displayHelpOnMissingArgumentOrSubcommand else .missingSubcommand)
  | some (command, rest) =>
    let (action, inner) ← readAction command rest
    let outer := (← r.resolve).settled
    return {
      configFile := (inner.value? "config").or (outer.value? "config")
      assignments := ((inner.values? "set").or (outer.values? "set")).getD []
      verbose := inner.has "verbose" || outer.has "verbose"
      action := action }

/-! ## Settings -/

/-- The field and the value of an assignment. -/
def assignment (text : String) : Except Host.Error (String × String) :=
  match Text.cut? ['='] text.toList with
  | some (field, value) => .ok (String.ofList field, String.ofList value)
  | none => .error (.custom .invalidInput ("--set value must be KEY=VALUE, got: " ++ text))

/-- The fields and values of all assignments. -/
def overrides (i : Invocation) : Except Host.Error (List (String × String)) :=
  i.assignments.mapM assignment

end Invocation

/-- A refusal as an error of the host. -/
def Refusal.toHost (r : Refusal) : Host.Error :=
  match r with
  | .unknownArgument | .invalidValue | .missingRequiredArgument | .argumentConflict =>
    .custom .invalidInput r.name
  | _ => .custom .other r.name

end Workbench.Command
