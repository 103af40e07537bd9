import Workbench.Text.Decimal
import Workbench.Text.Split

set_option autoImplicit false

/-! # Reading a command line

A command has options, which begin with dashes, and at most one kind of operand, which is what
remains. An option is a flag or takes a value, which is attached to it or is the word after it.
Words after a lone `--` are operands all. The words are read from left to right, and an option is
settled when the next one begins: only then is it found out that its value is missing or is no value
for it. The first word of a command that has subcommands and names one of them ends the reading; the
rest of the words belong to the subcommand. -/

namespace Workbench.Command

/-- Why a command line is refused, or what it asks for instead of a command. -/
inductive Refusal where
  | argumentConflict
  | displayHelp
  | displayHelpOnMissingArgumentOrSubcommand
  | displayVersion
  | invalidSubcommand
  | invalidValue
  | missingRequiredArgument
  | missingSubcommand
  | tooManyValues
  | unknownArgument
  | valueValidation
  deriving DecidableEq, Repr, Inhabited

/-- The name of a refusal. -/
def Refusal.name : Refusal → String
  | .argumentConflict => "ArgumentConflict"
  | .displayHelp => "DisplayHelp"
  | .displayHelpOnMissingArgumentOrSubcommand => "DisplayHelpOnMissingArgumentOrSubcommand"
  | .displayVersion => "DisplayVersion"
  | .invalidSubcommand => "InvalidSubcommand"
  | .invalidValue => "InvalidValue"
  | .missingRequiredArgument => "MissingRequiredArgument"
  | .missingSubcommand => "MissingSubcommand"
  | .tooManyValues => "TooManyValues"
  | .unknownArgument => "UnknownArgument"
  | .valueValidation => "ValueValidation"

/-- What an argument may be given. -/
inductive Domain where
  /-- Any text. -/
  | text
  /-- A path, which is not empty. -/
  | path
  /-- A numeral below `2 ^ 64`. -/
  | number
  deriving DecidableEq, Repr, Inhabited

/-- Accept a value, or refuse it. -/
def Domain.check (d : Domain) (value : String) : Except Refusal Unit :=
  match d with
  | .text => .ok ()
  | .path => if value.isEmpty then .error .invalidValue else .ok ()
  | .number => if (Text.word? 64 value.toList).isSome then .ok () else .error .valueValidation

/-- What happens when an option is met. -/
inductive Effect where
  /-- It is noted; a second time is a conflict. -/
  | flag
  /-- It is noted with its value; a second time is a conflict unless `many` is set. -/
  | value (domain : Domain) (many : Bool)
  | help
  | version
  deriving DecidableEq, Repr, Inhabited

/-- An option: its name, which is its long form, a letter for its short form, and its effect. -/
structure Switch where
  name : String
  letter : Option Char
  effect : Effect
  deriving DecidableEq, Repr, Inhabited

/-- What a command understands. -/
structure Grammar where
  switches : List Switch
  /-- The name and domain of the operands, and whether there may be more than one. -/
  operand : Option (String × Domain × Bool)
  subcommands : List String
  deriving DecidableEq, Repr, Inhabited

/-- The arguments of a command that are settled, each with its values, in order. -/
abbrev Settled := List (String × List String)

/-- All values of an argument; none if it was not given. -/
def Settled.values? (s : Settled) (name : String) : Option (List String) :=
  let own := s.filter (·.1 = name)
  if own.isEmpty then none else some (own.flatMap (·.2))

/-- Whether an argument was given. -/
def Settled.has (s : Settled) (name : String) : Bool := (s.values? name).isSome

/-- The value of an argument that has one. -/
def Settled.value? (s : Settled) (name : String) : Option String :=
  (s.values? name).bind List.head?

/-- A command line that is being read. -/
structure Reading where
  settled : Settled
  /-- The argument under way, with the values it has. -/
  pending : Option (String × Effect × List String)
  /-- Whether the next word is the value of the argument under way. -/
  awaitsValue : Bool
  /-- Whether the operands are complete. -/
  isFull : Bool
  deriving Repr

namespace Reading

/-- The reading before the first word. -/
def start : Reading := ⟨[], none, false, false⟩

/-- Settle an argument: its value must be there, it must not come twice unless it may, and the value
    must be of its domain. -/
def note (r : Reading) (name : String) (effect : Effect) (values : List String) :
    Except Refusal Reading := do
  let many := match effect with
    | .value _ many => many
    | _ => false
  if let .value .. := effect then
    if values.isEmpty then throw .invalidValue
  if !many && r.settled.has name then throw .argumentConflict
  if let .value domain _ := effect then
    values.forM domain.check
  return { r with settled := r.settled ++ [(name, values)] }

/-- Settle the argument under way. -/
def resolve (r : Reading) : Except Refusal Reading :=
  match r.pending with
  | none => .ok r
  | some (name, effect, values) => note { r with pending := none } name effect values

/-- Meet an option, perhaps with an attached value. -/
def meet (r : Reading) (switch : Switch) (attached : Option String) : Except Refusal Reading := do
  match switch.effect, attached with
  | .value .., some value =>
    (← r.resolve).note switch.name switch.effect [value]
  | .value .., none =>
    return { (← r.resolve) with
      pending := some (switch.name, switch.effect, [])
      awaitsValue := true }
  | _, some _ => throw .tooManyValues
  | .flag, none => (← r.resolve).note switch.name .flag []
  | .help, none =>
    let _ ← r.resolve
    throw .displayHelp
  | .version, none =>
    let _ ← r.resolve
    throw .displayVersion

/-- Meet the option with a long form, which the text after the dashes begins with. -/
def meetLong (g : Grammar) (r : Reading) (body : List Char) : Except Refusal Reading :=
  let (name, attached) := match Text.cut? ['='] body with
    | some (name, value) => (String.ofList name, some (String.ofList value))
    | none => (String.ofList body, none)
  match g.switches.find? (·.name = name) with
  | some switch => { r with awaitsValue := false }.meet switch attached
  | none => .error .unknownArgument

/-- Meet the options with short forms that stand after one dash. What follows the letter of an
    option that takes a value is its value, perhaps after a `=`. -/
def meetShort (g : Grammar) (r : Reading) : List Char → Except Refusal Reading
  | [] => .ok r
  | letter :: rest =>
    match g.switches.find? (·.letter = some letter) with
    | none => .error .unknownArgument
    | some switch =>
      match switch.effect with
      | .value .. =>
        let attached := match rest with
          | [] => none
          | '=' :: value => some (String.ofList value)
          | _ => some (String.ofList rest)
        { r with awaitsValue := false }.meet switch attached
      | _ => do meetShort g (← { r with awaitsValue := false }.meet switch none) rest

/-- Why a word is refused that stands where no operand is expected. -/
def unexpected (g : Grammar) (trailing : Bool) (word : String) : Refusal :=
  if trailing && g.subcommands.contains word then .unknownArgument
  else if g.subcommands.isEmpty then .unknownArgument
  else .invalidSubcommand

/-- Meet an operand. -/
def meetOperand (g : Grammar) (r : Reading) (trailing : Bool) (word : String) :
    Except Refusal Reading :=
  match g.operand with
  | none => .error (unexpected g trailing word)
  | some (name, domain, many) =>
    if r.isFull then .error (unexpected g trailing word)
    else do
      let effect := Effect.value domain many
      let (r, before) ← match r.pending with
        | some (pending, _, values) =>
          if pending = name then pure (r, values) else pure ((← r.resolve), [])
        | none => pure (r, [])
      return { r with
        pending := some (name, effect, before ++ [word])
        awaitsValue := false
        isFull := !many }

/-- Give the argument under way its value. -/
def giveValue (r : Reading) (word : String) : Reading :=
  { r with
    pending := r.pending.map fun (name, effect, values) => (name, effect, values ++ [word])
    awaitsValue := false }

/-- Read words after a lone `--`. -/
def readOperands (g : Grammar) (r : Reading) : List String → Except Refusal Reading
  | [] => .ok r
  | word :: rest => do readOperands g (← r.meetOperand g true word) rest

/-- Read words up to a subcommand, which is returned with the words after it. -/
def readWords (g : Grammar) (r : Reading) :
    List String → Except Refusal (Reading × Option (String × List String))
  | [] => .ok (r, none)
  | word :: rest =>
    if !r.awaitsValue && g.subcommands.contains word then .ok (r, some (word, rest))
    else
      match word.toList with
      | ['-', '-'] => do return (← r.readOperands g rest, none)
      | '-' :: '-' :: body => do readWords g (← r.meetLong g body) rest
      | '-' :: letter :: more => do readWords g (← r.meetShort g (letter :: more)) rest
      | _ =>
        if r.awaitsValue then readWords g (r.giveValue word) rest
        else do readWords g (← r.meetOperand g false word) rest

end Reading

end Workbench.Command
