import Workbench.Shell.Token

set_option autoImplicit false

/-! # Reading shell scripts

From tokens to commands. A word without quotes at the place of a command may be reserved: `if`,
`for` and their like begin a compound command, and the words that end its parts end the list of
commands that is being read. A background command is read like one in the foreground. -/

namespace Workbench.Shell

/-- What is still to be read. -/
abbrev Tokens := List Located

/-- The words that end a list of commands. -/
def closers : List String := ["then", "else", "elif", "fi", "do", "done", "esac", "\x7d"]

/-- The reserved word at the start, if there is one. -/
def reserved? : Tokens → Option String
  | (.word w, _) :: _ => plain? w
  | _ => none

/-- The operator at the start, if there is one. -/
def operator? : Tokens → Option String
  | (.operator op, _) :: _ => some op
  | _ => none

/-- Drop line ends. -/
def skipLines : Tokens → Tokens
  | (.newline, _) :: rest => skipLines rest
  | ts => ts

/-- Drop line ends and separators. -/
def skipSeparators : Tokens → Tokens
  | (.newline, _) :: rest => skipSeparators rest
  | (.operator ";", _) :: rest => skipSeparators rest
  | (.operator "&", _) :: rest => skipSeparators rest
  | ts => ts

/-- Take a reserved word. -/
def expect (word : String) (ts : Tokens) : Option Tokens :=
  if reserved? ts = some word then some (ts.drop 1) else none

/-- Take an operator. -/
def expectOperator (op : String) (ts : Tokens) : Option Tokens :=
  if operator? ts = some op then some (ts.drop 1) else none

/-- Whether a list of commands ends here. -/
def endsList (ts : Tokens) : Bool :=
  match ts with
  | [] => true
  | (.operator op, _) :: _ => op == ")" || op == ";;"
  | _ => (reserved? ts).any closers.contains

/-- The number of the line of the first token. -/
def lineOf (ts : Tokens) : Nat :=
  match ts with
  | (_, line) :: _ => line
  | [] => 0

/-- The channels that the operators of redirections stand for when no number precedes them, and what
    is done with them. -/
def channels : List (String × Nat × Channel) :=
  [("<", 0, .input), (">", 1, .output), (">|", 1, .output), (">>", 1, .append),
    (">&", 1, .duplicate), ("<&", 0, .duplicate)]

/-- Read a redirection, if one stands here. -/
def readRedirection (documents : List Word) (ts : Tokens) : Option (Redirection × Tokens) :=
  let (number, ts) := match ts with
    | (.channel n, _) :: rest => (some n, rest)
    | _ => (none, ts)
  match ts with
  | (.operator op, _) :: (.word target, _) :: rest =>
    (channels.lookup op).map fun (usual, channel) =>
      (.to (number.getD usual) channel target, rest)
  | (.document index, _) :: rest =>
    some (.to (number.getD 0) .document (documents.getD index []), rest)
  | _ => none

/-- Read redirections. -/
def readRedirections (documents : List Word) : Nat → Tokens → List Redirection × Tokens
  | 0, ts => ([], ts)
  | fuel + 1, ts =>
    match readRedirection documents ts with
    | some (r, rest) =>
      let (more, rest) := readRedirections documents fuel rest
      (r :: more, rest)
    | none => ([], ts)

/-- The name and value of a word that assigns. -/
def assignment? : Word → Option (String × Word)
  | .text t false :: rest =>
    match Text.cut? ['='] t.toList with
    | some (name, value) =>
      if (name.head?.any beginsName) && name.all continuesName then
        some (String.ofList name,
          if value.isEmpty then rest else .text (String.ofList value) false :: rest)
      else none
    | none => none
  | _ => none

/-- A simple command under way. -/
structure Simple where
  assignments : List (String × Word)
  words : List Word
  redirections : List Redirection

/-- Read a simple command. -/
def readSimple (documents : List Word) : Nat → Simple → Tokens → Simple × Tokens
  | 0, c, ts => (c, ts)
  | fuel + 1, c, ts =>
    match readRedirection documents ts with
    | some (r, rest) =>
      readSimple documents fuel { c with redirections := c.redirections ++ [r] } rest
    | none =>
      match ts with
      | (.word w, _) :: rest =>
        match assignment? w, c.words with
        | some a, [] =>
          readSimple documents fuel { c with assignments := c.assignments ++ [a] } rest
        | _, _ => readSimple documents fuel { c with words := c.words ++ [w] } rest
      | _ => (c, ts)

/-- Read words up to one that is none. -/
def readWords : Tokens → List Word × Tokens
  | (.word w, _) :: rest =>
    let (more, rest) := readWords rest
    (w :: more, rest)
  | ts => ([], ts)

/-- Read the patterns of an arm, with the bar between two. -/
def readPatterns : Tokens → Option (List Word × Tokens)
  | (.word w, _) :: (.operator "|", _) :: rest => do
    let (more, rest) ← readPatterns rest
    return (w :: more, rest)
  | (.word w, _) :: (.operator ")", _) :: rest => some ([w], rest)
  | _ => none

/-- A reader of commands, given the reader of lists of commands. -/
abbrev ListReader := Tokens → Option (Command × Tokens)

/-- Read what follows the condition of a branch: its parts up to `fi`. -/
def readBranch (list : ListReader) : Nat → Tokens → Option (Command × Tokens)
  | 0, _ => none
  | fuel + 1, ts => do
    let (condition, ts) ← list ts
    let (yes, ts) ← list (← expect "then" ts)
    match reserved? ts with
    | some "elif" =>
      let (no, ts) ← readBranch list fuel (ts.drop 1)
      return (.branch condition yes no, ts)
    | some "else" =>
      let (no, ts) ← list (ts.drop 1)
      return (.branch condition yes no, ← expect "fi" ts)
    | _ => return (.branch condition yes (.sequence []), ← expect "fi" ts)

/-- Read a body between `do` and `done`. -/
def readBody (list : ListReader) (ts : Tokens) : Option (Command × Tokens) := do
  let (body, ts) ← list (← expect "do" (skipSeparators ts))
  return (body, ← expect "done" ts)

/-- Read a loop over words, after `for`. -/
def readEach (list : ListReader) (ts : Tokens) : Option (Command × Tokens) := do
  let name ← reserved? ts
  let ts := ts.drop 1
  let afterLines := skipLines ts
  if reserved? afterLines = some "in" then
    let (words, ts) := readWords (afterLines.drop 1)
    let (body, ts) ← readBody list ts
    return (.each name (some words) body, ts)
  else
    let (body, ts) ← readBody list ts
    return (.each name none body, ts)

/-- Read the arms of a selection up to `esac`. -/
def readArms (list : ListReader) : Nat → Tokens → Option (List (List Word × Command) × Tokens)
  | 0, _ => none
  | fuel + 1, ts => do
    let ts := skipLines ts
    if reserved? ts = some "esac" then return ([], ts.drop 1)
    let (patterns, ts) ← readPatterns ((expectOperator "(" ts).getD ts)
    let (body, ts) ← list ts
    match operator? ts with
    | some ";;" =>
      let (more, ts) ← readArms list fuel (ts.drop 1)
      return ((patterns, body) :: more, ts)
    | _ => return ([(patterns, body)], ← expect "esac" ts)

/-- Read a selection, after `case`. -/
def readSelect (list : ListReader) (ts : Tokens) : Option (Command × Tokens) := do
  match ts with
  | (.word w, _) :: rest =>
    let ts ← expect "in" (skipLines rest)
    let (arms, ts) ← readArms list (ts.length + 1) ts
    return (.select w arms, ts)
  | _ => none

/-- Read a compound command, if one begins here. -/
def readCompound (list : ListReader) (ts : Tokens) : Option (Option (Command × Tokens)) :=
  let rest := ts.drop 1
  match operator? ts, reserved? ts with
  | some "(", _ => do
    let (body, ts) ← list rest
    return some (.subshell body, ← expectOperator ")" ts)
  | _, some "\x7b" => do
    let (body, ts) ← list rest
    return some (body, ← expect "\x7d" ts)
  | _, some "if" => do return some (← readBranch list (ts.length + 1) rest)
  | _, some "while" => do
    let (condition, ts) ← list rest
    let (body, ts) ← readBody list ts
    return some (.loop false condition body, ts)
  | _, some "until" => do
    let (condition, ts) ← list rest
    let (body, ts) ← readBody list ts
    return some (.loop true condition body, ts)
  | _, some "for" => do return some (← readEach list rest)
  | _, some "case" => do return some (← readSelect list rest)
  | _, _ => some none

/-- Read a command. -/
def readCommand (documents : List Word) (list : ListReader) (ts : Tokens) :
    Option (Command × Tokens) := do
  match ← readCompound list ts with
  | some (body, rest) =>
    let (redirections, rest) := readRedirections documents rest.length rest
    return (if redirections.isEmpty then body else .redirected (lineOf ts) body redirections, rest)
  | none =>
    match ts with
    | (.word w, _) :: (.operator "(", _) :: (.operator ")", _) :: rest =>
      let name ← plain? w
      let (body, rest) ← (← readCompound list (skipLines rest))
      return (.define name body, rest)
    | _ =>
      let (c, rest) := readSimple documents (ts.length + 1) ⟨[], [], []⟩ ts
      if c.assignments.isEmpty && c.words.isEmpty && c.redirections.isEmpty then none
      else return (.simple (lineOf ts) c.assignments c.words c.redirections, rest)

/-- Read commands with bars between them. -/
def readPipes (documents : List Word) (list : ListReader) : Nat → Tokens →
    Option (List Command × Tokens)
  | 0, _ => none
  | fuel + 1, ts => do
    let (c, rest) ← readCommand documents list ts
    match operator? rest with
    | some "|" =>
      let (more, rest) ← readPipes documents list fuel (skipLines (rest.drop 1))
      return (c :: more, rest)
    | _ => return ([c], rest)

/-- Read a pipeline, perhaps negated. -/
def readPipeline (documents : List Word) (list : ListReader) (ts : Tokens) :
    Option (Command × Tokens) := do
  let negated := reserved? ts = some "!"
  let ts := if negated then ts.drop 1 else ts
  let (commands, rest) ← readPipes documents list (ts.length + 1) ts
  let command := match commands with
    | [c] => c
    | _ => .pipeline commands
  return (if negated then .negated command else command, rest)

/-- Read the rest of a chain of pipelines, of which the first has been read. -/
def readChain (documents : List Word) (list : ListReader) : Nat → Command → Tokens →
    Option (Command × Tokens)
  | 0, _, _ => none
  | fuel + 1, first, ts =>
    match operator? ts with
    | some "&&" => do
      let (second, rest) ← readPipeline documents list (skipLines (ts.drop 1))
      readChain documents list fuel (.both first second) rest
    | some "||" => do
      let (second, rest) ← readPipeline documents list (skipLines (ts.drop 1))
      readChain documents list fuel (.either first second) rest
    | _ => some (first, ts)

/-- Read the commands of a list. -/
def readItems (documents : List Word) (list : ListReader) : Nat → Tokens →
    Option (List Command × Tokens)
  | 0, _ => none
  | fuel + 1, ts => do
    let ts := skipSeparators ts
    if endsList ts then return ([], ts)
    let (first, ts) ← readPipeline documents list ts
    let (command, ts) ← readChain documents list (ts.length + 1) first ts
    let (more, ts) ← match ts with
      | (.newline, _) :: _ => readItems documents list fuel ts
      | (.operator ";", _) :: _ => readItems documents list fuel ts
      | (.operator "&", _) :: _ => readItems documents list fuel ts
      | _ => if endsList ts then pure ([], ts) else none
    return (command :: more, ts)

/-- Read a list of commands whose compound commands are less than `depth` deep. -/
def readList (documents : List Word) : Nat → ListReader
  | 0, _ => none
  | depth + 1, ts => do
    let (commands, ts) ← readItems documents (readList documents depth) (ts.length + 1) ts
    return (.sequence commands, ts)

/-- Read a script in which scripts are less than `depth` deep. -/
def readNested : Nat → Nested
  | 0, _ => none
  | depth + 1, s => do
    let (ts, documents) ← tokens? (readNested depth) s
    let (command, rest) ← readList documents (ts.length + 1) ts
    if rest.isEmpty then return command else none

/-- Read a script. -/
def parse? (text : String) : Option Command := readNested (text.length + 1) text.toList

end Workbench.Shell
