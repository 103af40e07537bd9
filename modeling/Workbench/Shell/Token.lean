import Workbench.Shell.Syntax
import Workbench.Text.Decimal
import Workbench.Text.Split

set_option autoImplicit false

/-! # Tokens of shell scripts

Cutting the text of a script into words, operators and line ends. Quotes and parameters are taken
apart on the way; the script inside `$(…)` is handed to a reader that is passed in. Nothing is
returned for a text whose quotes or braces do not close. -/

namespace Workbench.Shell

/-- A token. -/
inductive Token where
  | word (word : Word)
  | operator (text : String)
  | newline
  /-- The number of a channel before a redirection. -/
  | channel (number : Nat)
  /-- The document of a redirection, by its place among the documents. -/
  | document (index : Nat)
  deriving Inhabited

/-- A token with the number of its line. -/
abbrev Located := Token × Nat

/-- A reader of nested scripts. -/
abbrev Nested := List Char → Option Command

/-- Whether a character may begin a name. -/
def beginsName (c : Char) : Bool := c.isAlpha || c == '_'

/-- Whether a character may continue a name. -/
def continuesName (c : Char) : Bool := c.isAlphanum || c == '_'

/-- Whether a character ends a word that is not quoted. -/
def endsWord (c : Char) : Bool := " \t\n;&|<>()".toList.contains c

/-- Whether a character names a parameter of the shell itself. -/
def isSpecialParameter (c : Char) : Bool := "?#@*$!-".toList.contains c || c.isDigit

/-- Take the text up to a closing character, which closes as many as were opened. Quotes keep what
    is in them together. -/
def takeBalanced (opening closing : Char) : Nat → Nat → List Char → List Char →
    Option (List Char × List Char)
  | 0, _, _, _ => none
  | fuel + 1, depth, out, s =>
    match s with
    | [] => none
    | '\\' :: c :: rest => takeBalanced opening closing fuel depth (c :: '\\' :: out) rest
    | '\'' :: rest =>
      let inside := rest.takeWhile (· ≠ '\'')
      match rest.dropWhile (· ≠ '\'') with
      | [] => none
      | _ :: after =>
        takeBalanced opening closing fuel depth ('\'' :: (inside.reverse ++ '\'' :: out)) after
    | c :: rest =>
      if c = closing then
        if depth = 0 then some (out.reverse, rest)
        else takeBalanced opening closing fuel (depth - 1) (c :: out) rest
      else
        takeBalanced opening closing fuel (if c = opening then depth + 1 else depth) (c :: out) rest

/-- A piece as it is inside of quotes, if `quoted` is set. -/
def Piece.quoteIf (quoted : Bool) : Piece → Piece
  | .text t q => .text t (q || quoted)
  | .parameter name q => .parameter name (q || quoted)
  | .length name => .length name
  | .modified name operator word q => .modified name operator word (q || quoted)
  | .output body q => .output body (q || quoted)
  | .number expression q => .number expression (q || quoted)

/-- Put a character at the end of pieces of the same quoting. -/
def addChar (quoted : Bool) (c : Char) : List Piece → List Piece
  | .text t q :: rest => if q = quoted then .text (t.push c) q :: rest
    else .text c.toString quoted :: .text t q :: rest
  | pieces => .text c.toString quoted :: pieces

/-- The operators that may follow the name of a parameter in braces, longer ones first. -/
def modifiers : List String := [":-", ":=", ":+", ":?", "%%", "##", "-", "=", "+", "?", "%", "#"]

/-- The operators after which a pattern is cut off the value. -/
def cuts : List String := ["%%", "##", "%", "#"]

/-- The parameter in braces that a text spells; `word` reads the word after an operator. Quotes
    around the braces do not quote a pattern in them. -/
def braced? (word : Bool → List Char → Option Word) (quoted : Bool) (s : List Char) :
    Option Piece :=
  match s with
  | '#' :: c :: rest =>
    if (c :: rest).all continuesName then some (.length (String.ofList (c :: rest))) else none
  | first :: _ =>
    let name := if beginsName first then s.takeWhile continuesName
      else if first.isDigit then s.takeWhile Char.isDigit else s.take 1
    let rest := s.drop name.length
    if !(beginsName first || isSpecialParameter first) then none
    else if rest.isEmpty then some (.parameter (String.ofList name) quoted)
    else do
      let operator ← modifiers.find? (·.toList.isPrefixOf rest)
      let word ← word (quoted && operator ∉ cuts) (rest.drop operator.length)
      return .modified (String.ofList name) operator word quoted
  | [] => none

/-- Read what follows a dollar sign: a piece and the rest, or nothing if the sign stands for itself.
    -/
def readDollar (nested : Nested) (word : Bool → List Char → Option Word) (quoted : Bool)
    (s : List Char) : Option (Option (Piece × List Char)) :=
  match s with
  | '\x7b' :: rest => do
    let (inside, after) ← takeBalanced '\x7b' '\x7d' (rest.length + 1) 0 [] rest
    return some (← braced? word quoted inside, after)
  | '(' :: rest => do
    let (inside, after) ← takeBalanced '(' ')' (rest.length + 1) 0 [] rest
    match inside, inside.getLast? with
    | '(' :: expression, some ')' =>
      return some (.number (← word quoted expression.dropLast) quoted, after)
    | _, _ => return some (.output (← nested inside) quoted, after)
  | c :: rest =>
    if beginsName c then
      some (some (.parameter (String.ofList (s.takeWhile continuesName)) quoted,
        s.dropWhile continuesName))
    else if isSpecialParameter c then some (some (.parameter c.toString quoted, rest))
    else some none
  | [] => some none

/-- Read pieces, last first. In double quotes a backslash escapes only what has a meaning there.
    Otherwise pieces end where `stop` says. -/
def readPieces (nested : Nested) (stop : Char → Bool) : Nat → Bool → List Piece → List Char →
    Option (List Piece × List Char)
  | 0, _, _, _ => none
  | fuel + 1, quoted, out, s =>
    let go := readPieces nested stop fuel
    match s with
    | [] => if quoted then none else some (out, [])
    | '\\' :: '\n' :: rest => go quoted out rest
    | '\\' :: c :: rest =>
      if quoted && !("$\x60\"\\".toList.contains c) then
        go quoted (addChar true c (addChar true '\\' out)) rest
      else go quoted (addChar true c out) rest
    | '"' :: rest =>
      if quoted then go false out rest
      else go true (.text "" true :: out) rest
    | '$' :: rest => do
      let word (quoted : Bool) (w : List Char) : Option Word := do
        let (pieces, _) ← readPieces nested (fun _ => false) fuel false [] w
        return pieces.reverse.map (·.quoteIf quoted)
      match ← readDollar nested word quoted rest with
      | some (piece, rest) => go quoted (piece :: out) rest
      | none => go quoted (addChar quoted '$' out) rest
    | '\x60' :: rest => do
      let inside := rest.takeWhile (· ≠ '\x60')
      match rest.dropWhile (· ≠ '\x60') with
      | [] => none
      | _ :: after => go quoted (.output (← nested inside) quoted :: out) after
    | c :: rest =>
      if quoted then go quoted (addChar true c out) rest
      else if c = '\'' then
        let inside := rest.takeWhile (· ≠ '\'')
        match rest.dropWhile (· ≠ '\'') with
        | [] => none
        | _ :: after => go quoted (.text (String.ofList inside) true :: out) after
      else if stop c then some (out, s)
      else go quoted (addChar false c out) rest

/-- Read a word. -/
def readWord (nested : Nested) (s : List Char) : Option (Word × List Char) := do
  let (pieces, rest) ← readPieces nested endsWord (s.length + 1) false [] s
  return (pieces.reverse, rest)

/-- The operators, longer ones first. -/
def operators : List String :=
  [";;", "&&", "||", "<<-", "<<", ">>", ">&", "<&", ">|", ";", "&", "|", "<", ">", "(", ")"]

/-- The text of the pieces of a word, without regard to quotes. -/
def bareText (w : Word) : String :=
  String.join (w.map fun
    | .text t _ => t
    | _ => "")

/-- Whether a piece is quoted. -/
def isQuoted : Piece → Bool
  | .text _ quoted => quoted
  | _ => false

/-- A document that is still to come: the word that ends it, whether its text is taken as it is, and
    whether tabs at the starts of its lines are dropped. -/
structure Awaited where
  finish : String
  verbatim : Bool
  dropTabs : Bool

/-- Read the lines of a document. -/
def readDocument (a : Awaited) : Nat → List Char → List Char → List Char × List Char
  | 0, out, s => (out, s)
  | fuel + 1, out, s =>
    let line := s.takeWhile (· ≠ '\n')
    let rest := (s.dropWhile (· ≠ '\n')).drop 1
    let line := if a.dropTabs then line.dropWhile (· == '\t') else line
    if line = a.finish.toList || s.isEmpty then (out, rest)
    else readDocument a fuel (out ++ line ++ ['\n']) rest

/-- The word that a document stands for. -/
def documentWord (nested : Nested) (a : Awaited) (text : List Char) : Option Word :=
  if a.verbatim then some [.text (String.ofList text) true]
  else do
    let escaped := text.flatMap fun c => if c = '"' then ['\\', '"'] else [c]
    let (pieces, _) ←
      readPieces nested (fun _ => false) (2 * escaped.length + 4) true [] (escaped ++ ['"'])
    return pieces.reverse

/-- A script that is being cut into tokens. -/
structure Cutter where
  /-- The tokens so far, last first. -/
  tokens : List Located
  line : Nat
  awaited : List Awaited
  documents : List Word

/-- Read the documents that begin after a line. -/
def readDocuments (nested : Nested) : List Awaited → List Char → List Word → Nat →
    Option (List Char × List Word × Nat)
  | [], s, documents, line => some (s, documents, line)
  | a :: rest, s, documents, line => do
    let (text, after) := readDocument a (s.length + 1) [] s
    let word ← documentWord nested a text
    let passed := s.count '\n' - after.count '\n'
    readDocuments nested rest after (documents ++ [word]) (line + passed)

/-- Cut a text into tokens. -/
def cutTokens (nested : Nested) : Nat → Cutter → List Char → Option Cutter
  | 0, _, _ => none
  | fuel + 1, k, s =>
    let go := cutTokens nested fuel
    let emit (token : Token) : Cutter := { k with tokens := (token, k.line) :: k.tokens }
    match s with
    | [] => some k
    | ' ' :: rest => go k rest
    | '\t' :: rest => go k rest
    | '\\' :: '\n' :: rest => go { k with line := k.line + 1 } rest
    | '#' :: rest => go k (rest.dropWhile (· ≠ '\n'))
    | '\n' :: rest => do
      let (rest, documents, line) ← readDocuments nested k.awaited rest k.documents (k.line + 1)
      go { emit .newline with line := line, awaited := [], documents := documents } rest
    | _ =>
      match operators.find? (·.toList.isPrefixOf s) with
      | some "<<" => heredoc go k false (s.drop 2)
      | some "<<-" => heredoc go k true (s.drop 3)
      | some op => go (emit (.operator op)) (s.drop op.length)
      | none => do
        let (word, rest) ← readWord nested s
        let number := ((plain? word).filter fun _ =>
          rest.head? = some '<' || rest.head? = some '>').bind fun t => Text.natural? t.toList
        let token := match number with
          | some n => Token.channel n
          | none => .word word
        let lines := (s.take (s.length - rest.length)).count '\n'
        go { emit token with line := k.line + lines } rest
where
  heredoc (go : Cutter → List Char → Option Cutter) (k : Cutter) (dropTabs : Bool) (s : List Char) :
      Option Cutter := do
    let (word, rest) ← readWord nested (s.dropWhile fun c => c == ' ' || c == '\t')
    let a : Awaited := ⟨bareText word, word.any isQuoted, dropTabs⟩
    let index := k.documents.length + k.awaited.length
    go { k with tokens := (.document index, k.line) :: k.tokens, awaited := k.awaited ++ [a] } rest

/-- The tokens of a script, and its documents. -/
def tokens? (nested : Nested) (s : List Char) : Option (List Located × List Word) := do
  let k ← cutTokens nested (s.length + 2) ⟨[], 1, [], []⟩ s
  return (k.tokens.reverse, k.documents)

end Workbench.Shell
