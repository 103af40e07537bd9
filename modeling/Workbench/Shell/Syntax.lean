set_option autoImplicit false

/-! # The syntax of shell scripts

Scripts of the POSIX shell as trees. A word is a list of pieces, each of which is a text, a
parameter, the output of a command or a number, and knows whether it stands in quotes. -/

namespace Workbench.Shell

/-- What a redirection does with the file that it names. -/
inductive Channel where
  | input
  | output
  | append
  /-- The number of another channel is named, and not a file. -/
  | duplicate
  /-- The text itself is the input. -/
  | document
  deriving DecidableEq, Repr, Inhabited

mutual

/-- A piece of a word. -/
inductive Piece where
  | text (text : String) (quoted : Bool)
  | parameter (name : String) (quoted : Bool)
  /-- The length of a parameter. -/
  | length (name : String)
  /-- A parameter with a word that stands in for it or is cut off from it. -/
  | modified (name operator : String) (word : List Piece) (quoted : Bool)
  /-- The output of a command. -/
  | output (body : Command) (quoted : Bool)
  /-- The value of an arithmetic expression. -/
  | number (expression : List Piece) (quoted : Bool)

/-- A redirection of a channel. -/
inductive Redirection where
  | to (number : Nat) (channel : Channel) (target : List Piece)

/-- A command. -/
inductive Command where
  /-- Assignments and words, with the number of the line where the command begins. -/
  | simple (line : Nat) (assignments : List (String × List Piece)) (words : List (List Piece))
      (redirections : List Redirection)
  | sequence (commands : List Command)
  | pipeline (commands : List Command)
  | negated (command : Command)
  /-- The second follows if the first succeeds. -/
  | both (first second : Command)
  /-- The second follows if the first fails. -/
  | either (first second : Command)
  | branch (condition yes no : Command)
  /-- The body is repeated while the condition succeeds, or fails where `inverted` is set. -/
  | loop (inverted : Bool) (condition body : Command)
  /-- The body is repeated for each of the words, or of the arguments where there are none. -/
  | each (name : String) (words : Option (List (List Piece))) (body : Command)
  | select (word : List Piece) (arms : List (List (List Piece) × Command))
  | subshell (body : Command)
  | redirected (line : Nat) (body : Command) (redirections : List Redirection)
  | define (name : String) (body : Command)

end

instance : Inhabited Piece := ⟨.text "" false⟩
instance : Inhabited Command := ⟨.sequence []⟩
instance : Inhabited Redirection := ⟨.to 0 .input []⟩

/-- A word of several pieces. -/
abbrev Word := List Piece

/-- The text of a word that has no quotes and no parameters. -/
def plain? : Word → Option String
  | [.text text false] => some text
  | _ => none

end Workbench.Shell
