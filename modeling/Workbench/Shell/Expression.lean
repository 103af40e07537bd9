import Workbench.Shell.Pattern
import Workbench.Text.Split

set_option autoImplicit false

/-! # Replacing by regular expressions

The basic regular expressions of stream editing, without groups: characters, a dot, sets, repetition
by `*`, and the anchors at the ends. A substitution replaces the first match in a line, or every
one. -/

namespace Workbench.Shell

/-- A part of an expression, and whether it is repeated. -/
structure Atom where
  glob : Glob
  repeated : Bool
  deriving DecidableEq, Repr, Inhabited

/-- An expression. -/
structure Expression where
  atStart : Bool
  atoms : List Atom
  atEnd : Bool
  deriving DecidableEq, Repr, Inhabited

/-- Read the parts of an expression. -/
def readAtoms : Nat → List Char → List Atom
  | 0, _ => []
  | fuel + 1, s =>
    let item : Option (Glob × List Char) := match s with
      | [] => none
      | '\\' :: 'n' :: rest => some (.char '\n', rest)
      | '\\' :: 't' :: rest => some (.char '\t', rest)
      | '\\' :: c :: rest => some (.char c, rest)
      | '.' :: rest => some (.one, rest)
      | '[' :: rest =>
        let (inverted, members) := match rest with
          | '^' :: more => (true, more)
          | _ => (false, rest)
        match readSet (rest.length + 1) true [] (members.map (·, false)) with
        | some (ranges, after) => some (.set inverted ranges, after.map Prod.fst)
        | none => some (.char '[', rest)
      | c :: rest => some (.char c, rest)
    match item with
    | none => []
    | some (glob, '*' :: rest) => ⟨glob, true⟩ :: readAtoms fuel rest
    | some (glob, rest) => ⟨glob, false⟩ :: readAtoms fuel rest

/-- Read an expression. -/
def Expression.ofText (s : List Char) : Expression :=
  let (atStart, s) := match s with
    | '^' :: rest => (true, rest)
    | _ => (false, s)
  let (atEnd, s) := match s.reverse with
    | '$' :: '\\' :: _ => (false, s)
    | '$' :: rest => (true, rest.reverse)
    | _ => (false, s)
  ⟨atStart, readAtoms (s.length + 1) s, atEnd⟩

/-- Whether a part of an expression stands for a character. -/
def Glob.accepts (g : Glob) (c : Char) : Bool :=
  match g with
  | .char a => a == c
  | .one => true
  | .many => true
  | .set inverted ranges => inRanges inverted ranges c

/-- The length of the match of parts at the start of a text; repetitions take as much as they can.
    -/
def matchAtoms (atEnd : Bool) : List Atom → List Char → Option Nat
  | [], s => if atEnd && !s.isEmpty then none else some 0
  | a :: rest, s =>
    if a.repeated then
      let most := (s.takeWhile a.glob.accepts).length
      ((List.range (most + 1)).reverse.findSome? fun n =>
        (matchAtoms atEnd rest (s.drop n)).map (n + ·))
    else
      match s with
      | [] => none
      | c :: s => if a.glob.accepts c then (matchAtoms atEnd rest s).map (1 + ·) else none

/-- A substitution. -/
structure Substitution where
  expression : Expression
  replacement : List Char
  everywhere : Bool
  deriving DecidableEq, Repr, Inhabited

/-- The text that takes the place of a match, in which `&` stands for the match. -/
def replaceMatch (found : List Char) : List Char → List Char
  | [] => []
  | '\\' :: 'n' :: rest => '\n' :: replaceMatch found rest
  | '\\' :: c :: rest => c :: replaceMatch found rest
  | '&' :: rest => found ++ replaceMatch found rest
  | c :: rest => c :: replaceMatch found rest

/-- Substitute in a line. `isStart` says whether the text is the whole line. An empty match right
    after another match does not count. -/
def Substitution.apply (u : Substitution) : Nat → Bool → Bool → List Char → List Char
  | 0, _, _, s => s
  | fuel + 1, isStart, afterMatch, s =>
    let e := u.expression
    let found := if e.atStart && !isStart then none else matchAtoms e.atEnd e.atoms s
    match found, s with
    | some 0, [] => if afterMatch then [] else replaceMatch [] u.replacement
    | some 0, c :: rest =>
      let here := if afterMatch then [] else replaceMatch [] u.replacement
      if u.everywhere || afterMatch then here ++ c :: u.apply fuel false false rest
      else here ++ s
    | some n, _ =>
      let here := replaceMatch (s.take n) u.replacement
      if u.everywhere then here ++ u.apply fuel false true (s.drop n) else here ++ s.drop n
    | none, [] => []
    | none, c :: rest => c :: u.apply fuel false false rest

/-- Substitute in a line. -/
def Substitution.line (u : Substitution) (s : List Char) : List Char :=
  u.apply (s.length + 2) true false s

/-- Split a text at a mark that is not escaped. -/
def cutAtMark (mark : Char) (out : List Char) : List Char → Option (List Char × List Char)
  | [] => none
  | '\\' :: c :: rest =>
    cutAtMark mark (if c = mark then c :: out else c :: '\\' :: out) rest
  | c :: rest => if c = mark then some (out.reverse, rest) else cutAtMark mark (c :: out) rest

/-- Read a script of substitutions, with semicolons between them. -/
def readSubstitutions : Nat → List Char → Option (List Substitution)
  | 0, _ => none
  | fuel + 1, s =>
    match s.dropWhile fun c => c == ' ' || c == ';' || c == '\n' with
    | [] => some []
    | 's' :: mark :: rest => do
      let (expression, rest) ← cutAtMark mark [] rest
      let (replacement, rest) ← cutAtMark mark [] rest
      let flags := rest.takeWhile fun c => c ≠ ';' ∧ c ≠ '\n'
      if !flags.all (fun c => c == 'g' || c == ' ') then none
      let more ← readSubstitutions fuel (rest.drop flags.length)
      return ⟨.ofText expression, replacement, flags.contains 'g'⟩ :: more
    | _ => none

/-- Edit the lines of a text; a last line without an end stays so. -/
def editLines (us : List Substitution) (s : List Char) : List Char :=
  let edit (line : List Char) : List Char := us.foldl (fun line u => u.line line) line
  let pieces := Text.splitOn '\n' s
  let last := pieces.getLast?.getD []
  pieces.dropLast.flatMap (fun line => edit line ++ ['\n']) ++
    (if last.isEmpty then [] else edit last)

end Workbench.Shell
