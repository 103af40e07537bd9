set_option autoImplicit false

/-! # Patterns

Patterns of file names and of selections. A `*` stands for any text, a `?` for one character and a
set in brackets for one of its members, unless they are quoted. -/

namespace Workbench.Shell

/-- A character of a word, and whether it was quoted. -/
abbrev Marked := Char × Bool

/-- An element of a pattern. -/
inductive Glob where
  | char (c : Char)
  | one
  | many
  | set (inverted : Bool) (ranges : List (Char × Char))
  deriving DecidableEq, Repr, Inhabited

/-- The members of a set, up to its closing bracket, of which the first may be a bracket itself. -/
def readSet : Nat → Bool → List (Char × Char) → List Marked →
    Option (List (Char × Char) × List Marked)
  | 0, _, _, _ => none
  | fuel + 1, isFirst, out, s =>
    match s with
    | [] => none
    | (']', false) :: rest =>
      if isFirst then readSet fuel false ((']', ']') :: out) rest else some (out, rest)
    | (a, _) :: ('-', false) :: (b, q) :: rest =>
      if b = ']' && !q then readSet fuel false ((a, a) :: out) (('-', true) :: (b, q) :: rest)
      else readSet fuel false ((a, b) :: out) rest
    | (a, _) :: rest => readSet fuel false ((a, a) :: out) rest

/-- Read a pattern. A bracket that does not close stands for itself. -/
def readGlob : Nat → List Marked → List Glob
  | 0, _ => []
  | fuel + 1, s =>
    match s with
    | [] => []
    | ('*', false) :: rest => .many :: readGlob fuel rest
    | ('?', false) :: rest => .one :: readGlob fuel rest
    | ('[', false) :: rest =>
      let (inverted, members) := match rest with
        | ('!', false) :: more => (true, more)
        | ('^', false) :: more => (true, more)
        | _ => (false, rest)
      match readSet (rest.length + 1) true [] members with
      | some (ranges, after) => .set inverted ranges :: readGlob fuel after
      | none => .char '[' :: readGlob fuel rest
    | (c, _) :: rest => .char c :: readGlob fuel rest

/-- The pattern of a word. -/
def globOf (s : List Marked) : List Glob := readGlob (s.length + 1) s

/-- Whether a set has a character. -/
def inRanges (inverted : Bool) (ranges : List (Char × Char)) (c : Char) : Bool :=
  (ranges.any fun (a, b) => a ≤ c && c ≤ b) != inverted

/-- Whether a text matches a pattern. -/
def Glob.matches : List Glob → List Char → Bool
  | [], s => s.isEmpty
  | .many :: rest, [] => Glob.matches rest []
  | .many :: rest, c :: s => Glob.matches rest (c :: s) || Glob.matches (.many :: rest) s
  | .char a :: rest, c :: s => a == c && Glob.matches rest s
  | .one :: rest, _ :: s => Glob.matches rest s
  | .set inverted ranges :: rest, c :: s => inRanges inverted ranges c && Glob.matches rest s
  | _ :: _, [] => false
termination_by p s => p.length + s.length

/-- Whether a pattern stands for more than its own text. -/
def Glob.isOpen (p : List Glob) : Bool :=
  p.any fun
    | .char _ => false
    | _ => true

end Workbench.Shell
