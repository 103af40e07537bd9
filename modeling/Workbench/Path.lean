import Workbench.Text.Split

set_option autoImplicit false

/-! # Absolute paths

A path of the in-memory file system: the list of its components from the root down, and whether it
was spelled as a directory. Reading a path scans the pieces between slashes onto a stack: an empty
piece and `.` do nothing, `..` takes the last component away, anything else is pushed. So a path
never holds an empty component, `.`, `..` or a slash, and `..` at the root stays there. A path
carries the proof of that. -/

namespace Workbench

/-- Why a text is not a path. -/
inductive PathError where
  | empty
  | notAbsolute (text : String)
  | nulByte
  | absoluteSegment (segment : String)
  deriving DecidableEq, Repr

/-- The wording of a path error. -/
def PathError.message : PathError → String
  | .empty => "path cannot be empty"
  | .notAbsolute text => "path must start with '/': " ++ text
  | .nulByte => "path cannot contain null bytes"
  | .absoluteSegment segment => "join segment must be relative: " ++ segment

/-- Whether a text can be a component of a path: it is not empty, it stands neither for the
    directory it is in nor for the one above, and it holds no slash and no null. -/
def Path.isComponent (text : String) : Bool :=
  text ≠ "" && text ≠ "." && text ≠ ".." && !text.toList.contains '/' &&
    !text.toList.contains '\x00'

/-- A normal absolute path. -/
@[ext]
structure Path where
  /-- The components, outermost first. -/
  parts : List String
  /-- Whether the path was spelled as a directory; the root always is. -/
  trailing : Bool
  proper : ∀ part ∈ parts, Path.isComponent part = true
  rootTrails : parts = [] → trailing = true
  deriving DecidableEq, Repr

namespace Path

/-- The root directory. -/
def root : Path := ⟨[], true, nofun, fun _ => rfl⟩

instance : Inhabited Path := ⟨root⟩

/-- Whether the path is the root. -/
def isRoot (p : Path) : Bool := p.parts.isEmpty

/-- The written form: a slash before each component, and a lone slash for the root. -/
def toString (p : Path) : String := "/" ++ "/".intercalate p.parts

instance : ToString Path := ⟨toString⟩

/-- The key under which a file at the path is kept. -/
def fileKey (p : Path) : String := p.toString

/-- The key under which a directory at the path is kept: the written form, ended by a slash. -/
def dirKey (p : Path) : String := if p.isRoot then "/" else p.toString ++ "/"

/-- The effect of one piece on the components read so far. -/
def enter (stack : List String) (piece : String) : List String :=
  if piece = "" ∨ piece = "." then stack
  else if piece = ".." then stack.dropLast
  else stack ++ [piece]

/-- The pieces of a text between slashes. -/
def pieces (text : String) : List String := (Text.splitOn '/' text.toList).map String.ofList

/-- Whether a text with these pieces spells a directory. -/
def spellsDirectory (pieces : List String) : Bool :=
  match pieces.getLast? with
  | none => true
  | some last => last = "" || last = "." || last = ".."

/-- A piece of a text without nulls holds neither a slash nor a null. -/
theorem clean_of_mem_pieces {text piece : String} (nul : ¬ text.toList.contains '\x00' = true)
    (h : piece ∈ pieces text) : '/' ∉ piece.toList ∧ '\x00' ∉ piece.toList := by
  obtain ⟨chars, hchars, rfl⟩ := List.mem_map.1 h
  rw [String.toList_ofList]
  constructor
  · intro hc
    exact (Text.mem_of_mem_splitOn hchars _ hc).2 rfl
  · intro hc
    exact nul (List.contains_iff_mem.2 (Text.mem_of_mem_splitOn hchars _ hc).1)

/-- What a clean piece leaves on a stack of components are components. -/
theorem enter_proper {stack : List String} {piece : String}
    (hstack : ∀ part ∈ stack, isComponent part = true)
    (hpiece : '/' ∉ piece.toList ∧ '\x00' ∉ piece.toList) :
    ∀ part ∈ enter stack piece, isComponent part = true := by
  intro part hpart
  unfold enter at hpart
  split at hpart
  · exact hstack part hpart
  · split at hpart
    · exact hstack part ((List.dropLast_subset stack) hpart)
    · rcases List.mem_append.1 hpart with h | h
      · exact hstack part h
      · rw [List.mem_singleton.1 h]
        simp_all [isComponent]

/-- Walking over clean pieces keeps to components. -/
theorem foldl_enter_proper (pieces : List String) {stack : List String}
    (hstack : ∀ part ∈ stack, isComponent part = true)
    (hpieces : ∀ piece ∈ pieces, '/' ∉ piece.toList ∧ '\x00' ∉ piece.toList) :
    ∀ part ∈ pieces.foldl enter stack, isComponent part = true := by
  induction pieces generalizing stack with
  | nil => exact hstack
  | cons piece rest ih =>
    exact ih (enter_proper hstack (hpieces piece List.mem_cons_self))
      fun p hp => hpieces p (List.mem_cons_of_mem piece hp)

/-- Scan a text from the directory `start`. -/
def scan (start : Path) (text : String) : Except PathError Path :=
  if nul : text.toList.contains '\x00' then .error .nulByte
  else
    .ok {
      parts := (pieces text).foldl enter start.parts
      trailing := spellsDirectory (pieces text) || ((pieces text).foldl enter start.parts).isEmpty
      proper := foldl_enter_proper _ start.proper fun _ h => clean_of_mem_pieces nul h
      rootTrails := fun h => by simp [h] }

/-- Whether a text begins with a slash. -/
def isAbsolute (text : String) : Bool := text.toList.head? = some '/'

/-- Read an absolute path. -/
def parse (text : String) : Except PathError Path :=
  if text = "" then .error .empty
  else if isAbsolute text then scan root text
  else .error (.notAbsolute text)

/-- Read a path as seen from the directory `cwd`; an absolute one ignores it. -/
def resolve (cwd : Path) (text : String) : Except PathError Path :=
  if text = "" then .error .empty
  else if isAbsolute text then scan root text
  else scan cwd text

/-- The path of the first `n` components, as a directory. -/
def above (p : Path) (n : Nat) : Path where
  parts := p.parts.take n
  trailing := true
  proper := fun part h => p.proper part (List.mem_of_mem_take h)
  rootTrails := fun _ => rfl

/-- The directory that holds the path; the root has none. -/
def parent? (p : Path) : Option Path :=
  if p.isRoot then none else some (p.above (p.parts.length - 1))

/-- The last component; the root has none. -/
def fileName? (p : Path) : Option String := p.parts.getLast?

/-- The path of a segment below this path. -/
def join (p : Path) (segment : String) : Except PathError Path :=
  if isAbsolute segment then .error (.absoluteSegment segment) else p.resolve segment

/-- The directories above the path, root first. -/
def ancestors (p : Path) : List Path := (List.range p.parts.length).map p.above

/-- Whether the written form lies under a textual root. A root that ends in a slash stands for that
    directory and what is inside it; any other root is compared as a text. -/
def liesUnder (p : Path) (root : String) : Bool :=
  let text := p.toString.toList
  root.toList.isPrefixOf text ||
    match Text.stripEnd? ['/'] root.toList with
    | some dir => !dir.isEmpty && text == dir
    | none => false

end Path

end Workbench
