import Workbench.Host.Error
import Workbench.Text.Split
import Workbench.Text.Utf8

set_option autoImplicit false

/-! # The package manifest

A manifest binds the import path of a package to the place where its archive is stored. Its text is
a log with one line per binding, `<import path> -> <stored path>`; reading it folds the lines in
order, so the last binding of an import path holds, in the place of its first. -/

namespace Workbench

/-- A package with the place of its archive and the packages it depends on. -/
structure PackageRecord where
  importPath : String
  storedPath : String
  deps : List String
  deriving DecidableEq, Repr, Inhabited

/-- The bindings of a manifest, by first appearance. -/
structure Manifest where
  entries : List (String × String)
  deriving DecidableEq, Repr, Inhabited

namespace Manifest

/-- Why a manifest cannot be read. -/
inductive Error where
  | malformed (line : Nat) (content : String)
  | encoding
  | host (cause : Host.Error)
  deriving DecidableEq, Repr, Inhabited

/-- The wording of a manifest error. -/
def Error.message : Error → String
  | .malformed line content =>
    "malformed manifest line " ++ toString line ++ ": '" ++ content ++ "'"
  | .encoding => "manifest is not valid UTF-8"
  | .host cause => "failed to read manifest: " ++ cause.message

/-- What stands between the two columns of a line. -/
def arrow : String := " -> "

/-- The line that binds an import path. -/
def line (importPath storedPath : String) : String := importPath ++ arrow ++ storedPath

/-- The manifest without bindings. -/
def empty : Manifest := ⟨[]⟩

/-- Bind a name in a list of bindings: a bound name keeps its place, a new one is added at the end.
    -/
def bind (name value : String) : List (String × String) → List (String × String)
  | [] => [(name, value)]
  | (n, v) :: rest => if n = name then (n, value) :: rest else (n, v) :: bind name value rest

/-- Bind an import path to a stored path. -/
def insert (m : Manifest) (importPath storedPath : String) : Manifest :=
  ⟨bind importPath storedPath m.entries⟩

/-- The stored path of an import path. -/
def get? (m : Manifest) (importPath : String) : Option String := m.entries.lookup importPath

/-- Whether an import path is bound. -/
def contains (m : Manifest) (importPath : String) : Bool := (m.get? importPath).isSome

/-- The two columns of a line that is not blank. -/
def columns? (line : List Char) : Option (String × String) :=
  match Text.cut? arrow.toList line with
  | none => none
  | some (source, stored) =>
    let source := Text.trim source
    let stored := Text.trim stored
    if source.isEmpty || stored.isEmpty then none
    else some (String.ofList source, String.ofList stored)

/-- Fold the lines from the `number`-th on into a manifest. -/
def readLines (m : Manifest) (number : Nat) : List (List Char) → Except Error Manifest
  | [] => .ok m
  | raw :: rest =>
    let line := Text.trim raw
    if line.isEmpty then readLines m (number + 1) rest
    else
      match columns? line with
      | none => .error (.malformed number (String.ofList line))
      | some (source, stored) => readLines (m.insert source stored) (number + 1) rest

/-- Read the text of a manifest. -/
def parse (text : String) : Except Error Manifest := readLines empty 1 (Text.linesOf text)

/-- Read the bytes of a manifest. -/
def ofBytes (bytes : ByteArray) : Except Error Manifest :=
  match Text.ofUtf8? bytes with
  | some text => parse text
  | none => .error .encoding

/-- The text of a manifest. -/
def toText (m : Manifest) : String :=
  String.join (m.entries.map fun (source, stored) => line source stored ++ "\n")

/-- Whether two manifests bind the same import paths to the same stored paths, in any order. -/
def sameBindings (m n : Manifest) : Bool :=
  m.entries.length == n.entries.length &&
    m.entries.all fun (source, stored) => n.get? source == some stored

end Manifest

/-- The manifest line of a package. -/
def PackageRecord.line (r : PackageRecord) : String := Manifest.line r.importPath r.storedPath

end Workbench
