import Workbench.Manifest
import Workbench.Source.Imports

set_option autoImplicit false

/-! # Import configurations

The compiler and the linker are told where the archives of packages are by a text of lines
`packagefile <import path>=<archive>`. The configuration for compiling binds those imports of the
source that the manifest knows; the one for linking binds the main package to the archive that was
just compiled, and then either the same imports or every package of the manifest. -/

namespace Workbench

/-- Which packages the linker is told of. -/
inductive LinkScope where
  /-- The imports of the source. -/
  | direct
  /-- Every package of the manifest. -/
  | closure
  deriving DecidableEq, Repr, Inhabited

/-- The name of a scope. -/
def LinkScope.name : LinkScope → String
  | .direct => "direct"
  | .closure => "closure"

/-- The scope with a name. -/
def LinkScope.ofName? (name : String) : Option LinkScope :=
  [LinkScope.direct, .closure].find? (·.name == name)

/-- The import path under which loose files are compiled. -/
def mainPackage : String := "command-line-arguments"

/-- Bindings of import paths to archives, in the order of their lines. -/
structure ImportConfig where
  entries : List (String × String)
  deriving DecidableEq, Repr, Inhabited

namespace ImportConfig

/-- What begins a line that binds a package. -/
def directive : String := "packagefile "

/-- The configuration for compiling a source with these imports. -/
def compile (imports : List String) (m : Manifest) : ImportConfig :=
  ⟨imports.filterMap fun i => (m.get? i).map fun archive => (i, archive)⟩

/-- The configuration for linking a source with these imports. -/
def link (imports : List String) (m : Manifest) (mainArchive : String) (scope : LinkScope) :
    ImportConfig :=
  ⟨(mainPackage, mainArchive) :: match scope with
    | .direct => (compile imports m).entries
    | .closure => m.entries⟩

/-- The binding that a line holds; lines of any other form hold none. -/
def binding? (line : List Char) : Option (String × String) := do
  let rest ← Text.strip? directive.toList (Text.trim line)
  let (source, archive) ← Text.cut? ['='] rest
  let source := Text.trim source
  let archive := Text.trim archive
  if source.isEmpty || archive.isEmpty then none
  else some (String.ofList source, String.ofList archive)

/-- Read a configuration. -/
def parse (text : String) : ImportConfig := ⟨(Text.linesOf text).filterMap binding?⟩

/-- The text of a configuration. -/
def toText (c : ImportConfig) : String :=
  String.join (c.entries.map fun (source, archive) => directive ++ source ++ "=" ++ archive ++ "\n")

/-- Change every archive, keeping the import paths. -/
def mapArchives (c : ImportConfig) (f : String → String) : ImportConfig :=
  ⟨c.entries.map fun (source, archive) => (source, f archive)⟩

/-- The text of the configuration for compiling a source. -/
def forSource (source : String) (m : Manifest) : String :=
  (compile (Source.imports source) m).toText

end ImportConfig

end Workbench
