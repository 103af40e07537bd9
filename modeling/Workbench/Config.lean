import Workbench.Source.ImportConfig
import Workbench.Text.Decimal
import Workbench.Toml.Document

set_option autoImplicit false

/-! # Settings

What can be set about a workbench: the time a session may take, where it works, which paths are
fetched assets, and which packages the linker is told of. Settings are read from a TOML document, in
which every field may be missing and unknown ones are ignored, and changed by pairs of a field's
name and a value as text. -/

namespace Workbench

/-- The settings of a workbench. -/
structure Config where
  /-- The seconds that one session may take. -/
  timeoutSeconds : Nat
  /-- The directory that holds the source and what is built from it. -/
  workDir : String
  /-- The name of the source file in that directory. -/
  sourceFile : String
  /-- The textual roots below which paths stand for assets. -/
  assetRoots : List String
  manifestPath : String
  /-- The version of the assets; cached assets of another version are dropped. -/
  cacheVersion : String
  linkScope : LinkScope
  deriving DecidableEq, Repr, Inhabited

namespace Config

/-- The version of this program, which is also the version of the assets unless another is set. -/
def programVersion : String := "0.3.0"

/-- The name under which a directory holds its settings. -/
def fileName : String := "wasmplay.toml"

/-- The settings that hold where nothing is set. -/
def default : Config where
  timeoutSeconds := 30
  workDir := "/tmp"
  sourceFile := "main.go"
  assetRoots := ["/prebuilt/", "/toolchain/"]
  manifestPath := "/prebuilt/manifest.txt"
  cacheVersion := programVersion
  linkScope := .direct

/-! ## Paths of the work directory -/

/-- The path of a name in the work directory. -/
def workPath (c : Config) (name : String) : String :=
  String.ofList (Text.dropEndWhile (· == '/') c.workDir.toList) ++ "/" ++ name

/-- Where the source is. -/
def sourcePath (c : Config) : String := c.workPath c.sourceFile

/-- Where the import configuration for compiling is. -/
def compileConfigPath (c : Config) : String := c.workPath "importcfg"

/-- Where the import configuration for linking is. -/
def linkConfigPath (c : Config) : String := c.workPath "importcfg.link"

/-- Where the compiler puts the archive of the main package. -/
def mainArchivePath (c : Config) : String := c.workPath "main.a"

/-- Where the linker puts the module. -/
def modulePath (c : Config) : String := c.workPath "main.wasm"

/-! ## Setting fields by name -/

/-- Why a field cannot be set. -/
inductive SetError where
  | notANumber (field value : String)
  | notAScope (value : String)
  | unknownField (field : String)
  deriving DecidableEq, Repr, Inhabited

/-- The wording of a failure to set a field. -/
def SetError.message : SetError → String
  | .notANumber field value => "invalid u64 for '" ++ field ++ "': " ++ value
  | .notAScope value => "invalid link_scope: " ++ value ++ " (direct|closure)"
  | .unknownField field => "unknown config field: " ++ field

/-- The items of a list written with commas; blanks around them and empty ones are dropped. -/
def listItems (text : String) : List String :=
  (((Text.splitOn ',' text.toList).map Text.trim).filter (!·.isEmpty)).map String.ofList

/-- Set a field to the value that a text denotes. -/
def set (c : Config) (field value : String) : Except SetError Config :=
  match field with
  | "timeout_secs" =>
    match Text.word? 64 value.toList with
    | some n => .ok { c with timeoutSeconds := n }
    | none => .error (.notANumber field value)
  | "work_dir" => .ok { c with workDir := value }
  | "source_file" => .ok { c with sourceFile := value }
  | "manifest_path" => .ok { c with manifestPath := value }
  | "cache_version" => .ok { c with cacheVersion := value }
  | "asset_prefixes" => .ok { c with assetRoots := listItems value }
  | "link_scope" =>
    match LinkScope.ofName? value with
    | some scope => .ok { c with linkScope := scope }
    | none => .error (.notAScope value)
  | _ => .error (.unknownField field)

/-- Set fields one after the other. The first failure ends it; the fields set before it stay set. -/
def setAll (c : Config) : List (String × String) → Config × Option SetError
  | [] => (c, none)
  | (field, value) :: rest =>
    match c.set field value with
    | .ok c => c.setAll rest
    | .error e => (c, some e)

/-! ## Reading documents -/

/-- Read a field of a document, if it is there, with a reader for its value. -/
def readField {α : Type} (entries : Toml.Entries) (field : String) (fallback : α)
    (read : Toml.Node → Option α) : Option α :=
  match entries.lookup field with
  | none => some fallback
  | some node => read node

/-- A value that is a text. -/
def textOf? : Toml.Node → Option String
  | .string text => some text
  | _ => none

/-- A value that is an integer and not negative. -/
def naturalOf? : Toml.Node → Option Nat
  | .integer n => if 0 ≤ n then some n.toNat else none
  | _ => none

/-- A value that is an array of texts. -/
def textsOf? : Toml.Node → Option (List String)
  | .array items => items.mapM textOf?
  | _ => none

/-- The entries of a table, however it was written. -/
def tableOf? : Toml.Node → Option Toml.Entries
  | .inline entries => some entries
  | .table _ entries => some entries
  | _ => none

/-- A value that names a scope: a text, or a table with one empty entry under the name. The entry is
    an empty table, or where `arrays` allows it an empty array. -/
def scopeOf? (arrays : Bool) (node : Toml.Node) : Option LinkScope :=
  match node with
  | .string name => LinkScope.ofName? name
  | _ =>
    match tableOf? node with
    | some [(name, inner)] =>
      let isEmpty := match inner with
        | .array [] => arrays
        | _ => (tableOf? inner).any List.isEmpty
      if isEmpty then LinkScope.ofName? name else none
    | _ => none

/-- Read the settings from the entries of a document. -/
def ofEntries? (arrays : Bool) (entries : Toml.Entries) : Option Config := do
  let d := default
  return {
    timeoutSeconds := ← readField entries "timeout_secs" d.timeoutSeconds naturalOf?
    workDir := ← readField entries "work_dir" d.workDir textOf?
    sourceFile := ← readField entries "source_file" d.sourceFile textOf?
    assetRoots := ← readField entries "asset_prefixes" d.assetRoots textsOf?
    manifestPath := ← readField entries "manifest_path" d.manifestPath textOf?
    cacheVersion := ← readField entries "cache_version" d.cacheVersion textOf?
    linkScope := ← readField entries "link_scope" d.linkScope (scopeOf? arrays) }

/-- Read the settings from a document. -/
def ofToml? (text : String) : Option Config := do ofEntries? true (← Toml.parse? text)

end Config

end Workbench
