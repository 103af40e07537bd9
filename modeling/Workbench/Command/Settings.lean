import Workbench.Config.File

set_option autoImplicit false

/-! # Settings of the command line

The settings of a workbench, and beside them where on the host it finds its assets and its tools and
where it leaves its frames. Both stand at the top level of one document. -/

namespace Workbench.Command

/-- The settings of the command line. -/
structure Settings where
  bench : Config
  /-- The directory or the address of the site that serves the assets. -/
  assetRoot : String
  /-- Where fetched assets are kept; without it they are kept in memory. -/
  cacheDir : Option String
  goBinary : String
  /-- Where frames are written. -/
  outDir : String
  deriving DecidableEq, Repr, Inhabited

namespace Settings

/-- The settings that hold where nothing is set. -/
def default : Settings := ⟨.default, "site", none, "go", "out"⟩

/-- Read the settings from the entries of a document. -/
def ofEntries? (entries : Toml.Entries) : Option Settings := do
  let d := default
  return {
    bench := ← Config.ofEntries? false entries
    assetRoot := ← Config.readField entries "asset_root" d.assetRoot Config.textOf?
    cacheDir := ← Config.readField entries "cache_dir" none fun v => (Config.textOf? v).map some
    goBinary := ← Config.readField entries "go_bin" d.goBinary Config.textOf?
    outDir := ← Config.readField entries "out_dir" d.outDir Config.textOf? }

/-- Read the settings from a document. -/
def ofToml? (text : String) : Option Settings := do ofEntries? (← Toml.parse? text)

/-- Why a file of settings cannot be used, as an error of the host. -/
def unreadable (path : String) (cause : Host.Error) : Host.Error :=
  .custom cause.kind ("failed to read config '" ++ path ++ "': " ++ cause.message)

/-- Read the settings in a file that was asked for, or else in the one that the working directory
    may hold. -/
def load (d : Host.Disk) (asked : Option String) : Except Host.Error Settings :=
  let path := asked.getD Config.fileName
  match d.readText path with
  | .ok text =>
    match ofToml? text with
    | some s => .ok s
    | none => .error (.custom .invalidData ("invalid config '" ++ path ++ "'"))
  | .error e =>
    if e.kind = .notFound && asked.isNone then .ok default else .error (unreadable path e)

/-- Set a field to the value that a text denotes. -/
def set (s : Settings) (field value : String) : Except Host.Error Settings :=
  match field with
  | "asset_root" => .ok { s with assetRoot := value }
  | "cache_dir" => .ok { s with cacheDir := some value }
  | "go_bin" => .ok { s with goBinary := value }
  | "out_dir" => .ok { s with outDir := value }
  | _ =>
    match s.bench.set field value with
    | .ok bench => .ok { s with bench := bench }
    | .error e => .error (.custom .invalidInput e.message)

/-- Set fields one after the other. The first failure ends it; the fields set before it stay set. -/
def setAll (s : Settings) : List (String × String) → Settings × Option Host.Error
  | [] => (s, none)
  | (field, value) :: rest =>
    match s.set field value with
    | .ok s => s.setAll rest
    | .error e => (s, some e)

/-- Whether the assets are on a site and not in a directory. -/
def isRemote (s : Settings) : Bool :=
  ["http://", "https://"].any fun scheme => scheme.toList.isPrefixOf s.assetRoot.toList

end Settings

end Workbench.Command
