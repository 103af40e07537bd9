import Workbench.Asset.Cache
import Workbench.Host.Atomic
import Workbench.Json.Reader
import Workbench.Sha256

set_option autoImplicit false

/-! # Assets in directories

Storage of assets in a directory of the host: the bytes under a key are in a file named by the
digest of the key, and beside it a note tells the key, the size and the time. And a source of assets
that are files below a directory, which no key leaves upwards. -/

namespace Workbench.Asset.Folder

open Host (Disk Job Location)

/-! ## Storage -/

/-- What is noted about stored bytes. -/
structure Note where
  key : String
  size : Nat
  /-- When the bytes were stored, in seconds since the epoch. -/
  storedAt : Nat
  deriving DecidableEq, Repr, Inhabited

/-- The note as JSON. -/
def Note.toJson (n : Note) : JsonValue :=
  .object [("key", .string n.key), ("size_bytes", .number (toString n.size)),
    ("stored_at", .number (toString n.storedAt))]

/-- The note that JSON denotes: an object with the three fields, or an array of their values. -/
def Note.ofJson? (v : JsonValue) : Option Note := do
  let (key, size, storedAt) ← match v with
    | .object entries =>
      let field (name : String) := JsonValue.field? name entries
      pure ((← field "key"), (← field "size_bytes"), (← field "stored_at"))
    | .array [key, size, storedAt] => pure (key, size, storedAt)
    | _ => none
  return ⟨← key.textOf?, ← size.wordOf? 64, ← storedAt.wordOf? 64⟩

/-- The file that holds the bytes under a key. -/
def blobPath (root key : String) : String := Location.join root (Sha256.ofText key ++ ".bin")

/-- The file that holds the note about a key. -/
def notePath (root key : String) : String := Location.join root (Sha256.ofText key ++ ".meta.json")

/-- Make the directory ready for storage. -/
def prepare (root : String) : Job Unit := Job.makeDirs root

/-- Store bytes and their note. -/
def save (root : String) (time : Nat) (key : String) (bytes : ByteArray) : Job Unit := do
  Job.replaceFile (blobPath root key) bytes
  Job.replaceFile (notePath root key) (Note.toJson ⟨key, bytes.size, time⟩).toText.toUTF8

/-- Remove bytes and their note; that they are not there is no failure. -/
def remove (root key : String) : Job Unit := do
  Job.allow .notFound (Job.change (·.unlink (blobPath root key)))
  Job.allow .notFound (Job.change (·.unlink (notePath root key)))

/-- Empty the directory. -/
def clear (root : String) : Job Unit := do
  Job.allow .notFound (Job.removeTree root)
  Job.makeDirs root

/-- The outcome of a job as that of a request to a store. -/
def outcome {α : Type} (result : Except Host.Error α × Disk) : Except Error α × Disk :=
  (result.1.mapError .store, result.2)

/-- The bytes under a key. -/
def load (root key : String) (d : Disk) : Except Error (Option ByteArray) :=
  match d.read (blobPath root key) with
  | .ok bytes => .ok (some bytes)
  | .error e => if e.kind = .notFound then .ok none else .error (.store e)

/-- Storage in a directory at a time. -/
def store (root : String) (time : Nat) : Store Disk where
  get := fun d key => (load root key d, d)
  put := fun d key bytes => outcome ((save root time key bytes).run d)
  remove := fun d key => outcome ((remove root key).run d)
  clear := fun d => outcome ((clear root).run d)

/-- The note about a key, if there is one that can be read. -/
def note? (root key : String) (d : Disk) : Option Note := do
  let bytes ← (d.read (notePath root key)).toOption
  Note.ofJson? (← JsonValue.ofText? (← Text.ofUtf8? bytes))

/-! ## Files as assets -/

/-- The path of the file that a key stands for: the key below the root. A key with a `..` between
    its slashes stands for none, nor does one of slashes alone. -/
def filePath? (root key : String) : Option String :=
  let relative := key.toList.dropWhile (· == '/')
  if relative.isEmpty || (Text.splitOn '/' relative).contains ['.', '.'] then none
  else some (Location.join root (String.ofList relative))

/-- Fetch the file below the root that a key stands for. -/
def fetch (root : String) (d : Disk) (key : String) : Except Error ByteArray :=
  match filePath? root key with
  | none => .error (.invalidKey key)
  | some path =>
    match d.read path with
    | .ok bytes => .ok bytes
    | .error e =>
      if e.kind = .notFound then .error (.notFound key)
      else .error (.network key ("failed to read '" ++ path ++ "': " ++ e.message))

/-- The files below the root as a source of assets. -/
def source (root : String) (d : Disk) (key : String) : Except Error ByteArray × Disk :=
  (fetch root d key, d)

end Workbench.Asset.Folder
