import Workbench.Host.Directory
import Workbench.Part
import Workbench.Session.Frame

set_option autoImplicit false

/-! # Frames as pages

A frame written to the host as a page that a browser can open: the module, the loader, and a
document that brings them together with the runtime support script. Nothing runs the page here, so
both reports of the frame arrive as soon as it is written. -/

namespace Workbench.Frame

/-- The name of the module beside the page. -/
def moduleFile : String := "main.wasm"

/-- The document of the page. -/
def document : String := String.join <| List.map (· ++ "\n")
  ["<!doctype html>",
   "<html>",
   "<head><meta charset=\"utf-8\"></head>",
   "<body>",
   "<script src=\"wasm_exec.js\"></script>",
   "<script>const MODULE_URL = \"" ++ moduleFile ++ "\";</script>",
   "<script src=\"bootstrap.js\"></script>",
   "</body>",
   "</html>"]

/-- The directory of the frame among the output. -/
def pageDir (outDir : String) : String := Host.Location.join outDir "frame"

/-- Write a page in place of the one before it. `support` is the runtime support script, which has
    to be copied in by hand where it is not known. -/
def writePage (dir : String) (support : Option String) (module : ByteArray) (loader : String) :
    ExceptT Error (StateM Host.Disk) Unit := do
  let onDisk (wrap : Host.Error → Error) (job : Host.Job Unit) :
      ExceptT Error (StateM Host.Disk) Unit := do
    let (result, d) := job.run (← get)
    set d
    match result with
    | .ok () => return
    | .error e => throw (wrap e)
  let file (name : String) := Host.Location.join dir name
  onDisk .host (Host.Job.allow .notFound (Host.Job.removeTree dir))
  onDisk (fun e => .create (dir ++ ": " ++ e.message)) (Host.Job.makeDirs dir)
  onDisk .host (Host.Job.write (file moduleFile) module)
  onDisk .host (Host.Job.write (file "bootstrap.js") loader.toUTF8)
  onDisk .host (Host.Job.write (file "index.html") document.toUTF8)
  if let some script := support then
    onDisk .host (Host.Job.copy script (file "wasm_exec.js"))

/-- Frames written below a directory of the disk that a world holds. -/
def pageHost {World : Type} (disk : Part World Host.Disk) (outDir : String)
    (support : Option String) : FrameHost World where
  create := fun module loader w =>
    let (result, w) := disk.run (writePage (pageDir outDir) support module loader).run w
    (result.map fun () => .complete, w)

end Workbench.Frame
