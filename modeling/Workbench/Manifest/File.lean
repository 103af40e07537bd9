import Workbench.Host.Atomic
import Workbench.Manifest

set_option autoImplicit false

/-! # Manifests on the host

A manifest kept in a file to which bindings are appended. A file that is not there is a manifest
without bindings. -/

namespace Workbench.Manifest

/-- Read the manifest in a file. -/
def load (d : Host.Disk) (path : String) : Except Error Manifest :=
  match d.read path with
  | .ok bytes => ofBytes bytes
  | .error e => if e.kind = .notFound then .ok empty else .error (.host e)

/-- Append the binding of a package to the manifest in a file. -/
def append (path : String) (record : PackageRecord) : Host.Job Unit :=
  Host.Job.appendLine path record.line

end Workbench.Manifest
