import Workbench.Asset.Error
import Workbench.Url.Reader

set_option autoImplicit false

/-! # Assets on a site

A site serves assets below an address. A key that is a URL itself stands for that URL; any other is
looked for below the address, so that an address with a path keeps it. -/

namespace Workbench.Asset.Site

/-- The URL that a key stands for. -/
def resolve (base : Url) (key : String) : Except Error Url :=
  match Url.parse key with
  | .ok u => .ok u
  | .error _ =>
    (base.join (String.ofList (key.toList.dropWhile (· == '/')))).mapError fun _ => .invalidKey key

/-- Fetch the asset that a key stands for, given a way to download what a URL stands for: its bytes,
    or nothing if there is none, or the reason why that cannot be told. -/
def fetch (download : Url → Except String (Option ByteArray)) (base : Url) (key : String) :
    Except Error ByteArray := do
  match download (← resolve base key) with
  | .ok (some bytes) => return bytes
  | .ok none => throw (.notFound key)
  | .error reason => throw (.network key reason)

end Workbench.Asset.Site
