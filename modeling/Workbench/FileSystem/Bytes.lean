set_option autoImplicit false

/-! # Changing the bytes of a file

Growing and cutting a byte string, and laying bytes over a part of it. -/

namespace Workbench.FileSystem

/-- So many zero bytes. -/
def zeros (n : Nat) : ByteArray := ⟨Array.replicate n 0⟩

/-- Cut or zero-fill to a length. -/
def resize (data : ByteArray) (length : Nat) : ByteArray :=
  if length ≤ data.size then data.extract 0 length else data ++ zeros (length - data.size)

/-- Lay bytes over those from `offset` on, growing the string where it is too short. -/
def overlay (data : ByteArray) (offset : Nat) (bytes : ByteArray) : ByteArray :=
  resize data offset ++ bytes ++ data.extract (offset + bytes.size) data.size

end Workbench.FileSystem
