import Workbench.Asset.Error
import Workbench.Path

set_option autoImplicit false

/-! # Mounted assets

Some paths of the file system stand for assets kept elsewhere. A mount says which paths these are
and how their bytes are fetched. Fetching may change the world that holds the assets, so it passes
the world through; the type of worlds is the user's choice. -/

namespace Workbench.Asset

/-- Paths whose files are fetched when they are first touched. -/
structure Mount (World : Type) where
  /-- The textual roots below which assets lie. -/
  roots : List String
  /-- Fetch the asset under a key, which is the written form of its path. -/
  fetch : World → String → Except Error ByteArray × World

/-- Whether a path stands for an asset. -/
def Mount.covers {World : Type} (m : Mount World) (p : Path) : Bool := m.roots.any p.liesUnder

end Workbench.Asset
