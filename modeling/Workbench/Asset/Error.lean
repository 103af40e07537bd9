import Workbench.Host.Error

set_option autoImplicit false

/-! # Errors of the asset store

Why the bytes of an asset cannot be had. -/

namespace Workbench.Asset

/-- Why the bytes of an asset cannot be had. -/
inductive Error where
  | notReconciled
  | network (key reason : String)
  | notFound (key : String)
  | store (cause : Host.Error)
  | invalidKey (key : String)
  deriving DecidableEq, Repr, Inhabited

/-- The wording of an asset error. -/
def Error.message : Error → String
  | .notReconciled => "asset cache used before its version was reconciled"
  | .network key reason => "network read of '" ++ key ++ "' failed: " ++ reason
  | .notFound key => "asset '" ++ key ++ "' does not exist"
  | .store cause => "cache store unavailable: " ++ cause.message
  | .invalidKey key => "invalid cache key '" ++ key ++ "'"

end Workbench.Asset
