set_option autoImplicit false

/-! # URLs

The parts of a URL and its written form. A URL either has a path of segments, or what follows its
scheme is opaque. -/

namespace Workbench

/-- What follows the scheme and the host. -/
inductive Url.Path where
  | opaqueText (text : String)
  | segments (segments : List String)
  deriving DecidableEq, Repr, Inhabited

/-- A URL. -/
structure Url where
  scheme : String
  user : String
  password : String
  /-- The host in its written form, which may be empty. -/
  host : Option String
  /-- The port, if it is not the one of the scheme. -/
  port : Option Nat
  path : Url.Path
  query : Option String
  fragment : Option String
  deriving DecidableEq, Repr, Inhabited

namespace Url

/-- The schemes of the web, with their ports. -/
def specialSchemes : List (String × Option Nat) :=
  [("ftp", some 21), ("file", none), ("http", some 80), ("https", some 443), ("ws", some 80),
    ("wss", some 443)]

/-- Whether a scheme is one of the web. -/
def isSpecial (scheme : String) : Bool := (specialSchemes.lookup scheme).isSome

/-- The URL of a scheme and nothing else. -/
def ofScheme (scheme : String) : Url := ⟨scheme, "", "", none, none, .segments [], none, none⟩

/-- The user name and password before a host. -/
def credentials (u : Url) : String :=
  if u.user.isEmpty && u.password.isEmpty then ""
  else u.user ++ (if u.password.isEmpty then "" else ":" ++ u.password) ++ "@"

/-- What stands between the scheme and the path. -/
def authority (u : Url) : String :=
  match u.host, u.path with
  | some host, _ =>
    "//" ++ u.credentials ++ host ++ (match u.port with
      | some port => ":" ++ toString port
      | none => "")
  | none, .segments ("" :: _ :: _) => "/."
  | none, _ => ""

/-- The path. -/
def pathText (u : Url) : String :=
  match u.path with
  | .opaqueText text => text
  | .segments segments => String.join (segments.map ("/" ++ ·))

/-- The written form of a URL. -/
def toText (u : Url) : String :=
  u.scheme ++ ":" ++ u.authority ++ u.pathText ++
    ((u.query.map ("?" ++ ·)).getD "") ++ ((u.fragment.map ("#" ++ ·)).getD "")

end Url

end Workbench
