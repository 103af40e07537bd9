import Workbench.Url.Basic
import Workbench.Url.Host

set_option autoImplicit false

/-! # Reading URLs

Reading a URL, alone or as seen from another. A text with a scheme stands for itself, except that
one with the scheme of the base and no slashes is relative to it. In the schemes of the web a
backslash is a slash, any number of slashes may stand before the host, and a file may have a drive
letter, which is never left upwards. -/

namespace Workbench.Url

/-! ## Paths -/

/-- Whether a segment stands for the directory itself. -/
def isSingleDot (s : List Char) : Bool := [".", "%2e"].contains (String.ofList (s.map Char.toLower))

/-- Whether a segment stands for the directory above. -/
def isDoubleDot (s : List Char) : Bool :=
  ["..", ".%2e", "%2e.", "%2e%2e"].contains (String.ofList (s.map Char.toLower))

/-- Whether a text is a drive letter: a letter and a colon or bar. -/
def isDrive (s : List Char) : Bool :=
  match s with
  | [letter, mark] => letter.isAlpha && (mark == ':' || mark == '|')
  | _ => false

/-- Whether a text begins with a drive letter that ends there or before a slash, query or fragment.
    -/
def startsWithDrive (s : List Char) : Bool :=
  isDrive (s.take 2) && match s[2]? with
    | none => true
    | some c => c == '/' || c == '\\' || c == '?' || c == '#'

/-- Whether a segment is a drive letter with a colon. -/
def isNormalDrive (segment : String) : Bool :=
  isDrive segment.toList && segment.toList.getLast? = some ':'

/-- The segments of the directory above; the drive letter of a file stays. -/
def shorten (scheme : String) (segments : List String) : List String :=
  match segments with
  | [only] => if scheme = "file" && isNormalDrive only then segments else []
  | _ => segments.dropLast

/-- Go from some segments by one more. After the last a path that ends in dots ends in a slash. -/
def addSegment (scheme : String) (segments : List String) (s : List Char) (isLast : Bool) :
    List String :=
  let close (segments : List String) := if isLast then segments ++ [""] else segments
  if isDoubleDot s then close (shorten scheme segments)
  else if isSingleDot s then close segments
  else if scheme = "file" && segments.isEmpty && isDrive s then
    segments ++ [String.ofList (s.take 1 ++ [':'])]
  else segments ++ [encode pathSet s]

/-- Go from some segments along the pieces of a path. -/
def addSegments (scheme : String) (segments : List String) : List (List Char) → List String
  | [] => segments
  | [last] => addSegment scheme segments last true
  | s :: rest => addSegments scheme (addSegment scheme segments s false) rest

/-- Slashes for backslashes, where the scheme is one of the web. -/
def normalSlashes (scheme : String) (s : List Char) : List Char :=
  if isSpecial scheme then s.map fun c => if c = '\\' then '/' else c else s

/-- Whether a character ends a path. -/
def endsPath (c : Char) : Bool := c == '?' || c == '#'

/-! ## Queries and fragments -/

/-- Read a query and a fragment, which begin with their marks. -/
def readTail (u : Url) (s : List Char) : Url :=
  let (before, fragment) := match Text.cut? ['#'] s with
    | some (before, after) => (before, some (encode fragmentSet after))
    | none => (s, none)
  let set := if isSpecial u.scheme then specialQuerySet else querySet
  match before with
  | '?' :: query => { u with query := some (encode set query), fragment := fragment }
  | _ => { u with fragment := fragment }

/-- Read a path that goes on from some segments, and what follows it. -/
def readPath (u : Url) (segments : List String) (s : List Char) : Url :=
  let pieces := Text.splitOn '/' (normalSlashes u.scheme (s.takeWhile (!endsPath ·)))
  readTail { u with path := .segments (addSegments u.scheme segments pieces) }
    (s.dropWhile (!endsPath ·))

/-- Whether a text begins with a slash. -/
def startsWithSlash (scheme : String) (s : List Char) : Bool :=
  (normalSlashes scheme (s.take 1)).head? = some '/'

/-- Read what follows a host. -/
def readAfterHost (u : Url) (s : List Char) : Url :=
  if startsWithSlash u.scheme s then readPath u [] (s.drop 1)
  else if isSpecial u.scheme then readPath u [] s
  else readTail u s

/-! ## Hosts -/

/-- Read a port, without the colon before it. -/
def readPort (scheme : String) (s : List Char) : Except Error (Option Nat) :=
  if s.isEmpty then .ok none
  else if !s.all Char.isDigit then .error .port
  else
    match (ofDigits? 10 s).filter (· < 65536) with
    | some n => .ok (if (specialSchemes.lookup scheme).join = some n then none else some n)
    | none => .error .port

/-- Split a port off, which begins at the first colon outside of brackets. -/
def splitPort (inBrackets : Bool) (host : List Char) : List Char → List Char × Option (List Char)
  | [] => (host.reverse, none)
  | ':' :: rest =>
    if inBrackets then splitPort inBrackets (':' :: host) rest else (host.reverse, some rest)
  | c :: rest =>
    splitPort (if c = '[' then true else if c = ']' then false else inBrackets) (c :: host) rest

/-- Split the user name and password off, which end at the last `@`. -/
def splitUser (s : List Char) : Option (List Char) × List Char :=
  match Text.cut? ['@'] s.reverse with
  | some (host, user) => (some user.reverse, host.reverse)
  | none => (none, s)

/-- Read what follows the two slashes. -/
def readAuthority (u : Url) (s : List Char) : Except Error Url := do
  let isEnd (c : Char) : Bool := startsWithSlash u.scheme [c] || endsPath c
  let (user, rest) := splitUser (s.takeWhile (!isEnd ·))
  let (hostText, portText) := splitPort false [] rest
  if hostText.isEmpty && (isSpecial u.scheme || user.isSome || portText.isSome) then
    throw .emptyHost
  let host ← readHost (isSpecial u.scheme) hostText
  let port ← readPort u.scheme (portText.getD [])
  let (name, password) := match user with
    | none => ([], [])
    | some user => (Text.cut? [':'] user).getD (user, [])
  return readAfterHost
    { u with host := some host, port := port, user := encode userSet name,
             password := encode userSet password } (s.dropWhile (!isEnd ·))

/-! ## Files -/

/-- The segments of a URL. -/
def segments (u : Url) : List String :=
  match u.path with
  | .segments segments => segments
  | .opaqueText _ => []

/-- Read the host of a file, and what follows it. A drive letter is no host, and the local host is
    none. -/
def readFileHost (u : Url) (s : List Char) : Except Error Url := do
  let isEnd (c : Char) : Bool := c == '/' || c == '\\' || endsPath c
  let text := s.takeWhile (!isEnd ·)
  if isDrive text then return readPath { u with host := some "" } [] s
  else if text.isEmpty then return readAfterHost { u with host := some "" } s
  else
    let host ← readHost true text
    let host := if host = "localhost" then "" else host
    return readAfterHost { u with host := some host } (s.dropWhile (!isEnd ·))

/-- Read what follows the scheme of a file, as seen from another file if there is one. -/
def readFile (base : Option Url) (s : List Char) : Except Error Url :=
  let u := { ofScheme "file" with host := some "" }
  if startsWithSlash "file" s then
    let s := s.drop 1
    if startsWithSlash "file" s then readFileHost u (s.drop 1)
    else
      match base with
      | none => .ok (readPath u [] s)
      | some base =>
        let drive := base.segments.head?.filter fun first =>
          isNormalDrive first && !startsWithDrive s
        .ok (readPath { u with host := base.host } drive.toList s)
  else
    match base with
    | none => .ok (readPath u [] s)
    | some base =>
      let u := { u with host := base.host, path := base.path }
      match s with
      | [] => .ok { u with query := base.query }
      | '#' :: _ => .ok (readTail { u with query := base.query } s)
      | '?' :: _ => .ok (readTail u s)
      | _ =>
        if startsWithDrive s then .ok (readPath u [] s)
        else .ok (readPath u (shorten "file" base.segments) s)

/-! ## Whole texts -/

/-- Read a text without a scheme as seen from a base. -/
def readRelative (base : Url) (s : List Char) : Except Error Url :=
  let u := { base with fragment := none }
  if startsWithSlash base.scheme s then
    let rest := s.drop 1
    if startsWithSlash base.scheme rest then
      readAuthority (ofScheme base.scheme)
        (if isSpecial base.scheme then rest.dropWhile (startsWithSlash base.scheme [·])
          else rest.drop 1)
    else .ok (readPath { u with query := none } [] rest)
  else
    match s with
    | [] => .ok u
    | '#' :: _ => .ok (readTail u s)
    | '?' :: _ => .ok (readTail { u with query := none } s)
    | _ => .ok (readPath { u with query := none } (shorten base.scheme base.segments) s)

/-- Read what follows a scheme that is not that of a file. -/
def readScheme (base : Option Url) (scheme : String) (s : List Char) : Except Error Url :=
  if isSpecial scheme then
    match base.filter (·.scheme = scheme) with
    | some base =>
      if "//".toList.isPrefixOf s then
        readAuthority (ofScheme scheme) (s.dropWhile (startsWithSlash scheme [·]))
      else readRelative base s
    | none => readAuthority (ofScheme scheme) (s.dropWhile (startsWithSlash scheme [·]))
  else
    match s with
    | '/' :: '/' :: rest => readAuthority (ofScheme scheme) rest
    | '/' :: rest => .ok (readPath (ofScheme scheme) [] rest)
    | _ =>
      let text := encode controlSet (s.takeWhile (!endsPath ·))
      .ok (readTail { ofScheme scheme with path := .opaqueText text } (s.dropWhile (!endsPath ·)))

/-- The scheme that a text begins with, in lower case, and what follows its colon. -/
def scheme? (s : List Char) : Option (String × List Char) :=
  match s with
  | first :: _ =>
    let continues (c : Char) : Bool := c.isAlphanum || c == '+' || c == '-' || c == '.'
    match s.dropWhile continues with
    | ':' :: rest =>
      if first.isAlpha then some (String.ofList ((s.takeWhile continues).map Char.toLower), rest)
      else none
    | _ => none
  | [] => none

/-- A text without control characters and blanks at its ends and without tabs and line breaks. -/
def clean (text : String) : List Char :=
  let isEdge (c : Char) : Bool := c ≤ ' '
  (Text.dropEndWhile isEdge (text.toList.dropWhile isEdge)).filter fun c =>
    c ≠ '\t' ∧ c ≠ '\n' ∧ c ≠ '\r'

/-- Read a text as seen from a base. -/
def read (base : Option Url) (text : String) : Except Error Url :=
  let s := clean text
  match scheme? s, base with
  | some ("file", rest), _ => readFile (base.filter (·.scheme = "file")) rest
  | some (scheme, rest), _ => readScheme base scheme rest
  | none, none => .error .relative
  | none, some base =>
    match base.path with
    | .opaqueText _ =>
      if s.head? = some '#' then .ok (readTail { base with fragment := none } s)
      else .error .relativeToOpaque
    | .segments _ => if base.scheme = "file" then readFile (some base) s else readRelative base s

/-- Read a URL. -/
def parse (text : String) : Except Error Url := read none text

/-- Read a text as seen from a URL. -/
def join (base : Url) (text : String) : Except Error Url := read (some base) text

end Workbench.Url
