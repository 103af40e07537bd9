import Workbench.Text.Split
import Workbench.Url.Percent
import Workbench.Url.Punycode

set_option autoImplicit false

/-! # Hosts of URLs

A host is a domain name, an address of four or of sixteen bytes, or, outside of the schemes of the
web, any text. It is kept in its canonical written form. -/

namespace Workbench.Url

/-- Why a text is not a URL. -/
inductive Error where
  | emptyHost
  | domain
  | port
  | ipv4
  | ipv6
  | hostCharacter
  | relative
  | relativeToOpaque
  deriving DecidableEq, Repr, Inhabited

/-- The wording of an error. -/
def Error.message : Error → String
  | .emptyHost => "empty host"
  | .domain => "invalid international domain name"
  | .port => "invalid port number"
  | .ipv4 => "invalid IPv4 address"
  | .ipv6 => "invalid IPv6 address"
  | .hostCharacter => "invalid domain character"
  | .relative => "relative URL without a base"
  | .relativeToOpaque => "relative URL with a cannot-be-a-base base"

/-! ## Addresses of four bytes -/

/-- The number that digits of a base denote; no digits denote zero. -/
def ofDigits? (base : Nat) (s : List Char) : Option Nat :=
  s.foldlM (fun n c => ((hexValue? c).filter (· < base)).map (base * n + ·)) 0

/-- Read a part of an address, which is decimal, octal after a zero, or hexadecimal after `0x`. -/
def addressPart? (s : List Char) : Option Nat :=
  match s with
  | [] => none
  | '0' :: 'x' :: rest => ofDigits? 16 rest
  | '0' :: 'X' :: rest => ofDigits? 16 rest
  | '0' :: c :: rest => ofDigits? 8 (c :: rest)
  | _ => ofDigits? 10 s

/-- The parts of a name between dots, where a dot at the end does not count. -/
def dottedParts (s : List Char) : List (List Char) :=
  let parts := Text.splitOn '.' s
  if parts.length > 1 && parts.getLast? = some [] then parts.dropLast else parts

/-- Whether the last part of a name is a number, so that the name can only be an address. -/
def endsInNumber (s : List Char) : Bool :=
  match (dottedParts s).getLast? with
  | none => false
  | some last =>
    (!last.isEmpty && last.all Char.isDigit) ||
      (["0x".toList, "0X".toList].any (·.isPrefixOf last) && (addressPart? last).isSome)

/-- The value of an address whose last part stands for all bytes that the others leave. -/
def addressValue? (parts : List Nat) : Option Nat := do
  let last ← parts.getLast?
  let rest := parts.dropLast
  if rest.any (· > 255) || parts.length > 4 || last ≥ Nat.pow 256 (5 - parts.length) then none
  else some (rest.foldl (fun n part => 256 * n + part) 0 * Nat.pow 256 (5 - parts.length) + last)

/-- Four bytes between dots. -/
def dotted (value : Nat) : String :=
  ".".intercalate ([3, 2, 1, 0].map fun i => toString (value / Nat.pow 256 i % 256))

/-- Read an address of four bytes. -/
def readIpv4 (s : List Char) : Except Error String :=
  match ((dottedParts s).mapM addressPart?).bind addressValue? with
  | some value => .ok (dotted value)
  | none => .error .ipv4

/-! ## Addresses of sixteen bytes -/

/-- Read a piece of sixteen bits. -/
def piece? (s : List Char) : Option Nat :=
  if s.isEmpty || s.length > 4 then none else ofDigits? 16 s

/-- Read a byte in decimal without leading zeros. -/
def byte? (s : List Char) : Option Nat :=
  if s.isEmpty || s.length > 3 || (s.head? = some '0' && s.length > 1) then none
  else (ofDigits? 10 s).filter (· < 256)

/-- Read two pieces that are written as four bytes between dots. -/
def embedded? (s : List Char) : Option (List Nat) :=
  match (Text.splitOn '.' s).mapM byte? with
  | some [a, b, c, d] => some [256 * a + b, 256 * c + d]
  | _ => none

/-- Read pieces between colons; where `atEnd` is set the last may be written as four bytes. -/
def pieces? (atEnd : Bool) (s : List Char) : Option (List Nat) :=
  if s.isEmpty then some []
  else
    let texts := Text.splitOn ':' s
    let last := texts.getLast?.getD []
    if atEnd && last.contains '.' then do
      return (← texts.dropLast.mapM piece?) ++ (← embedded? last)
    else texts.mapM piece?

/-- Read the eight pieces of an address; two colons stand for at least one zero. -/
def readPieces? (s : List Char) : Option (List Nat) :=
  match Text.cut? [':', ':'] s with
  | none => (pieces? true s).filter (·.length = 8)
  | some (left, right) => do
    let left ← pieces? false left
    let right ← pieces? true right
    let missing := 8 - (left.length + right.length)
    if missing = 0 then none else some (left ++ List.replicate missing 0 ++ right)

/-- The length of the run of zeros at the start. -/
def zeroRun (pieces : List Nat) : Nat := (pieces.takeWhile (· = 0)).length

/-- Pieces in hexadecimal between colons. -/
def colons (pieces : List Nat) : String :=
  ":".intercalate (pieces.map fun n => String.ofList (Nat.toDigits 16 n))

/-- The written form of an address: the first of the longest runs of zeros becomes two colons, if it
    is longer than one. -/
def showPieces (pieces : List Nat) : String :=
  let runs := (List.range 8).map fun i => zeroRun (pieces.drop i)
  let longest := runs.foldl max 0
  if longest < 2 then colons pieces
  else
    let start := runs.findIdx (· = longest)
    colons (pieces.take start) ++ "::" ++ colons (pieces.drop (start + longest))

/-! ## Names -/

/-- Whether a character can stand in no host. -/
def isForbiddenInHost (c : Char) : Bool :=
  "\x00\t\n\r #/:<>?@[\\]^|".toList.contains c

/-- Whether a character can stand in no domain name. -/
def isForbiddenInDomain (c : Char) : Bool :=
  isForbiddenInHost c || c < ' ' || c == '%' || c == '\x7f'

/-- Fold a letter to lower case, in the alphabets where that is a shift. -/
def foldLetter (c : Char) : Char :=
  let n := c.toNat
  if 0xC0 ≤ n ∧ n ≤ 0xDE ∧ n ≠ 0xD7 then Char.ofNat (n + 0x20)
  else if 0x391 ≤ n ∧ n ≤ 0x3A9 then Char.ofNat (n + 0x20)
  else if 0x410 ≤ n ∧ n ≤ 0x42F then Char.ofNat (n + 0x20)
  else if 0x400 ≤ n ∧ n ≤ 0x40F then Char.ofNat (n + 0x50)
  else if 0xFF01 ≤ n ∧ n ≤ 0xFF5E then (Char.ofNat (n - 0xFEE0)).toLower
  else if n = 0x3002 then '.'
  else c.toLower

/-- A label in ASCII. -/
def asciiLabel (label : List Char) : List Char :=
  if label.all (·.toNat < 0x80) then label else "xn--".toList ++ Punycode.encode label

/-- Read a domain name, which may turn out to be an address. -/
def readDomain (s : List Char) : Except Error String :=
  let name := (Text.ofUtf8Lossy ⟨(decode s).toArray⟩).toList.filter (· ≠ '\xad')
  let ascii := ['.'].intercalate ((Text.splitOn '.' (name.map foldLetter)).map asciiLabel)
  if ascii.isEmpty then .error .emptyHost
  else if ascii.any isForbiddenInDomain then .error .domain
  else if endsInNumber ascii then readIpv4 ascii
  else .ok (String.ofList ascii)

/-- Read the host of a URL; `special` says whether its scheme is one of the web. -/
def readHost (special : Bool) (s : List Char) : Except Error String :=
  match s with
  | '[' :: rest =>
    match (Text.stripEnd? [']'] rest).bind readPieces? with
    | some pieces => .ok ("[" ++ showPieces pieces ++ "]")
    | none => .error .ipv6
  | _ =>
    if special then readDomain s
    else if s.any isForbiddenInHost then .error .hostCharacter
    else .ok (encode controlSet s)

end Workbench.Url
