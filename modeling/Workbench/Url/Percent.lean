import Workbench.Text.Utf8

set_option autoImplicit false

/-! # Percent encoding

Characters that must not stand in a part of a URL are written as the bytes of their UTF-8 form, each
as a `%` and two hexadecimal digits. Which characters these are depends on the part. -/

namespace Workbench.Url

/-- A hexadecimal digit, in upper case. -/
def hexDigit (n : Nat) : Char := (Nat.digitChar n).toUpper

/-- The value of a hexadecimal digit. -/
def hexValue? (c : Char) : Option Nat :=
  if '0' ≤ c ∧ c ≤ '9' then some (c.toNat - '0'.toNat)
  else if 'a' ≤ c.toLower ∧ c.toLower ≤ 'f' then some (c.toLower.toNat - 'a'.toNat + 10)
  else none

/-- A byte as a `%` and two digits. -/
def encodeByte (b : UInt8) : List Char := ['%', hexDigit (b.toNat / 16), hexDigit (b.toNat % 16)]

/-- A character, encoded if it is in the set. -/
def encodeChar (set : Char → Bool) (c : Char) : List Char :=
  if set c then c.toString.toUTF8.data.toList.flatMap encodeByte else [c]

/-- A text whose characters in the set are encoded. -/
def encode (set : Char → Bool) (s : List Char) : String :=
  String.ofList (s.flatMap (encodeChar set))

/-- The bytes of a text in which every `%` with two digits after it stands for a byte. -/
def decode : List Char → List UInt8
  | [] => []
  | '%' :: a :: b :: rest =>
    match hexValue? a, hexValue? b with
    | some high, some low => (16 * high + low).toUInt8 :: decode rest
    | _, _ => '%'.toNat.toUInt8 :: decode (a :: b :: rest)
  | c :: rest => c.toString.toUTF8.data.toList ++ decode rest
termination_by s => s.length

/-! ## The sets -/

/-- Control characters, and all that is not ASCII. -/
def controlSet (c : Char) : Bool := c < ' ' || c > '~'

/-- What is encoded in fragments. -/
def fragmentSet (c : Char) : Bool := controlSet c || " \"<>`".toList.contains c

/-- What is encoded in queries. -/
def querySet (c : Char) : Bool := controlSet c || " \"#<>".toList.contains c

/-- What is encoded in queries of the schemes of the web. -/
def specialQuerySet (c : Char) : Bool := querySet c || c == '\''

/-- What is encoded in paths. -/
def pathSet (c : Char) : Bool := querySet c || "?^`\x7b\x7d".toList.contains c

/-- What is encoded in user names and passwords. -/
def userSet (c : Char) : Bool := pathSet c || "/:;=@[\\]|".toList.contains c

end Workbench.Url
