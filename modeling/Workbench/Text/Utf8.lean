set_option autoImplicit false

/-! # UTF-8 in byte strings

Strict decoding is the core library's. Lossy decoding never fails: each longest ill-formed start of
a character becomes one replacement character, and decoding goes on at the byte that did not fit. It
runs as an automaton over the bytes, whose state holds the character that is being read. -/

namespace Workbench.Text

/-- The replacement character. -/
def replacement : Char := '\ufffd'

/-- A character of which some bytes are still to come: the bits so far, and for each byte to come
    the range it has to lie in. -/
structure Pending where
  bits : Nat
  ranges : List (UInt8 × UInt8)

/-- What the first byte of a character announces. -/
def Pending.start (b : UInt8) : Option Pending :=
  let tail : UInt8 × UInt8 := (0x80, 0xBF)
  if b < 0x80 then some ⟨b.toNat, []⟩
  else if b < 0xC2 then none
  else if b < 0xE0 then some ⟨b.toNat - 0xC0, [tail]⟩
  else if b < 0xF0 then
    let second := if b = 0xE0 then (0xA0, 0xBF) else if b = 0xED then (0x80, 0x9F) else tail
    some ⟨b.toNat - 0xE0, [second, tail]⟩
  else if b < 0xF5 then
    let second := if b = 0xF0 then (0x90, 0xBF) else if b = 0xF4 then (0x80, 0x8F) else tail
    some ⟨b.toNat - 0xF0, [second, tail, tail]⟩
  else none

/-- The decoder between two bytes: the characters so far, last first, and the character under way.
    -/
structure Decoder where
  out : List Char
  pending : Option Pending

/-- Take up the first byte of a character. -/
def Decoder.begin (out : List Char) (b : UInt8) : Decoder :=
  match Pending.start b with
  | none => ⟨replacement :: out, none⟩
  | some ⟨bits, []⟩ => ⟨Char.ofNat bits :: out, none⟩
  | some p => ⟨out, some p⟩

/-- Take one byte. -/
def Decoder.step (d : Decoder) (b : UInt8) : Decoder :=
  match d.pending with
  | none => Decoder.begin d.out b
  | some ⟨_, []⟩ => Decoder.begin d.out b
  | some ⟨bits, (low, high) :: ranges⟩ =>
    if low ≤ b ∧ b ≤ high then
      let bits := bits * 64 + (b.toNat - 0x80)
      if ranges.isEmpty then ⟨Char.ofNat bits :: d.out, none⟩ else ⟨d.out, some ⟨bits, ranges⟩⟩
    else Decoder.begin (replacement :: d.out) b

/-- The text read when the bytes have ended. -/
def Decoder.finish (d : Decoder) : List Char :=
  (if d.pending.isSome then replacement :: d.out else d.out).reverse

/-- The text of a byte string if it is well-formed UTF-8. -/
def ofUtf8? (bytes : ByteArray) : Option String := String.fromUTF8? bytes

/-- The text of a byte string, with one replacement character for each longest ill-formed start. -/
def ofUtf8Lossy (bytes : ByteArray) : String :=
  match ofUtf8? bytes with
  | some text => text
  | none => String.ofList (bytes.data.toList.foldl Decoder.step ⟨[], none⟩).finish

end Workbench.Text
