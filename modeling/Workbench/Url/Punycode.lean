set_option autoImplicit false

/-! # Punycode

Labels of domain names hold ASCII only. A label with other characters is written as its ASCII
characters, a dash, and a numeral in base 36 for each of the others, which tells how many steps it
is away from the one before when the characters are taken by value and then by place. The digits of
a numeral end where one falls below a threshold, and the thresholds adapt to the distances seen. -/

namespace Workbench.Url.Punycode

/-- The digit of a value below 36. -/
def digit (n : Nat) : Char :=
  if n < 26 then Char.ofNat ('a'.toNat + n) else Char.ofNat ('0'.toNat + n - 26)

/-- The threshold at a place, which goes up in steps of 36. -/
def threshold (bias place : Nat) : Nat :=
  if place ≤ bias then 1 else if bias + 26 ≤ place then 26 else place - bias

theorem one_le_threshold (bias place : Nat) : 1 ≤ threshold bias place := by
  unfold threshold
  split
  · omega
  · split <;> omega

/-- The digits of a numeral, lowest first. -/
def digits (bias place n : Nat) : List Char :=
  let t := threshold bias place
  if n < t then [digit n]
  else digit (t + (n - t) % (36 - t)) :: digits bias (place + 36) ((n - t) / (36 - t))
termination_by n
decreasing_by
  have _h := one_le_threshold bias place
  exact Nat.lt_of_le_of_lt (Nat.div_le_self _ _) (by omega)

/-- Scale a distance down, counting the steps. -/
def scale (delta place : Nat) : Nat × Nat :=
  if 455 < delta then scale (delta / 35) (place + 36) else (delta, place)
termination_by delta
decreasing_by exact Nat.div_lt_self (by omega) (by omega)

/-- The bias after a distance, when `count` characters are written. -/
def adapt (delta count : Nat) (isFirst : Bool) : Nat :=
  let delta := if isFirst then delta / 700 else delta / 2
  let (delta, place) := scale (delta + delta / count) 0
  place + 36 * delta / (delta + 38)

/-- An encoding under way. -/
structure Encoder where
  out : List Char
  /-- The steps since the last character that was written. -/
  delta : Nat
  bias : Nat
  /-- The number of characters that are written. -/
  count : Nat

/-- Pass a character of the label while those of value `value` are written. -/
def Encoder.pass (basic value : Nat) (e : Encoder) (c : Char) : Encoder :=
  if c.toNat < value then { e with delta := e.delta + 1 }
  else if c.toNat = value then
    ⟨e.out ++ digits e.bias 36 e.delta, 0, adapt e.delta (e.count + 1) (e.count = basic),
      e.count + 1⟩
  else e

/-- Write the characters of each of some values, given in order; `next` is the least value that was
    not passed yet. -/
def Encoder.run (label : List Char) (basic : Nat) : List Nat → Nat → Encoder → Encoder
  | [], _, e => e
  | value :: values, next, e =>
    let e := { e with delta := e.delta + (value - next) * (e.count + 1) }
    let e := label.foldl (Encoder.pass basic value) e
    Encoder.run label basic values (value + 1) { e with delta := e.delta + 1 }

/-- The distinct values of the characters that are not ASCII, in order. -/
def values (label : List Char) : List Nat :=
  let sorted := ((label.filter (·.toNat ≥ 0x80)).map Char.toNat).mergeSort (· ≤ ·)
  sorted.foldr (fun n rest => if rest.head? = some n then rest else n :: rest) []

/-- A label in ASCII. -/
def encode (label : List Char) : List Char :=
  let basic := label.filter (·.toNat < 0x80)
  let e := Encoder.run label basic.length (values label) 0x80 ⟨[], 0, 72, basic.length⟩
  basic ++ (if basic.isEmpty then [] else ['-']) ++ e.out

end Workbench.Url.Punycode
