set_option autoImplicit false

/-! # Durations as texts

A duration is written in seconds, if there are any, and otherwise in milliseconds. Seconds are
written with as many places as they need. Where there is nothing to write the smallest unit stands
for it. -/

namespace Workbench.Text

/-- The three places of a number of thousandths, without the zeros at their end. -/
def thousandths (n : Nat) : List Char :=
  let digits := [n / 100 % 10, n / 10 % 10, n % 10].map Nat.digitChar
  (digits.reverse.dropWhile (· == '0')).reverse

/-- The text of a number of milliseconds. -/
def durationText (milliseconds : Nat) : String :=
  if milliseconds = 0 then "0ns"
  else if milliseconds < 1000 then toString milliseconds ++ "ms"
  else
    let places := thousandths milliseconds
    toString (milliseconds / 1000) ++
      (if places.isEmpty then "" else "." ++ String.ofList places) ++ "s"

example : [0, 40, 999, 1000, 1500, 1005, 600000].map durationText =
    ["0ns", "40ms", "999ms", "1s", "1.5s", "1.005s", "600s"] := by cbv

end Workbench.Text
