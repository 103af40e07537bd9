set_option autoImplicit false

/-! # Dictionaries

What is kept under keys, as a list of entries in the order in which their keys were first set. A key
that is set again keeps its place. -/

namespace Workbench

/-- Values under keys. -/
abbrev Dictionary (κ ν : Type) := List (κ × ν)

namespace Dictionary

variable {κ ν : Type} [DecidableEq κ]

/-- The keys, in order. -/
def keys (d : Dictionary κ ν) : List κ := d.map Prod.fst

/-- The value under a key. -/
def get? : Dictionary κ ν → κ → Option ν
  | [], _ => none
  | (k, v) :: rest, key => if k = key then some v else get? rest key

/-- Keep a value under a key, in place of the one that is there. -/
def put : Dictionary κ ν → κ → ν → Dictionary κ ν
  | [], key, value => [(key, value)]
  | (k, v) :: rest, key, value =>
    if k = key then (key, value) :: rest else (k, v) :: put rest key value

/-- Take a key away. -/
def remove (d : Dictionary κ ν) (key : κ) : Dictionary κ ν := d.filter (·.1 ≠ key)

/-- Change the value under a key, if there is one. -/
def update (d : Dictionary κ ν) (key : κ) (f : ν → ν) : Dictionary κ ν :=
  match d.get? key with
  | some value => d.put key (f value)
  | none => d

end Dictionary

end Workbench
