import Workbench.Asset.Mount

set_option autoImplicit false

/-! # A table of assets

Assets given by a table of answers, with a record of what was asked for. It is the smallest world
behind a mount, and can take the place of a site: an answer may be bytes or any failure. -/

namespace Workbench.Asset

/-- Why a table refuses a key. -/
inductive Refusal where
  | network (reason : String)
  | store (reason : String)
  | notReconciled
  | invalidKey
  | notFound
  deriving DecidableEq, Repr, Inhabited

/-- The error with which a key is refused. -/
def Refusal.error (key : String) : Refusal → Error
  | .network reason => .network key reason
  | .store reason => .store (.custom .other reason)
  | .notReconciled => .notReconciled
  | .invalidKey => .invalidKey key
  | .notFound => .notFound key

/-- Answers by key, and the keys asked for so far, last first. -/
structure Table where
  answers : List (String × Except Refusal ByteArray)
  asked : List String
  deriving Inhabited

namespace Table

/-- Change the answer for a key. -/
def set (t : Table) (key : String) (answer : Except Refusal ByteArray) : Table :=
  { t with answers := (key, answer) :: t.answers }

/-- The keys asked for, in order. -/
def requests (t : Table) : List String := t.asked.reverse

/-- Answer a request and record it; a key that is not in the table does not exist. -/
def fetch (t : Table) (key : String) : Except Error ByteArray × Table :=
  ((match t.answers.lookup key with
    | some answer => answer.mapError (Refusal.error key)
    | none => .error (.notFound key)),
   { t with asked := key :: t.asked })

end Table

end Workbench.Asset
