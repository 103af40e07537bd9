import Workbench.Asset.Error

set_option autoImplicit false

/-! # The asset cache

A store keeps bytes under keys; the cache puts one before a source of assets. Every entry of the
store belongs to one version of the assets, which the store records under a key of its own. Before
the cache serves anything it is reconciled with a version: if the store holds another one, or none,
it is cleared first. A failure on the way leaves the cache unreconciled, so no entry of an older
version is ever served as one of a newer. Only what was fetched successfully is stored. -/

namespace Workbench.Asset

/-- Storage of bytes under keys, in a state of the user's choice. -/
structure Store (σ : Type) where
  /-- The bytes under a key. -/
  get : σ → String → Except Error (Option ByteArray) × σ
  /-- Store bytes under a key, in place of those that are there. -/
  put : σ → String → ByteArray → Except Error Unit × σ
  /-- Remove a key, whether it is there or not. -/
  remove : σ → String → Except Error Unit × σ
  /-- Remove every key. -/
  clear : σ → Except Error Unit × σ

/-- The key under which a store records the version of its entries. -/
def versionKey : String := "wasmplay:cache-version"

/-- A cache: the state of its store, the state of the source behind it, and whether it may serve. -/
structure Cache (σ ω : Type) where
  isReconciled : Bool
  store : σ
  source : ω
  deriving Inhabited

namespace Cache

variable {σ ω : Type}

/-- A cache over a store and a source, not reconciled yet. -/
def fresh (store : σ) (source : ω) : Cache σ ω := ⟨false, store, source⟩

/-- Use the store of the cache. -/
def withStore {α : Type} (c : Cache σ ω) (act : σ → Except Error α × σ) :
    Except Error α × Cache σ ω :=
  let (result, store) := act c.store
  (result, { c with store := store })

/-- Bring the store to a version, and say whether it had to be cleared for that. -/
def reconcile (s : Store σ) (c : Cache σ ω) (version : String) : Except Error Bool × Cache σ ω :=
  match c.withStore (s.get · versionKey) with
  | (.error e, c) => (.error e, c)
  | (.ok current, c) =>
    if current.map ByteArray.data = some version.toUTF8.data then
      (.ok false, { c with isReconciled := true })
    else
      match { c with isReconciled := false }.withStore s.clear with
      | (.error e, c) => (.error e, c)
      | (.ok (), c) =>
        match c.withStore (s.put · versionKey version.toUTF8) with
        | (.error e, c) => (.error e, c)
        | (.ok (), c) => (.ok true, { c with isReconciled := true })

/-- Refuse to serve before reconciliation, and the keys that can be no asset. -/
def check (c : Cache σ ω) (key : String) : Except Error Unit :=
  if !c.isReconciled then .error .notReconciled
  else if key = "" ∨ key = versionKey then .error (.invalidKey key)
  else .ok ()

/-- The bytes under a key, from the store, or else from the source and then stored. -/
def fetch (s : Store σ) (source : ω → String → Except Error ByteArray × ω) (c : Cache σ ω)
    (key : String) : Except Error ByteArray × Cache σ ω :=
  match c.check key with
  | .error e => (.error e, c)
  | .ok () =>
    match c.withStore (s.get · key) with
    | (.error e, c) => (.error e, c)
    | (.ok (some bytes), c) => (.ok bytes, c)
    | (.ok none, c) =>
      let (result, origin) := source c.source key
      let c := { c with source := origin }
      match result with
      | .error e => (.error e, c)
      | .ok bytes =>
        match c.withStore (s.put · key bytes) with
        | (.error e, c) => (.error e, c)
        | (.ok (), c) => (.ok bytes, c)

/-! ### Calls that wait -/

/-- What a call of the cache may be waiting for: to reconcile, for the version in the store, for the
    store to be cleared and for the new version to be put; to fetch, for the bytes in the store, for
    the source to answer and for its bytes to be put. -/
inductive Pause where
  | reading
  | clearing
  | marking
  | looking
  | asking
  | keeping
  deriving DecidableEq, Repr, Inhabited

/-- Whether the store is being written to meanwhile. -/
def Pause.writes : Pause → Bool
  | .clearing | .marking | .keeping => true
  | .reading | .looking | .asking => false

/-- The cache while it waits to be reconciled, if it comes to wait for that: what goes before is
    done, and what is waited for is not. -/
def reconcileUntil (s : Store σ) (c : Cache σ ω) (version : String) (pause : Pause) :
    Option (Cache σ ω) :=
  if pause = .reading then some c
  else
    match c.withStore (s.get · versionKey) with
    | (.error _, _) => none
    | (.ok current, c) =>
      if current.map ByteArray.data = some version.toUTF8.data then none
      else
        let c := { c with isReconciled := false }
        if pause = .clearing then some c
        else
          match c.withStore s.clear with
          | (.error _, _) => none
          | (.ok (), c) => if pause = .marking then some c else none

/-- The cache while a fetch waits, if it comes to wait for that. -/
def fetchUntil (s : Store σ) (source : ω → String → Except Error ByteArray × ω) (c : Cache σ ω)
    (key : String) (pause : Pause) : Option (Cache σ ω) :=
  match c.check key with
  | .error _ => none
  | .ok () =>
    if pause = .looking then some c
    else
      match c.withStore (s.get · key) with
      | (.error _, _) => none
      | (.ok (some _), _) => none
      | (.ok none, c) =>
        if pause = .asking then some c
        else
          let (result, origin) := source c.source key
          match result with
          | .error _ => none
          | .ok _ => if pause = .keeping then some { c with source := origin } else none

/-! ### The other calls -/

/-- Whether a key is in the store. -/
def contains (s : Store σ) (c : Cache σ ω) (key : String) : Except Error Bool × Cache σ ω :=
  match c.check key with
  | .error e => (.error e, c)
  | .ok () =>
    let (result, c) := c.withStore (s.get · key)
    (result.map Option.isSome, c)

/-- Drop a key from the store. -/
def evict (s : Store σ) (c : Cache σ ω) (key : String) : Except Error Unit × Cache σ ω :=
  match c.check key with
  | .error e => (.error e, c)
  | .ok () => c.withStore (s.remove · key)

end Cache

/-! ## Storage in memory -/

/-- Entries kept in memory. -/
abbrev Memory := List (String × ByteArray)

namespace Memory

/-- The entries without a key. -/
def drop (m : Memory) (key : String) : Memory := m.filter (·.1 ≠ key)

/-- Storage in memory, which never fails. -/
def store : Store Memory where
  get := fun m key => (.ok (m.lookup key), m)
  put := fun m key bytes => (.ok (), m.drop key ++ [(key, bytes)])
  remove := fun m key => (.ok (), m.drop key)
  clear := fun _ => (.ok (), [])

end Memory

end Workbench.Asset
