import Workbench.Asset.Cache
import Workbench.Session.Build

set_option autoImplicit false

/-! # The bench

A bench ties a file system, a depot of versioned assets and the tools together, and serves requests:
to load the manifest, to format a source, and to run one. It serves one request at a time. Loading
comes first, since a run needs the manifest. A request that comes while another is waiting, for the
assets, a tool or a frame, is turned away; one that waits may also be given up. -/

namespace Workbench

variable {World : Type}

/-- Versioned assets: how they are brought to a version, and how one is fetched; and how far that has
    come where it has to wait. -/
structure Depot (World : Type) where
  reconcile : World → String → Except Asset.Error Bool × World
  fetch : World → String → Except Asset.Error ByteArray × World
  reconcileUntil : World → String → Asset.Cache.Pause → Option World
  fetchUntil : World → String → Asset.Cache.Pause → Option World

namespace Depot

/-- The assets of a source behind a cache. -/
def ofCache {σ ω : Type} (s : Asset.Store σ)
    (source : ω → String → Except Asset.Error ByteArray × ω) : Depot (Asset.Cache σ ω) where
  reconcile := Asset.Cache.reconcile s
  fetch := Asset.Cache.fetch s source
  reconcileUntil := Asset.Cache.reconcileUntil s
  fetchUntil := Asset.Cache.fetchUntil s source

/-- The assets of a part of a world. -/
def within {Part : Type} (d : Depot Part) (get : World → Part) (set : World → Part → World) :
    Depot World where
  reconcile := fun w version =>
    let (result, part) := d.reconcile (get w) version
    (result, set w part)
  fetch := fun w key =>
    let (result, part) := d.fetch (get w) key
    (result, set w part)
  reconcileUntil := fun w version pause => (d.reconcileUntil (get w) version pause).map (set w)
  fetchUntil := fun w key pause => (d.fetchUntil (get w) key pause).map (set w)

/-- The mount through which the file system fetches from a depot. -/
def mount (d : Depot World) (roots : List String) : Asset.Mount World := ⟨roots, d.fetch⟩

end Depot

/-- What a bench is equipped with. -/
structure Equipment (World : Type) where
  config : Config
  depot : Depot World
  toolchain : Toolchain World
  frames : FrameHost World

/-- What the sessions of a bench work with. -/
def Equipment.workshop (e : Equipment World) : Session.Workshop World where
  config := e.config
  mount := some (e.depot.mount e.config.assetRoots)
  toolchain := e.toolchain
  frames := e.frames

/-- The world where a fetch is left that waits for an asset, if it is this one. -/
def Equipment.leaveAt (e : Equipment World) (key : String)
    (pause : Asset.Cache.Pause) (world : World) (asked : String) : Option World :=
  if asked = key then e.depot.fetchUntil world asked pause else none

/-- What a bench can be asked for. -/
inductive Request where
  | load
  | format (source : String)
  | run (source : String)
  deriving DecidableEq, Repr, Inhabited

/-- What a bench answers. -/
inductive Answer where
  | manifest (manifest : Manifest)
  | session (session : Session)
  deriving Inhabited

/-- The state of a bench. -/
structure Bench (World : Type) where
  fs : FileSystem
  world : World
  /-- The manifest that was loaded last. -/
  manifest : Option Manifest
  /-- Whether a request is being served. -/
  isBusy : Bool

namespace Bench

/-- A bench at which nothing has been done. -/
def new (fs : FileSystem) (world : World) : Bench World := ⟨fs, world, none, false⟩

/-- What serving a request comes to: its result, what was reported, and the bench after it. -/
abbrev Served (World : Type) := Except Session.Error Answer × List Session.Event × Bench World

/-- Bring the assets to their version and read the manifest. -/
def readManifest (e : Equipment World) (world : World) : Except Session.Error Manifest × World :=
  match e.depot.reconcile world e.config.cacheVersion with
  | (.error cause, world) => (.error (.asset cause), world)
  | (.ok _, world) =>
    match e.depot.fetch world e.config.manifestPath with
    | (.error cause, world) => (.error (.asset cause), world)
    | (.ok bytes, world) => ((Manifest.ofBytes bytes).mapError .manifest, world)

/-- Load the manifest. A failure is reported. -/
def load (e : Equipment World) (b : Bench World) : Served World :=
  match readManifest e b.world with
  | (.ok m, world) => (.ok (.manifest m), [], { b with world := world, manifest := some m })
  | (.error cause, world) =>
    (.error cause, [.environmentError cause.message], { b with world := world })

/-- Take over what a session has left. -/
def afterSession (b : Bench World) (d : Session.Draft World) : Bench World :=
  { b with fs := d.fs, world := d.world }

/-- Hold a session, with the manifest for a run and without one for formatting. -/
def hold (e : Equipment World) (b : Bench World) (manifest : Option Manifest) (source : String) :
    Served World :=
  let (result, d) := Session.perform e.workshop manifest source b.fs b.world
  (result.map .session, d.gate.passed, b.afterSession d)

/-- Carry out a request at a bench that is busy with it. -/
def carryOut (e : Equipment World) (b : Bench World) (request : Request) : Served World :=
  match request with
  | .load => b.load e
  | .format source => b.hold e none source
  | .run source =>
    match b.manifest with
    | none => (.error .notLoaded, [], b)
    | some m => b.hold e (some m) source

/-- The bench, busy from now on; nothing if it is busy already. -/
def acquire (b : Bench World) : Option (Bench World) :=
  if b.isBusy then none else some { b with isBusy := true }

/-- The bench, no longer busy. -/
def release (b : Bench World) : Bench World := { b with isBusy := false }

/-- Serve a request to its end. The bench is busy meanwhile, and released however it ends. -/
def serve (e : Equipment World) (b : Bench World) (request : Request) : Served World :=
  match b.acquire with
  | none => (.error .busy, [], b)
  | some b =>
    let (result, events, b) := b.carryOut e request
    (result, events, b.release)

/-! ## Broken calls -/

/-- Whether a request comes to a session, once the bench is busy with it. -/
def comesToSession (b : Bench World) : Request → Bool
  | .load => false
  | .format _ => !b.isBusy
  | .run _ => !b.isBusy && b.manifest.isSome

/-- Serve a request at a reading of the clock. Nothing if it comes to a session whose deadline the
    clock cannot show: the call is broken off then, which releases the bench, and all is as it was.
    -/
def serveAt (e : Equipment World) (b : Bench World) (started : Nat) (request : Request) :
    Option (Served World) :=
  if b.comesToSession request && (Session.deadline? e.config started).isNone then none
  else some (b.serve e request)

/-! ## Requests that wait -/

/-- Where a request may be waiting. -/
inductive Halt where
  /-- In the assets, for the manifest to be loaded. -/
  | loading (pause : Asset.Cache.Pause)
  /-- In the assets, for a file that a session reads. -/
  | reading (key : String) (pause : Asset.Cache.Pause)
  /-- For a tool or a frame, after a session has waited for some milliseconds. -/
  | working (spent : Nat)
  deriving DecidableEq, Repr, Inhabited

/-- Whether something is being written to the store of the assets meanwhile. -/
def Halt.writes : Halt → Bool
  | .loading pause | .reading _ pause => pause.writes
  | .working _ => false

/-- The world while the manifest is being read, where that waits. -/
def readManifestUntil (e : Equipment World) (world : World) (pause : Asset.Cache.Pause) :
    Option World :=
  (e.depot.reconcileUntil world e.config.cacheVersion pause).or
    (match e.depot.reconcile world e.config.cacheVersion with
    | (.error _, _) => none
    | (.ok _, world) => e.depot.fetchUntil world e.config.manifestPath pause)

/-- What a request has come to by the time that it waits: what was reported, and the bench. -/
abbrev Waiting (World : Type) := List Session.Event × Bench World

/-- Load the manifest, up to where that waits. -/
def loadUntil (e : Equipment World) (b : Bench World) : Halt → Option (Waiting World)
  | .loading pause =>
    (readManifestUntil e b.world pause).map fun world => ([], { b with world := world })
  | _ => none

/-- What a session has made by the time that it waits. -/
def sessionUntil (e : Equipment World) (b : Bench World) (manifest : Option Manifest)
    (source : String) : Halt → Option (Session.Draft World)
  | .loading _ => none
  | .reading key pause =>
    Session.untilReading e.workshop (e.leaveAt key pause) (Session.kindOf manifest) manifest source
      b.fs b.world
  | .working spent => Session.untilWaiting e.workshop spent manifest source b.fs b.world

/-- Hold a session, up to where it waits. -/
def holdUntil (e : Equipment World) (b : Bench World) (manifest : Option Manifest)
    (source : String) (halt : Halt) : Option (Waiting World) :=
  (b.sessionUntil e manifest source halt).map fun d => (d.gate.passed, b.afterSession d)

/-- Carry out a request, up to where it waits: nothing if it does not come to wait there. -/
def carryOutUntil (e : Equipment World) (b : Bench World) (request : Request) (halt : Halt) :
    Option (Waiting World) :=
  match request with
  | .load => b.loadUntil e halt
  | .format source => b.holdUntil e none source halt
  | .run source => b.manifest.bind fun m => b.holdUntil e (some m) source halt

/-- Serve a request, up to where it waits. The bench is busy then. -/
def serveUntil (e : Equipment World) (b : Bench World) (request : Request) (halt : Halt) :
    Option (Waiting World) :=
  b.acquire.bind fun b => b.carryOutUntil e request halt

/-- Hold a session whose time is used up while it reads a file. -/
def holdLate (e : Equipment World) (b : Bench World) (manifest : Option Manifest) (source : String)
    (key : String) (pause : Asset.Cache.Pause) : Option (Served World) :=
  (Session.conductLate e.workshop (e.leaveAt key pause) (Session.kindOf manifest) manifest source
    b.fs b.world).map fun (result, d) => (result.map .session, d.gate.passed, b.afterSession d)

/-- Carry out a request whose session uses up its time while it reads a file: nothing if it does not
    come to wait there. -/
def carryOutLate (e : Equipment World) (b : Bench World) (request : Request) (key : String)
    (pause : Asset.Cache.Pause) : Option (Served World) :=
  match request with
  | .load => none
  | .format source => b.holdLate e none source key pause
  | .run source => b.manifest.bind fun m => b.holdLate e (some m) source key pause

/-- Serve such a request to its end. -/
def serveLate (e : Equipment World) (b : Bench World) (request : Request) (key : String)
    (pause : Asset.Cache.Pause) : Option (Served World) :=
  b.acquire.bind fun b =>
    (b.carryOutLate e request key pause).map fun (result, events, b) => (result, events, b.release)

/-- What two requests come to of which the second comes while the first may be waiting. -/
structure Overlap (World : Type) where
  /-- Whether the bench was busy when the second request came. -/
  wasBusy : Bool
  /-- The result of the first request, unless it was given up. -/
  first : Option (Except Session.Error Answer)
  second : Except Session.Error Answer
  events : List Session.Event
  after : Bench World

/-- Serve a request that comes while another one waits, and then the other to its end, or give the
    other up, which releases the bench. Time stands still while the second is served: it is turned
    away, or the first had ended before it came. So a request that goes on has the same to do as one
    that is served from the start. -/
def overlapAt (e : Equipment World) (b : Bench World) (first : Request) (halt : Halt)
    (second : Request) (giveUp : Bool) : Overlap World :=
  match b.serveUntil e first halt with
  | none =>
    let (result, events, b) := b.serve e first
    let wasBusy := b.isBusy
    let (result', events', b) := b.serve e second
    ⟨wasBusy, some result, result', events ++ events', b⟩
  | some (events, waiting) =>
    let wasBusy := waiting.isBusy
    let (result', events', waiting) := waiting.serve e second
    if giveUp then ⟨wasBusy, none, result', events ++ events', waiting.release⟩
    else
      let (result, events, b) := b.serve e first
      ⟨wasBusy, some result, result', events ++ events', b⟩

/-- The same, where assets are at hand and the first request waits as soon as a tool or a frame does
    not answer at once. -/
def overlap (e : Equipment World) (b : Bench World) (first second : Request) (giveUp : Bool) :
    Overlap World :=
  b.overlapAt e first (.working 0) second giveUp

end Bench

end Workbench
