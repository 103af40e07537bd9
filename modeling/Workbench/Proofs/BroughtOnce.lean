import Workbench.Bench
import Workbench.Proofs.AnsweredOnce
import Workbench.Proofs.Drawing
import Workbench.Session.Script

set_option autoImplicit false

/-! # Assets that are brought once

The assets of a bench are behind a cache that is reconciled whenever the manifest is loaded, always
with the same version, so its store is cleared once at most, and before anything was fetched. From
then on the source is asked as by one run of fetches, whether a request, a tool or the file system
asks, and a fetch that is left undone changes nothing, unless it is left while the store is being
written to. A bench is busy as long as it serves a request and no longer, and turns runs away until
it was loaded. -/

namespace Workbench

open Asset (Cache Requests Store recorded versionKey)
open Depot (Drawn)

variable {World σ ω : Type}

/-! ## The cache of a bench -/

section

variable {s : Store σ} {look : σ → String → Option ByteArray}
  {source : ω → String → Except Asset.Error ByteArray × ω} {version : String}
  {c c' : Cache σ (ω × Requests)}

namespace Asset.Cache

/-- A cache that is only ever reconciled with one version: no key was answered for twice, and none
    at all before the store had that version. -/
structure Thrifty (look : σ → String → Option ByteArray) (version : String)
    (c : Cache σ (ω × Requests)) : Prop where
  spent : ∀ key, c.Spent look key
  unasked : c.isReconciled = false → ∀ key, c.source.2.answers key = []
  marked : c.isReconciled = true → look c.store versionKey = some version.toUTF8

theorem Thrifty.fetch (hs : s.Working look) (h : c.Thrifty look version) (key : String) :
    (c.fetch s (recorded source) key).2.Thrifty look version := by
  have hfetch := supplied hs (recorded source) c key
  generalize c.fetch s (recorded source) key = result at hfetch ⊢
  obtain ⟨reply, c'⟩ := result
  have hspent := fun key => (h.spent key).supplied hfetch
  cases hfetch with
  | refused => exact h
  | stored hcheck _ hflag hlook =>
    obtain ⟨hreconciled, -⟩ := check_eq_ok_iff.1 hcheck
    refine ⟨hspent, fun hclosed => ?_, fun _ => ?_⟩
    · cases (hflag.trans hreconciled).symm.trans hclosed
    · rw [show look c'.store = look c.store from hlook]
      exact h.marked hreconciled
  | asked hcheck _ _ hflag hlook =>
    obtain ⟨hreconciled, -, hversion⟩ := check_eq_ok_iff.1 hcheck
    refine ⟨hspent, fun hclosed => ?_, fun _ => ?_⟩
    · cases (hflag.trans hreconciled).symm.trans hclosed
    · rw [show look c'.store versionKey = _ from hlook versionKey, if_neg hversion.symm]
      exact h.marked hreconciled

/-- The store is cleared only where nothing was asked for yet. -/
theorem Thrifty.reconcile (hs : s.Working look) (h : c.Thrifty look version) :
    (c.reconcile s version).2.Thrifty look version := by
  have hcase := reconciling hs.lawful c version
  have hsource := source_reconcile s c version
  generalize c.reconcile s version = result at hcase hsource ⊢
  obtain ⟨reply, c'⟩ := result
  dsimp only at hcase hsource ⊢
  have hsame : look c'.store = look c.store → ∀ key, c'.Spent look key := fun hlook key =>
    (h.spent key).of_eq hsource (congrFun hlook key)
  have hnone : BeginsClearing s c version → ∀ key, c'.source.2.answers key = [] := by
    intro hbegins
    rw [hsource]
    refine h.unasked ?_
    -- once reconciled, the store has the version
    by_contra hreconciled
    exact not_beginsClearing hs.lawful (h.marked (Bool.not_eq_false _ ▸ hreconciled)) hbegins
  cases hcase with
  | unread _ hflag hlook =>
    refine ⟨hsame hlook, fun hclosed => ?_, fun hreconciled => ?_⟩
    · rw [hsource]
      exact h.unasked (hflag.symm.trans hclosed)
    · rw [hlook]
      exact h.marked (hflag.symm.trans hreconciled)
  | current _ hversion hflag hlook =>
    refine ⟨hsame hlook, fun hclosed => ?_, fun _ => ?_⟩
    · cases hflag.symm.trans hclosed
    · rw [hlook]
      exact hversion
  | stuck hbegins _ hflag =>
    exact ⟨fun key => Or.inl (hnone hbegins key), fun _ => hnone hbegins,
      fun hreconciled => by cases hflag.symm.trans hreconciled⟩
  | unmarked hclears hflag =>
    exact ⟨fun key => Or.inl (hnone hclears.1 key), fun _ => hnone hclears.1,
      fun hreconciled => by cases hflag.symm.trans hreconciled⟩
  | cleared hclears hflag hversion =>
    exact ⟨fun key => Or.inl (hnone hclears.1 key), fun _ => hnone hclears.1, fun _ => hversion⟩

theorem Thrifty.alike (h : c.Thrifty look version) (halike : Alike look c c') :
    c'.Thrifty look version where
  spent key := (h.spent key).of_eq halike.source (congrFun halike.look key)
  unasked hclosed key := by
    rw [halike.source]
    exact h.unasked (halike.flag.symm.trans hclosed) key
  marked hreconciled := by
    rw [halike.look]
    exact h.marked (halike.flag.symm.trans hreconciled)

theorem thrifty_fresh (store : σ) (origin : ω) :
    (fresh store (origin, [])).Thrifty look version :=
  ⟨fun _ => Or.inl rfl, fun _ _ => rfl, nofun⟩

end Asset.Cache

end

/-! ## Requests of a bench -/

namespace Bench

/-- What a bench is asked for at a time: one request, or one whose session uses up its time while it
    reads a file, or one and another that comes while the first may be waiting, which may be given up
    then. -/
inductive Visit where
  | alone (request : Request)
  | late (request : Request) (key : String) (pause : Cache.Pause)
  | pair (first : Request) (halt : Halt) (second : Request) (givesUp : Bool)

/-- Whether a request is given up, or its session timed out, while something is being written to the
    store of the assets. -/
def Visit.breaksWriting : Visit → Bool
  | .alone _ => false
  | .late _ _ pause => pause.writes
  | .pair _ halt _ givesUp => givesUp && halt.writes

/-- A visit to a bench, with what it came to. -/
structure Turn (World : Type) where
  before : Bench World
  visit : Visit
  /-- The results of the requests that were not given up. -/
  results : List (Request × Except Session.Error Answer)
  events : List Session.Event
  after : Bench World

/-- A manifest was loaded. -/
def Turn.Loads (t : Turn World) : Prop := ∃ answer, (.load, .ok answer) ∈ t.results

/-- Serve a visit. -/
def attend (e : Equipment World) (b : Bench World) (visit : Visit) : Turn World :=
  match visit with
  | .alone request =>
    let (result, events, after) := b.serve e request
    ⟨b, visit, [(request, result)], events, after⟩
  | .late request key pause =>
    let (result, events, after) := (b.serveLate e request key pause).getD (b.serve e request)
    ⟨b, visit, [(request, result)], events, after⟩
  | .pair first halt second givesUp =>
    let o := b.overlapAt e first halt second givesUp
    ⟨b, visit, (o.first.map (first, ·)).toList ++ [(second, o.second)], o.events, o.after⟩

/-- Serve visits one after the other. -/
def attendAll (e : Equipment World) (b : Bench World) : List Visit → List (Turn World)
  | [] => []
  | visit :: rest => b.attend e visit :: (b.attend e visit).after.attendAll e rest

end Bench

section

variable {s : Store σ} {look : σ → String → Option ByteArray}
  {source : ω → String → Except Asset.Error ByteArray × ω}
  {assets : Part World (Cache σ (ω × Requests))} {e : Equipment World} {b : Bench World}
  {visits : List Bench.Visit}

/-- The equipment of a bench whose assets are behind a cache, where the tools and the frames come by
    them through the mount alone, and a tool that is late leaves no fetch while it is being stored.
    -/
structure Equipment.Draws (e : Equipment World) (s : Store σ)
    (source : ω → String → Except Asset.Error ByteArray × ω)
    (assets : Part World (Cache σ (ω × Requests))) : Prop where
  depot : e.depot = (Depot.ofCache s (recorded source)).within assets.get assets.set
  tools : ∀ tool args patience fs world, Drawn e.depot assets world
    (e.toolchain.run (some (e.depot.mount e.config.assetRoots)) tool args patience fs world).2.2
  frames : ∀ module loader world, Drawn e.depot assets world (e.frames.create module loader world).2

namespace Equipment.Draws

theorem follows (h : e.Draws s source assets) : e.workshop.Follows (Drawn e.depot assets) where
  fetch m hm world key := by
    cases hm
    exact .fetch world key
  run := h.tools
  create := h.frames

/-- What is drawn leaves the cache thrifty. -/
theorem thrifty (hs : s.Working look) (hassets : assets.Lawful) (h : e.Draws s source assets)
    {version : String} {world world' : World} (hdrawn : Drawn e.depot assets world world')
    (hthrifty : (assets.get world).Thrifty look version) :
    (assets.get world').Thrifty look version := by
  induction hdrawn with
  | beside hsame => rwa [hsame]
  | fetch world key =>
    have hget : assets.get (e.depot.fetch world key).2 =
        ((assets.get world).fetch s (recorded source) key).2 := by
      rw [h.depot]
      exact hassets.get_set _ _
    rw [hget]
    exact hthrifty.fetch hs key
  | @left world world' key pause hpause hleft =>
    rw [h.depot] at hleft
    obtain ⟨c, hwaits, rfl⟩ := Option.map_eq_some_iff.1 hleft
    have hwaits : (assets.get world).fetchUntil s (recorded source) key pause = some c := hwaits
    rw [hassets.get_set]
    exact hthrifty.alike ((Cache.left_of_fetchUntil hwaits).alike hs.lawful hpause)
  | trans _ _ ih ih' => exact ih' (ih hthrifty)

end Equipment.Draws

namespace Bench

/-- What holds of a bench between visits. -/
structure Sound (look : σ → String → Option ByteArray)
    (assets : Part World (Cache σ (ω × Requests))) (version : String) (b : Bench World) : Prop where
  thrifty : (assets.get b.world).Thrifty look version
  idle : b.isBusy = false

/-- A bench reconciles its cache with the version that is set. -/
theorem thrifty_reconcile (hs : s.Working look) (hassets : assets.Lawful)
    (h : e.Draws s source assets) {world : World}
    (hthrifty : (assets.get world).Thrifty look e.config.cacheVersion) :
    (assets.get (e.depot.reconcile world e.config.cacheVersion).2).Thrifty look
      e.config.cacheVersion := by
  have hreconcile : assets.get (e.depot.reconcile world e.config.cacheVersion).2 =
      ((assets.get world).reconcile s e.config.cacheVersion).2 := by
    rw [h.depot]
    exact hassets.get_set _ _
  rw [hreconcile]
  exact hthrifty.reconcile hs

/-- Loading reconciles the cache, and fetches the manifest like any asset. -/
theorem thrifty_readManifest (hs : s.Working look) (hassets : assets.Lawful)
    (h : e.Draws s source assets) {world : World}
    (hthrifty : (assets.get world).Thrifty look e.config.cacheVersion) :
    (assets.get (readManifest e world).2).Thrifty look e.config.cacheVersion := by
  have hreconciled := thrifty_reconcile hs hassets h hthrifty
  unfold readManifest
  rcases hresult : e.depot.reconcile world e.config.cacheVersion with ⟨cause | cleared, world'⟩ <;>
    rw [hresult] at hreconciled
  · exact hreconciled
  have hfetched := h.thrifty hs hassets (.fetch world' e.config.manifestPath) hreconciled
  dsimp only
  rcases hfetch : e.depot.fetch world' e.config.manifestPath with ⟨cause | bytes, world''⟩ <;>
    rw [hfetch] at hfetched <;> exact hfetched

/-- Carrying out a request leaves the cache thrifty. -/
theorem thrifty_carryOut (hs : s.Working look) (hassets : assets.Lawful)
    (h : e.Draws s source assets)
    (hthrifty : (assets.get b.world).Thrifty look e.config.cacheVersion) (request : Request) :
    (assets.get (b.carryOut e request).2.2.world).Thrifty look e.config.cacheVersion := by
  have hhold : ∀ manifest text,
      (assets.get (b.hold e manifest text).2.2.world).Thrifty look e.config.cacheVersion :=
    fun manifest text => h.thrifty hs hassets
      (Session.follows_perform h.follows manifest text b.fs b.world) hthrifty
  unfold carryOut
  cases request with
  | load =>
    have hread := thrifty_readManifest hs hassets h hthrifty
    dsimp only
    rw [load]
    rcases hresult : readManifest e b.world with ⟨cause | manifest, world⟩ <;>
      rw [hresult] at hread <;> exact hread
  | format text => exact hhold none text
  | run text =>
    cases hmanifest : b.manifest with
    | none => simpa only [hmanifest] using hthrifty
    | some manifest => simpa only [hmanifest] using hhold (some manifest) text

/-! ### Being busy -/

theorem acquire_eq_some_iff {b' : Bench World} :
    b.acquire = some b' ↔ b.isBusy = false ∧ b' = { b with isBusy := true } := by
  unfold acquire
  split_ifs with hbusy
  · simp [hbusy]
  · simp [hbusy, eq_comm]

/-- A bench that is busy turns away whoever comes. -/
theorem serve_of_busy (h : b.isBusy = true) (request : Request) :
    b.serve e request = (.error .busy, [], b) := by
  unfold serve acquire
  rw [if_pos h]

theorem serve_of_idle (h : b.isBusy = false) (request : Request) :
    b.serve e request =
      ((carryOut e { b with isBusy := true } request).1,
        (carryOut e { b with isBusy := true } request).2.1,
        (carryOut e { b with isBusy := true } request).2.2.release) := by
  unfold serve
  rw [acquire_eq_some_iff.2 ⟨h, rfl⟩]

/-! ### Requests that wait -/

/-- A bench that waits is busy, and else as it was but for what was drawn on for the manifest or for
    a session. -/
theorem of_serveUntil {request : Request} {halt : Halt} {events : List Session.Event}
    {b' : Bench World} (h : b.serveUntil e request halt = some (events, b')) :
    (∃ pause world, halt = .loading pause ∧ readManifestUntil e b.world pause = some world ∧
      b' = { b with world := world, isBusy := true }) ∨
    ∃ manifest text d, b.sessionUntil e manifest text halt = some d ∧
      b' = { b.afterSession d with isBusy := true } := by
  obtain ⟨busy, hacquire, h⟩ := Option.bind_eq_some_iff.1 h
  obtain ⟨-, rfl⟩ := acquire_eq_some_iff.1 hacquire
  have hhold : ∀ {manifest text},
      holdUntil e { b with isBusy := true } manifest text halt = some (events, b') →
        ∃ manifest text d, b.sessionUntil e manifest text halt = some d ∧
          b' = { b.afterSession d with isBusy := true } := by
    intro manifest text h
    obtain ⟨d, hd, hleft⟩ := Option.map_eq_some_iff.1 h
    cases hleft
    exact ⟨manifest, text, d, by cases halt <;> exact hd, rfl⟩
  cases request with
  | load =>
    cases halt with
    | loading pause =>
      obtain ⟨world, hread, hleft⟩ := Option.map_eq_some_iff.1 h
      cases hleft
      exact Or.inl ⟨pause, world, rfl, hread, rfl⟩
    | reading key pause => cases h
    | working spent => cases h
  | format text => exact Or.inr (hhold h)
  | run text =>
    obtain ⟨manifest, -, h⟩ := Option.bind_eq_some_iff.1 h
    exact Or.inr (hhold h)

/-- A bench that has served a late request is released, and else as it was but for what was drawn on
    for the session. -/
theorem of_serveLate {request : Request} {key : String} {pause : Cache.Pause}
    {served : Served World} (h : b.serveLate e request key pause = some served) :
    ∃ manifest text d, b.sessionUntil e manifest text (.reading key pause) = some d ∧
      served.2.2.world = d.world ∧ served.2.2.manifest = b.manifest ∧
      served.2.2.isBusy = false := by
  obtain ⟨busy, hacquire, h⟩ := Option.bind_eq_some_iff.1 h
  obtain ⟨-, rfl⟩ := acquire_eq_some_iff.1 hacquire
  obtain ⟨late, hlate, rfl⟩ := Option.map_eq_some_iff.1 h
  have hhold : ∀ {manifest text},
      holdLate e { b with isBusy := true } manifest text key pause = some late →
        ∃ manifest text d, b.sessionUntil e manifest text (.reading key pause) = some d ∧
          late.2.2.world = d.world ∧ late.2.2.manifest = b.manifest := by
    intro manifest text h
    obtain ⟨ended, hended, rfl⟩ := Option.map_eq_some_iff.1 h
    obtain ⟨d, hd, rfl⟩ := Option.map_eq_some_iff.1 hended
    exact ⟨manifest, text, d, hd, rfl, rfl⟩
  cases request with
  | load => cases hlate
  | format text =>
    obtain ⟨manifest, text, d, hd, hworld, hmanifest⟩ := hhold hlate
    exact ⟨manifest, text, d, hd, hworld, hmanifest, rfl⟩
  | run text =>
    obtain ⟨manifest, -, hheld⟩ := Option.bind_eq_some_iff.1 hlate
    obtain ⟨manifest, text, d, hd, hworld, hmanifest⟩ := hhold hheld
    exact ⟨manifest, text, d, hd, hworld, hmanifest, rfl⟩

theorem isBusy_of_serveUntil {request : Request} {halt : Halt} {events : List Session.Event}
    {b' : Bench World} (h : b.serveUntil e request halt = some (events, b')) : b'.isBusy = true := by
  rcases of_serveUntil h with ⟨-, -, -, -, rfl⟩ | ⟨-, -, -, -, rfl⟩ <;> rfl

/-- What waits has not loaded a manifest yet. -/
theorem manifest_of_serveUntil {request : Request} {halt : Halt} {events : List Session.Event}
    {b' : Bench World} (h : b.serveUntil e request halt = some (events, b')) :
    b'.manifest = b.manifest := by
  rcases of_serveUntil h with ⟨-, -, -, -, rfl⟩ | ⟨-, -, -, -, rfl⟩ <;> rfl

/-- A request that comes while another one waits is turned away; the other is given up, or goes on as
    if nothing had come. -/
theorem overlapAt_of_waiting {first : Request} {halt : Halt} {events : List Session.Event}
    {b' : Bench World} (h : b.serveUntil e first halt = some (events, b')) (second : Request)
    (givesUp : Bool) : b.overlapAt e first halt second givesUp =
      if givesUp then ⟨true, none, .error .busy, events, b'.release⟩
      else ⟨true, some (b.serve e first).1, .error .busy, (b.serve e first).2.1,
        (b.serve e first).2.2⟩ := by
  have hbusy := isBusy_of_serveUntil h
  rw [overlapAt, h]
  dsimp only
  rw [serve_of_busy hbusy, hbusy]
  simp only [List.append_nil]

/-- Loading that waits without writing leaves the cache thrifty. -/
theorem thrifty_readManifestUntil (hs : s.Working look) (hassets : assets.Lawful)
    (h : e.Draws s source assets) {world world' : World} {pause : Cache.Pause}
    (hthrifty : (assets.get world).Thrifty look e.config.cacheVersion)
    (hpause : pause.writes = false) (hwaits : readManifestUntil e world pause = some world') :
    (assets.get world').Thrifty look e.config.cacheVersion := by
  rcases Option.or_eq_some_iff.1 hwaits with hreconcile | ⟨-, hfetch⟩
  · rw [h.depot] at hreconcile
    obtain ⟨c, hleft, rfl⟩ := Option.map_eq_some_iff.1 hreconcile
    rw [hassets.get_set, Cache.eq_of_reconcileUntil hpause hleft]
    exact hthrifty
  · have hreconciled := thrifty_reconcile hs hassets h hthrifty
    rcases hresult : e.depot.reconcile world e.config.cacheVersion with ⟨cause | cleared, later⟩ <;>
      rw [hresult] at hreconciled hfetch
    · cases hfetch
    · exact h.thrifty hs hassets (.left hpause hfetch) hreconciled

/-- So does a session. -/
theorem thrifty_sessionUntil (hs : s.Working look) (hassets : assets.Lawful)
    (h : e.Draws s source assets)
    (hthrifty : (assets.get b.world).Thrifty look e.config.cacheVersion)
    {manifest : Option Manifest} {text : String} {halt : Halt} (hhalt : halt.writes = false)
    {d : Session.Draft World} (hd : b.sessionUntil e manifest text halt = some d) :
    (assets.get d.world).Thrifty look e.config.cacheVersion := by
  refine h.thrifty hs hassets ?_ hthrifty
  cases halt with
  | loading pause => cases hd
  | reading key pause =>
    refine Session.follows_untilReading h.follows (fun world asked world' hleave => ?_) hd
    unfold Equipment.leaveAt at hleave
    split_ifs at hleave
    exact .left hhalt hleave
  | working spent => exact Session.follows_untilWaiting h.follows hd

/-- So does every request that waits without writing. -/
theorem thrifty_serveUntil (hs : s.Working look) (hassets : assets.Lawful)
    (h : e.Draws s source assets)
    (hthrifty : (assets.get b.world).Thrifty look e.config.cacheVersion) {request : Request}
    {halt : Halt} (hhalt : halt.writes = false) {events : List Session.Event} {b' : Bench World}
    (hwaits : b.serveUntil e request halt = some (events, b')) :
    (assets.get b'.world).Thrifty look e.config.cacheVersion := by
  rcases of_serveUntil hwaits with ⟨pause, world, rfl, hread, rfl⟩ | ⟨manifest, text, d, hd, rfl⟩
  · exact thrifty_readManifestUntil hs hassets h hthrifty hhalt hread
  · exact thrifty_sessionUntil hs hassets h hthrifty hhalt hd

/-! ### Visits -/

theorem Sound.serve (hs : s.Working look) (hassets : assets.Lawful) (h : e.Draws s source assets)
    (hb : b.Sound look assets e.config.cacheVersion) (request : Request) :
    (b.serve e request).2.2.Sound look assets e.config.cacheVersion := by
  rw [serve_of_idle hb.idle]
  have hbusy : (assets.get ({ b with isBusy := true } : Bench World).world).Thrifty look
      e.config.cacheVersion := hb.thrifty
  exact ⟨thrifty_carryOut hs hassets h hbusy request, rfl⟩

theorem Sound.attend (hs : s.Working look) (hassets : assets.Lawful) (h : e.Draws s source assets)
    (hb : b.Sound look assets e.config.cacheVersion) {visit : Visit}
    (hvisit : visit.breaksWriting = false) :
    (b.attend e visit).after.Sound look assets e.config.cacheVersion := by
  cases visit with
  | alone request => exact hb.serve hs hassets h request
  | late request key pause =>
    show ((b.serveLate e request key pause).getD (b.serve e request)).2.2.Sound look assets
      e.config.cacheVersion
    cases hlate : b.serveLate e request key pause with
    | none => exact hb.serve hs hassets h request
    | some served =>
      obtain ⟨manifest, text, d, hd, hworld, -, hidle⟩ := of_serveLate hlate
      refine ⟨?_, hidle⟩
      rw [Option.getD_some, hworld]
      have hhalt : (Halt.reading key pause).writes = false := hvisit
      exact thrifty_sessionUntil hs hassets h hb.thrifty hhalt hd
  | pair first halt second givesUp =>
    show (b.overlapAt e first halt second givesUp).after.Sound look assets e.config.cacheVersion
    cases hwaiting : b.serveUntil e first halt with
    | none =>
      rw [overlapAt, hwaiting]
      exact (hb.serve hs hassets h first).serve hs hassets h second
    | some waiting =>
      obtain ⟨events, b'⟩ := waiting
      rw [overlapAt_of_waiting hwaiting]
      cases givesUp with
      | true =>
        have hthrifty := thrifty_serveUntil hs hassets h hb.thrifty hvisit hwaiting
        exact ⟨hthrifty, rfl⟩
      | false => exact hb.serve hs hassets h first

theorem carryOut_manifest (e : Equipment World) (b : Bench World) (request : Request) :
    (b.carryOut e request).2.2.manifest = b.manifest ∨
      ∃ answer, (request, (b.carryOut e request).1) = (.load, .ok answer) := by
  unfold carryOut
  cases request with
  | load =>
    dsimp only
    rw [load]
    rcases readManifest e b.world with ⟨cause | manifest, world⟩
    · exact Or.inl rfl
    · exact Or.inr ⟨_, rfl⟩
  | format text => exact Or.inl rfl
  | run text =>
    cases hmanifest : b.manifest with
    | none => exact Or.inl hmanifest
    | some manifest => exact Or.inl hmanifest

/-- Whatever comes of a request, the manifest is as before, or one was loaded. -/
theorem serve_manifest (e : Equipment World) (b : Bench World) (request : Request) :
    (b.serve e request).2.2.manifest = b.manifest ∨
      ∃ answer, (request, (b.serve e request).1) = (.load, .ok answer) := by
  cases hbusy : b.isBusy with
  | true =>
    rw [serve_of_busy hbusy]
    exact Or.inl rfl
  | false =>
    rw [serve_of_idle hbusy]
    exact carryOut_manifest e { b with isBusy := true } request

theorem attend_manifest (e : Equipment World) (b : Bench World) (visit : Visit) :
    (b.attend e visit).after.manifest = b.manifest ∨ (b.attend e visit).Loads := by
  have halone : ∀ (request : Request) others, (b.serve e request).2.2.manifest = b.manifest ∨
      ∃ answer, (.load, .ok answer) ∈ (request, (b.serve e request).1) :: others := by
    intro request others
    refine (serve_manifest e b request).imp_right ?_
    rintro ⟨answer, hloaded⟩
    exact ⟨answer, hloaded ▸ List.mem_cons_self⟩
  cases visit with
  | alone request => exact halone request []
  | late request key pause =>
    show ((b.serveLate e request key pause).getD (b.serve e request)).2.2.manifest = b.manifest ∨
      ∃ answer, (.load, .ok answer) ∈
        [(request, ((b.serveLate e request key pause).getD (b.serve e request)).1)]
    cases hlate : b.serveLate e request key pause with
    | none => exact halone request []
    | some served =>
      obtain ⟨-, -, -, -, -, hkept, -⟩ := of_serveLate hlate
      exact Or.inl hkept
  | pair first halt second givesUp =>
    show (b.overlapAt e first halt second givesUp).after.manifest = b.manifest ∨ ∃ answer,
      (.load, .ok answer) ∈ ((b.overlapAt e first halt second givesUp).first.map (first, ·)).toList ++
        [(second, (b.overlapAt e first halt second givesUp).second)]
    cases hwaiting : b.serveUntil e first halt with
    | none =>
      rw [overlapAt, hwaiting]
      dsimp only
      rcases serve_manifest e (b.serve e first).2.2 second with hkept | ⟨answer, hloaded⟩
      · rw [hkept]
        exact halone first _
      · refine Or.inr ⟨answer, List.mem_append_right _ ?_⟩
        exact hloaded ▸ List.mem_cons_self
    | some waiting =>
      obtain ⟨events, b'⟩ := waiting
      rw [overlapAt_of_waiting hwaiting]
      cases givesUp with
      | true =>
        have hkept := manifest_of_serveUntil hwaiting
        exact Or.inl hkept
      | false => exact halone first _

/-- What visits to a bench owe: no asset is answered for twice, the bench is busy while a request
    waits and turns others away, but is never left busy, and a run that comes before the first load
    that succeeds changes nothing. -/
structure Thrift (e : Equipment World) (assets : Part World (Cache σ (ω × Requests)))
    (turns : List (Turn World)) : Prop where
  once : ∀ t ∈ turns, ∀ key, ((assets.get t.after.world).source.2.answers key).length ≤ 1
  idle : ∀ t ∈ turns, t.after.isBusy = false
  busy : ∀ t ∈ turns, ∀ first halt second givesUp events waiting,
    t.visit = .pair first halt second givesUp →
      t.before.serveUntil e first halt = some (events, waiting) →
      waiting.isBusy = true ∧ (second, .error .busy) ∈ t.results
  unready : ∀ early t late, turns = early ++ t :: late → (∀ t' ∈ early, ¬ t'.Loads) →
    ∀ text, t.visit = .alone (.run text) →
      t.results = [(.run text, .error .notLoaded)] ∧ t.events = [] ∧ t.after = t.before

theorem sound_attendAll (hs : s.Working look) (hassets : assets.Lawful)
    (h : e.Draws s source assets) (hb : b.Sound look assets e.config.cacheVersion)
    {visits : List Visit} (hvisits : ∀ visit ∈ visits, visit.breaksWriting = false) :
    ∀ t ∈ b.attendAll e visits, t.after.Sound look assets e.config.cacheVersion := by
  induction visits generalizing b with
  | nil => simp [attendAll]
  | cons visit rest ih =>
    obtain ⟨hvisit, hrest⟩ := List.forall_mem_cons.1 hvisits
    have hafter := hb.attend hs hassets h hvisit
    rw [attendAll]
    exact List.forall_mem_cons.2 ⟨hafter, ih hafter hrest⟩

theorem eq_attend_of_mem {t : Turn World} (h : t ∈ b.attendAll e visits) :
    t = t.before.attend e t.visit := by
  induction visits generalizing b with
  | nil => cases h
  | cons visit rest ih =>
    rcases List.mem_cons.1 h with rfl | h
    · cases visit <;> rfl
    · exact ih h

theorem busy_of_mem {t : Turn World} (h : t ∈ b.attendAll e visits) {first second : Request}
    {halt : Halt} {givesUp : Bool} {events : List Session.Event} {waiting : Bench World}
    (hvisit : t.visit = .pair first halt second givesUp)
    (hwaits : t.before.serveUntil e first halt = some (events, waiting)) :
    waiting.isBusy = true ∧ (second, .error .busy) ∈ t.results := by
  refine ⟨isBusy_of_serveUntil hwaits, ?_⟩
  rw [eq_attend_of_mem h, hvisit]
  show _ ∈ ((t.before.overlapAt e first halt second givesUp).first.map (first, ·)).toList ++
    [(second, (t.before.overlapAt e first halt second givesUp).second)]
  rw [overlapAt_of_waiting hwaits]
  refine List.mem_append_right _ (List.mem_singleton.2 ?_)
  cases givesUp <;> rfl

theorem unready_attendAll (hidle : b.isBusy = false) (hmanifest : b.manifest = none)
    (hstays : ∀ t ∈ b.attendAll e visits, t.after.isBusy = false) {early late : List (Turn World)}
    {t : Turn World} (hturns : b.attendAll e visits = early ++ t :: late)
    (hunloaded : ∀ t' ∈ early, ¬ t'.Loads) {text : String} (hvisit : t.visit = .alone (.run text)) :
    t.results = [(.run text, .error .notLoaded)] ∧ t.events = [] ∧ t.after = t.before := by
  induction visits generalizing b early with
  | nil => cases early <;> cases hturns
  | cons visit rest ih =>
    rw [attendAll] at hturns hstays
    -- either this is the run, or what comes before it has loaded nothing
    cases early with
    | nil =>
      obtain ⟨rfl, -⟩ := List.cons.inj hturns
      have hrun : visit = .alone (.run text) := by
        cases visit <;> exact hvisit
      subst hrun
      have hserve : b.serve e (.run text) = (.error .notLoaded, [], b) := by
        obtain ⟨fs, world, _, _⟩ := b
        subst hidle
        subst hmanifest
        rfl
      simp [attend, hserve]
    | cons first early =>
      obtain ⟨rfl, hrest⟩ := List.cons.inj hturns
      have hkept := (attend_manifest e b visit).resolve_right (hunloaded _ List.mem_cons_self)
      exact ih (hstays _ List.mem_cons_self) (hkept.trans hmanifest)
        (fun t ht => hstays t (List.mem_cons_of_mem _ ht)) hrest
        fun t' ht' => hunloaded t' (List.mem_cons_of_mem _ ht')

end Bench

end

/-! ## An attended bench -/

/-- A source that has new bytes each time, and nothing where it is not expected to. -/
def almanac (year : Nat) (key : String) : Except Asset.Error ByteArray × Nat :=
  if key = "/prebuilt/manifest.txt" then (.ok "fmt -> /prebuilt/fmt.a\n".toUTF8, year + 1)
  else if "/toolchain/".toList.isPrefixOf key.toList then
    (.ok (toString year).toUTF8, year + 1)
  else (.error (.notFound key), year + 1)

/-- The cache of that source, as the whole world of a bench. -/
abbrev Library := Cache Asset.Memory (Nat × Requests)

/-- Tools that read their own module, as an asset, and write what they are to write. -/
def readers : Toolchain Library where
  run mount tool args patience fs world :=
    let (_, fs, world) := fs.readAll mount world ("/toolchain/" ++ tool.name ++ ".wasm")
    (.exited 0 patience, (fs.writeFile (Session.Rehearsal.argAfter "-o" args) "m".toUTF8).2, world)

/-- The equipment of a bench over that source. Its store keeps what one in memory does, but may have
    to be waited for, as one on a disk has. -/
def readingRoom : Equipment Library where
  config := .default
  depot := (Depot.ofCache Asset.Memory.store (recorded almanac)).within Part.whole.get
    Part.whole.set
  toolchain := readers
  frames := ⟨fun _ _ world => (.ok .complete, world)⟩

theorem draws_readingRoom : readingRoom.Draws Asset.Memory.store almanac Part.whole where
  depot := rfl
  tools _ _ _ fs world := FileSystem.follows_readAll
    (fun m hm world key => by
      cases hm
      exact .fetch world key) fs world _
  frames _ _ _ := .beside rfl

/-- That cache, once it is reconciled. -/
def openLibrary : Library := ((Cache.fresh [] (7, [])).reconcile Asset.Memory.store "1").2

/-- A bench over that source at which nothing was done yet. -/
def freshRoom : Bench Library := .new (.empty ⟨0, 0⟩) (.fresh [] (7, []))

/-- Tools that are late: their own module has come from the source by the time that they are stopped,
    but is not stored yet. -/
def latecomers : Toolchain Library where
  run _ tool _ _ fs world :=
    (.running, fs, (world.fetchUntil Asset.Memory.store (recorded almanac)
      ("/toolchain/" ++ tool.name ++ ".wasm") .keeping).getD world)

/-- How often the source has answered for a key, after visits to a bench with these tools. -/
def answersAfter (tools : Toolchain Library) (visits : List Bench.Visit) (key : String) :
    Option Nat :=
  (freshRoom.attendAll { readingRoom with toolchain := tools } visits).getLast?.map
    fun t => (t.after.world.source.2.answers key).length

end Workbench
