import Workbench.Bench
import Workbench.Proofs.ScratchCopies
import Workbench.Proofs.Steps

set_option autoImplicit false

/-! # Sessions that draw on assets

A session changes the world by its tools, its frame and the file that it reads back. Where these do
no more to the assets than fetch some, so does the session, wherever it stops or is left. -/

namespace Workbench

variable {World Assets : Type}

/-- One world has come of another where assets were fetched, or fetches were left that had come to wait
    but wrote nothing, and where what is beside the assets may have changed. -/
inductive Depot.Drawn (p : Depot World) (assets : Part World Assets) : World → World → Prop where
  | beside {world world' : World} : assets.get world' = assets.get world →
      Drawn p assets world world'
  | fetch (world : World) (key : String) : Drawn p assets world (p.fetch world key).2
  | left {world world' : World} {key : String} {pause : Asset.Cache.Pause} : pause.writes = false →
      p.fetchUntil world key pause = some world' → Drawn p assets world world'
  | trans {world world' world'' : World} : Drawn p assets world world' →
      Drawn p assets world' world'' → Drawn p assets world world''

open Depot (Drawn)

variable {p : Depot World} {assets : Part World Assets}

instance : IsPreorder World (Drawn p assets) where
  refl _ := .beside rfl
  trans _ _ _ := .trans

/-- Reading a file follows where fetching leads. -/
theorem FileSystem.follows_readAll {R : World → World → Prop} [IsPreorder World R]
    {mount : Option (Asset.Mount World)}
    (h : ∀ m, mount = some m → ∀ world key, R world (m.fetch world key).2) (fs : FileSystem)
    (world : World) (path : String) : R world (fs.readAll mount world path).2.2 := by
  rcases world_withFetched mount fs world path readLocal with hsame | ⟨m, key, hm, hfetched⟩
  · rw [show (fs.readAll mount world path).2.2 = world from hsame]
    exact refl_of R world
  · rw [show (fs.readAll mount world path).2.2 = _ from hfetched]
    exact h m hm world key

namespace Session

/-- The worlds of two drafts are related. -/
def Worldly (R : World → World → Prop) (d d' : Draft World) : Prop := R d.world d'.world

instance (R : World → World → Prop) [IsPreorder World R] :
    IsPreorder (Draft World) (Worldly R) where
  refl d := refl_of R d.world
  trans _ _ _ := trans_of R

/-- Whatever fetches, runs a tool or makes a frame in a session leads along a relation. -/
structure Workshop.Follows (w : Workshop World) (R : World → World → Prop) : Prop where
  fetch : ∀ m, w.mount = some m → ∀ world key, R world (m.fetch world key).2
  run : ∀ tool args patience fs world,
    R world (w.toolchain.run w.mount tool args patience fs world).2.2
  create : ∀ module loader world, R world (w.frames.create module loader world).2

section

variable {R : World → World → Prop} [IsPreorder World R] {w : Workshop World} {α : Type}

theorem leads_modify {f : Draft World → Draft World} (h : ∀ d, (f d).world = d.world) :
    Leads (Worldly R) (modify f : Step World PUnit) := by
  intro d
  show R d.world (f d).world
  rw [h]
  exact refl_of R d.world

theorem leads_emit (event : Event) : Leads (Worldly R) (emit event : Step World Unit) :=
  leads_modify fun _ => rfl

theorem leads_moveTo (state : State) : Leads (Worldly R) (moveTo state : Step World Unit) :=
  leads_modify fun _ => rfl

theorem leads_clearOutput : Leads (Worldly R)
    (modify fun d => { d with fs := d.fs.clearOutput } : Step World PUnit) :=
  leads_modify fun _ => rfl

theorem leads_change (act : FileSystem → Except FileSystem.Error Unit × FileSystem) :
    Leads (Worldly R) (change act : Step World Unit) := by
  refine .bind_get fun d => ?_
  rcases act d.fs with ⟨e | ⟨⟩, fs⟩ <;> exact refl_of R d.world

theorem leads_readFile (h : w.Follows R) (path : String) : Leads (Worldly R) (readFile w path) :=
  .bind_get fun d => FileSystem.follows_readAll h.fetch d.fs d.world path

omit [IsPreorder World R] in
theorem leads_runTool (h : w.Follows R) (tool : Tool) (args : List String) :
    Leads (Worldly R) (runTool w tool args) := by
  refine .bind_get fun d => ?_
  have hran := h.run tool args d.patience d.fs d.world
  rcases hrun : w.toolchain.run w.mount tool args d.patience d.fs d.world with ⟨run, fs, world⟩
  rw [hrun] at hran
  cases run <;> exact hran

theorem leads_gatherOutput (tool : Tool) :
    Leads (Worldly R) (gatherOutput tool : Step World String) := by
  refine .bind_get fun d => ?_
  dsimp only
  split_ifs <;> exact refl_of R d.world

theorem leads_reportFailure (tool : Tool) (failure : Option Failure) :
    Leads (Worldly R) (reportFailure tool failure : Step World Unit) := by
  cases failure with
  | none => exact leads_pure _
  | some f =>
    rw [reportFailure]
    split_ifs
    · exact leads_pure _
    · exact leads_emit _

theorem leads_invoke (h : w.Follows R) (tool : Tool) (args : List String) :
    Leads (Worldly R) (invoke w tool args) := by
  unfold invoke
  exact leads_clearOutput.bind fun _ => (leads_runTool h tool args).bind fun _ =>
    (leads_gatherOutput tool).bind fun _ => (leads_reportFailure tool _).bind fun _ => leads_pure _

theorem leads_resetWorkspace (c : Config) :
    Leads (Worldly R) (resetWorkspace c : Step World Unit) := by
  unfold resetWorkspace removeStale
  exact leads_clearOutput.bind fun _ => (leads_change _).bind fun _ =>
    (leads_change _).bind fun _ => leads_change _

theorem leads_formatStage (h : w.Follows R) : Leads (Worldly R) (formatStage w) := by
  unfold formatStage
  refine (leads_moveTo _).bind fun _ => .bind_get fun d => ?_
  refine ((leads_change _).bind fun _ => (leads_invoke h _ _).bind fun failure => ?_) d
  cases failure with
  | some f => exact leads_pure _
  | none =>
    refine (leads_readFile h _).bind fun result => ?_
    cases result with
    | error e => exact leads_throw _
    | ok bytes =>
      cases htext : Text.ofUtf8? bytes with
      | none =>
        simp only [htext]
        exact leads_pure _
      | some text =>
        simp only [htext]
        have htake : Leads (Worldly R)
            (modify fun d => { d with source := text } : Step World PUnit) :=
          leads_modify fun _ => rfl
        exact htake.bind fun _ => (leads_emit _).bind fun _ => leads_pure _

theorem leads_compileStage (h : w.Follows R) (imports : List String) (manifest : Manifest) :
    Leads (Worldly R) (compileStage w imports manifest) := by
  unfold compileStage
  refine (leads_moveTo _).bind fun _ => (leads_change _).bind fun _ =>
    (leads_invoke h _ _).bind fun failure => ?_
  cases failure with
  | some f => exact leads_pure _
  | none =>
    refine .bind_get fun d => ?_
    split_ifs <;> exact refl_of R d.world

theorem leads_linkStage (h : w.Follows R) (imports : List String) (manifest : Manifest) :
    Leads (Worldly R) (linkStage w imports manifest) := by
  unfold linkStage
  refine (leads_moveTo _).bind fun _ => (leads_change _).bind fun _ =>
    (leads_invoke h _ _).bind fun failure => ?_
  cases failure with
  | some f => exact leads_pure _
  | none =>
    refine (leads_readFile h _).bind fun result => ?_
    rcases result with (e | bytes)
    · cases e <;> first | exact leads_pure _ | exact leads_throw _
    · exact leads_pure _

theorem leads_awaitFrame (signals : Frame.Signals) :
    Leads (Worldly R) (awaitFrame signals : Step World Unit) := by
  refine .bind_get fun d => ?_
  cases signals.settled? with
  | none => exact refl_of R d.world
  | some after =>
    dsimp only
    split_ifs
    · exact refl_of R d.world
    · cases signals.outcome <;> exact refl_of R d.world

theorem leads_frameStage (h : w.Follows R) (module : ByteArray) :
    Leads (Worldly R) (frameStage w module) := by
  refine .bind_get fun d => ?_
  have hcreated := h.create module Frame.bootstrap d.world
  rcases hcreate : w.frames.create module Frame.bootstrap d.world with ⟨e | signals, world⟩ <;>
    rw [hcreate] at hcreated
  · exact hcreated
  · have hrest : Leads (Worldly R) (emit (.frameCreated module.size) >>= fun _ =>
        awaitFrame signals : Step World Unit) :=
      (leads_emit _).bind fun _ => leads_awaitFrame signals
    exact trans_of R hcreated (hrest { d with
      world := world, frames := d.frames ++ [⟨module, .ok signals⟩] })

/-- Wherever a session stops, its world has followed. -/
theorem leads_stages (h : w.Follows R) (kind : Kind) (manifest : Option Manifest) :
    Leads (Worldly R) (stages w kind manifest) := by
  unfold stages
  refine (leads_resetWorkspace _).bind fun _ => (leads_formatStage h).bind fun failure => ?_
  cases failure with
  | some f => exact leads_pure _
  | none =>
    cases manifest.filter fun _ => kind = .run with
    | none => exact leads_pure _
    | some manifest =>
      refine .bind_get fun d => ?_
      refine ((leads_compileStage h _ manifest).bind fun failure => ?_) d
      cases failure with
      | some f => exact leads_pure _
      | none =>
        refine (leads_linkStage h _ manifest).bind fun result => ?_
        cases result with
        | error f => exact leads_pure _
        | ok module => exact (leads_frameStage h module).bind fun _ => leads_pure _

/-- However a session is concluded, and also where it is left waiting, the world has followed. -/
theorem follows_perform (h : w.Follows R) (manifest : Option Manifest) (source : String)
    (fs : FileSystem) (world : World) : R world (perform w manifest source fs world).2.world := by
  have hstages := leads_stages h (kindOf manifest) manifest
    (.start (kindOf manifest) source (1000 * w.config.timeoutSeconds) fs world)
  have hperform : perform w manifest source fs world =
      conduct w (kindOf manifest) manifest source fs world := rfl
  rw [hperform]
  rcases conduct_cases w (kindOf manifest) manifest source fs world with
    ⟨outcome, d, hon, hconduct⟩ | ⟨cause, d, hon, hconduct⟩ | ⟨d, hon, hconduct⟩ <;>
    rw [hconduct] <;> rw [show resultOf _ _ = _ from hon] at hstages <;> exact hstages

/-- The same of one that is left where it waits for a tool or a frame. -/
theorem follows_untilWaiting (h : w.Follows R) {spent : Nat} {manifest : Option Manifest}
    {source : String} {fs : FileSystem} {world : World} {d : Draft World}
    (hwaits : untilWaiting w spent manifest source fs world = some d) : R world d.world := by
  have hstages := leads_stages h (kindOf manifest) manifest
    (.start (kindOf manifest) source (min spent (1000 * w.config.timeoutSeconds)) fs world)
  unfold untilWaiting at hwaits
  dsimp only at hwaits
  split at hwaits
  · next d' hrun =>
    rw [show resultOf _ _ = _ from hrun] at hstages
    cases hwaits
    exact hstages
  · cases hwaits

/-- Two worlds of a session that may be left are related as they are without the note. -/
def Noted (R : World → World → Prop) (a b : World × Bool) : Prop := R a.1 b.1

instance : IsPreorder (World × Bool) (Noted R) where
  refl a := refl_of R a.1
  trans _ _ _ := trans_of R

omit [IsPreorder World R] in
theorem follows_leaving (h : w.Follows R) {leave : World → String → Option World}
    (hleave : ∀ world key world', leave world key = some world' → R world world') :
    (w.leaving leave).Follows (Noted R) where
  fetch m hm world key := by
    obtain ⟨m', hm', rfl⟩ := Option.map_eq_some_iff.1 hm
    dsimp only
    cases hleft : leave world.1 key with
    | some left => exact hleave _ _ _ hleft
    | none => exact h.fetch m' hm' world.1 key
  run tool args patience fs world := h.run tool args patience fs world.1
  create module loader world := h.create module loader world.1

/-- And of one that is left at one of its own fetches. -/
theorem follows_untilReading (h : w.Follows R) {leave : World → String → Option World}
    (hleave : ∀ world key world', leave world key = some world' → R world world')
    {kind : Kind} {manifest : Option Manifest} {source : String} {fs : FileSystem} {world : World}
    {d : Draft World} (hwaits : untilReading w leave kind manifest source fs world = some d) :
    R world d.world := by
  have hstages := leads_stages (follows_leaving h hleave) kind manifest
    (.start kind source (1000 * w.config.timeoutSeconds) fs (world, false))
  unfold untilReading at hwaits
  dsimp only at hwaits
  split_ifs at hwaits
  cases hwaits
  exact hstages

end

end Session

end Workbench
