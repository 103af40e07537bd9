import Workbench.Proofs.Courses

set_option autoImplicit false

/-! # Runs one after the other

What an archivist has learnt in a run is known in the next one. So what holds of all runs is an
invariant of what is known, of the record, and of what has come of the runs so far, and it need only
be looked at for one run. -/

namespace Workbench.Package

open Host (Disk)

variable {World : Type}

namespace Archivist

/-- Run through several lists of targets, one after the other. -/
def runs (a : Archivist World) : List (List Target) → Progress → World →
    List (Except Host.Error Report) × Progress × World
  | [], progress, world => ([], progress, world)
  | targets :: calls, progress, world =>
    let (result, progress, world) := a.run targets progress world
    let (results, progress, world) := a.runs calls progress world
    (result :: results, progress, world)

/-- What is done in several runs of an archivist who knows of nothing at first. -/
def history (a : Archivist World) (calls : List (List Target)) (world : World) : List Deed :=
  (a.recorded.runs calls ⟨[], []⟩ (world, [])).2.2.2

variable {a : Archivist World} {calls : List (List Target)} {targets : List Target}
  {progress : Progress}

theorem runs_concat (a : Archivist World) (calls : List (List Target)) (targets : List Target)
    (progress : Progress) (world : World) :
    a.runs (calls ++ [targets]) progress world =
      ((a.runs calls progress world).1 ++
          [(a.run targets (a.runs calls progress world).2.1 (a.runs calls progress world).2.2).1],
        (a.run targets (a.runs calls progress world).2.1 (a.runs calls progress world).2.2).2) := by
  induction calls generalizing progress world with
  | nil => rfl
  | cons first calls ih =>
    rw [List.cons_append, runs]
    dsimp only
    rw [ih]
    rfl

/-- What each run keeps is kept by all of them. -/
theorem keeps_of_runs (inv : List (Except Host.Error Report) → Progress → World → Prop)
    (h : ∀ results progress world targets, inv results progress world →
      inv (results ++ [(a.run targets progress world).1]) (a.run targets progress world).2.1
        (a.run targets progress world).2.2)
    {world : World} (hstart : inv [] progress world) (calls : List (List Target)) :
    inv (a.runs calls progress world).1 (a.runs calls progress world).2.1
      (a.runs calls progress world).2.2 := by
  induction calls using List.reverseRecOn with
  | nil => exact hstart
  | append_singleton calls targets ih =>
    rw [runs_concat]
    exact h _ _ _ targets ih

/-! ## The record of all runs -/

theorem Shadows.runs {Shadow : Type} {f : World → Shadow} {b : Archivist Shadow}
    (h : Shadows f a b) (calls : List (List Target)) (progress : Progress) (world : World) :
    b.runs calls progress (f world) =
      ((a.runs calls progress world).1, (a.runs calls progress world).2.1,
        f (a.runs calls progress world).2.2) := by
  induction calls generalizing progress world with
  | nil => rfl
  | cons targets calls ih =>
    rw [Archivist.runs, h.run]
    dsimp only
    rw [ih]
    rfl

/-- What comes of several runs comes of them with their record. -/
theorem recorded_of_runs {world world' : World} {results : List (Except Host.Error Report)}
    (h : a.runs calls ⟨[], []⟩ world = (results, progress, world')) :
    a.recorded.runs calls ⟨[], []⟩ (world, []) =
      (results, progress, world', a.history calls world) := by
  have hrecorded := (shadows_recorded a).runs calls ⟨[], []⟩ (world, [])
  rw [h] at hrecorded
  obtain ⟨hresults, hrest⟩ := Prod.mk.inj hrecorded
  obtain ⟨hprogress, hworld⟩ := Prod.mk.inj hrest
  exact Prod.ext hresults.symm (Prod.ext hprogress.symm (Prod.ext hworld.symm rfl))

/-- The last of several runs, with the record of all: what it comes to from a draft that has not
    begun. -/
structure LastRun (a : Archivist World) (calls : List (List Target)) (targets : List Target)
    (world : World) (results : List (Except Host.Error Report)) (progress : Progress)
    (before after : World) (result : Except Host.Error Report) (outcome : Except Host.Error Unit)
    (d : Draft (Recorded World)) : Prop where
  past : a.recorded.runs calls ⟨[], []⟩ (world, []) =
    (results, progress, before, a.history calls world)
  course : resultOf (a.recorded.steps targets) (.fresh (before, a.history calls world) progress) =
    (outcome, d)
  comes : result = outcome.map fun _ => d.report
  ends : d.world = (after, a.history (calls ++ [targets]) world)

theorem exists_lastRun {world world₁ world₂ : World} {progress₂ : Progress}
    {results : List (Except Host.Error Report)} {result : Except Host.Error Report}
    (hcalls : a.runs calls ⟨[], []⟩ world = (results, progress, world₁))
    (hcall : a.run targets progress world₁ = (result, progress₂, world₂)) :
    ∃ outcome d,
      a.LastRun calls targets world results progress world₁ world₂ result outcome d := by
  have hpast := recorded_of_runs hcalls
  rcases hsteps : resultOf (a.recorded.steps targets)
    (.fresh (world₁, a.history calls world) progress) with ⟨outcome, d⟩
  have hlast : a.recorded.run targets progress (world₁, a.history calls world) =
      (outcome.map fun _ => d.report, d.progress, d.world) := by
    rw [run_fresh, hsteps]
  have hrun := (shadows_recorded a).run targets progress (world₁, a.history calls world)
  rw [hcall, hlast] at hrun
  obtain ⟨hresult, hrun⟩ := Prod.mk.inj hrun
  obtain ⟨-, hworld⟩ := Prod.mk.inj hrun
  have hlog : a.history (calls ++ [targets]) world = d.world.2 := by
    rw [history, runs_concat, hpast]
    exact congrArg (·.2.2.2) hlast
  exact ⟨outcome, d, hpast, hsteps, hresult, Prod.ext hworld.symm hlog.symm⟩

end Archivist

end Workbench.Package
