import Workbench.Command.Program
import Workbench.Proofs.FormatRuns

set_option autoImplicit false

/-! # The command that formats a file

Whatever the formatter does in the scratch directory, the file of the user is replaced by what the
formatter has left only if it was content, and stays as it is otherwise. Equipping a bench, holding
the session and cleaning up afterwards leave the file alone, since it was there before the scratch
directory was made; and the file is replaced in one step at the end. -/

namespace Workbench.Command

open Host (Disk Job)
open FileSystem (Reachable)

variable {α : Type} {around : Surroundings} {s : Settings} {a b : Scene} {root : String}

/-! ## What commands do beside the scratch directory -/

/-- The host is as before beside a directory. -/
def Beside (root : String) (a b : Scene) : Prop := Job.Sparing root a.disk b.disk

instance : IsPreorder Scene (Beside root) where
  refl a := refl_of (Job.Sparing root) a.disk
  trans _ _ _ h h' := trans_of (Job.Sparing root) h h'

theorem resultOf_onDisk (job : Job α) (a : Scene) :
    resultOf (onDisk job) a = ((resultOf job a.disk).1.mapError .failed,
      { a with disk := (resultOf job a.disk).2 }) := by
  have hget : resultOf (get : Act Scene) a = (.ok a, a) := rfl
  rw [onDisk, resultOf_bind, hget, goOnWith]
  have hrun : job.run a.disk = resultOf job a.disk := rfl
  rw [hrun]
  rcases resultOf job a.disk with ⟨e | answer, d⟩ <;> rfl

theorem beside_onDisk {job : Job α} (h : Leads (Job.Sparing root) job) :
    Leads (Beside root) (onDisk job) := by
  intro a
  rw [resultOf_onDisk]
  exact h a.disk

theorem leads_fail (cause : Host.Error) : Leads (Beside root) (fail cause : Act α) := leads_throw _

/-! ## Equipping a bench -/

/-- The tools of the host that a bench is equipped with. -/
def toolsOf (around : Surroundings) (s : Settings) : HostToolchain Station :=
  ⟨around.launcher, s.goBinary, ⟨around.scratchRoot, Station.diskPart⟩⟩

theorem lawful_diskPart : Station.diskPart.Lawful := ⟨fun _ _ => rfl⟩

theorem beside_findSupport (hl : around.launcher.Confined root) :
    Leads (Beside root) (findSupport around s) := by
  refine .bind_get fun a => ?_
  have hlaunched := hl ⟨s.goBinary, ["env", "GOROOT"], none, [], Host.Launch.unlimited⟩ a.disk
  rcases hlaunch : around.launcher.launch
      ⟨s.goBinary, ["env", "GOROOT"], none, [], Host.Launch.unlimited⟩ a.disk with
    ⟨e | ⟨f | -⟩, d⟩ <;> rw [hlaunch] at hlaunched <;> exact hlaunched

theorem beside_source : Leads (Beside root) (source around s) := by
  unfold source
  split_ifs
  · split
    · exact leads_pure _
    · exact leads_fail _
  · exact leads_pure _

theorem beside_depot : Leads (Beside root) (depot around s) := by
  unfold depot
  split
  · next dir _ =>
    exact (beside_onDisk ((Job.paves_makeDirs dir).sparing root)).bind fun _ =>
      beside_source.bind fun _ => leads_pure _
  · exact beside_source.bind fun _ => leads_pure _

theorem beside_equip (hl : around.launcher.Confined root) :
    Leads (Beside root) (equip around s) := by
  unfold equip
  exact (beside_findSupport hl).bind fun _ => beside_depot.bind fun _ =>
    (beside_onDisk ((Job.paves_makeDir _).sparing root)).bind fun _ => leads_pure _

theorem of_yields_equip {gear : Equipment Station} (h : Yields (equip around s) a gear b) :
    gear.config = s.bench ∧ gear.toolchain = (toolsOf around s).toolchain := by
  unfold equip at h
  simp only [yields_bind_iff, yields_pure_iff] at h
  obtain ⟨-, -, -, -, -, -, -, -, -, rfl, -⟩ := h
  exact ⟨rfl, rfl⟩

/-- The scene after the scratch directory was removed. -/
def tidied (around : Surroundings) (a : Scene) : Scene :=
  { a with disk := (resultOf (Job.removeTree around.scratchRoot) a.disk).2 }

theorem resultOf_equipped (use : Equipment Station → Act Unit) (a : Scene) :
    resultOf (equipped around s use) a =
      match resultOf (equip around s) a with
      | (.error e, b) => (.error e, b)
      | (.ok gear, b) => ((resultOf (use gear) b).1, tidied around (resultOf (use gear) b).2) := by
  have hcleanUp : ∀ b, resultOf (onDisk (Job.attempt (Job.removeTree around.scratchRoot))) b =
      (.ok (), tidied around b) := by
    intro b
    rw [resultOf_onDisk, Job.attempt, resultOf_tryCatch, tidied]
    rcases resultOf (Job.removeTree around.scratchRoot) b.disk with ⟨e | ⟨⟩, d⟩ <;> rfl
  rw [equipped, resultOf_bind]
  rcases resultOf (equip around s) a with ⟨e | gear, b⟩
  · rfl
  · show _ = ((resultOf (use gear) b).1, tidied around (resultOf (use gear) b).2)
    rw [goOnWith, resultOf_bind, resultOf_tryCatch]
    rcases resultOf (use gear) b with ⟨e | ⟨⟩, c⟩
    · rw [recoverWith, resultOf_bind, hcleanUp]
      rfl
    · rw [recoverWith, goOnWith, hcleanUp]

/-! ## Formatting -/

/-- Write the text that a file was formatted to back, or print it. -/
def deliver (file : String) (rewrites : Bool) (source text : String) : Act Unit :=
  if rewrites then
    if text ≠ source then onDisk (Job.replaceFile file text.toUTF8) else return
  else write (·.print text)

/-- What is done with the bench once it is equipped. -/
def formatWith (around : Surroundings) (file : String) (rewrites verbose : Bool) (source : String)
    (gear : Equipment Station) : Act Unit := do
  let (answer, _) ← request around verbose gear (← freshBench around) (.format source)
  let session ← sessionOf answer
  judge session.outcome
  deliver file rewrites source session.source

theorem format_eq (around : Surroundings) (s : Settings) (file : String) (rewrites verbose : Bool) :
    format around s file rewrites verbose = (do
      let source ← onDisk (Job.ask (·.readText file))
      equipped around s (formatWith around file rewrites verbose source)) := rfl

theorem resultOf_request (around : Surroundings) (verbose : Bool) (gear : Equipment Station)
    (bench : Bench Station) (r : Request) (a : Scene) :
    resultOf (request around verbose gear bench r) a =
      match bench.serveAt gear around.time r with
      | none => (.error (.broken noDeadline), a)
      | some (result, events, later) =>
        ((result.map fun answer => (answer, later)).mapError
            fun e => .failed (.custom .other e.message),
          ⟨later.world.disk, events.foldl (Terminal.display verbose) a.terminal⟩) := by
  rcases hserve : bench.serveAt gear around.time r with _ | ⟨e | answer, events, later⟩ <;>
    simp only [request, hserve] <;> rfl

/-- The session that a command calls for to format a source. -/
def sessionAt (around : Surroundings) (gear : Equipment Station) (source : String) (a : Scene) :
    Option (Except Session.Error Session × Session.Draft Station) :=
  Session.call gear.workshop .format none source around.time (.empty ⟨around.time, 0⟩)
    ⟨a.disk, [], false⟩

/-- A bench at which nothing was done yet is not busy, and holds the session. -/
theorem serveAt_new_format (gear : Equipment Station) (source : String) (a : Scene) :
    Bench.serveAt gear (.new (.empty ⟨around.time, 0⟩) ⟨a.disk, [], false⟩) around.time
        (.format source) =
      (sessionAt around gear source a).map fun held => (held.1.map .session, held.2.gate.passed,
        (Bench.new (.empty ⟨around.time, 0⟩) ⟨a.disk, [], false⟩).afterSession held.2) := by
  show (if (Session.deadline? gear.workshop.config around.time).isNone then none else some _) =
    ((Session.deadline? gear.workshop.config around.time).map _).map _
  cases Session.deadline? gear.workshop.config around.time <;> rfl

/-- The scene after a session. -/
def afterwards (verbose : Bool) (a : Scene) (d : Session.Draft Station) : Scene :=
  ⟨d.world.disk, d.gate.passed.foldl (Terminal.display verbose) a.terminal⟩

theorem resultOf_formatWith (file : String) (rewrites verbose : Bool) (source : String)
    (gear : Equipment Station) (a : Scene) :
    resultOf (formatWith around file rewrites verbose source gear) a =
      match sessionAt around gear source a with
      | none => (.error (.broken noDeadline), a)
      | some (.error e, d) =>
        (.error (.failed (.custom .other e.message)), afterwards verbose a d)
      | some (.ok session, d) => goOnWith (fun _ => deliver file rewrites source session.source)
          (resultOf (judge session.outcome) (afterwards verbose a d)) := by
  have hfresh : resultOf (freshBench around) a =
      (.ok (.new (.empty ⟨around.time, 0⟩) ⟨a.disk, [], false⟩), a) := rfl
  rw [formatWith, resultOf_bind, hfresh, goOnWith, resultOf_bind, resultOf_request,
    serveAt_new_format]
  rcases sessionAt around gear source a with _ | ⟨e | session, d⟩
  · rfl
  · rfl
  · have hsession : resultOf (sessionOf (.session session)) (afterwards verbose a d) =
        (.ok session, afterwards verbose a d) := rfl
    show resultOf (sessionOf (.session session) >>= fun session => judge session.outcome >>=
      fun _ => deliver file rewrites source session.source) (afterwards verbose a d) = _
    rw [resultOf_bind, hsession, goOnWith, resultOf_bind]

/-! ## The file of the user -/

theorem read_of_readText {d : Disk} {file text : String} (h : d.readText file = .ok text) :
    d.read file = .ok text.toUTF8 := by
  obtain ⟨bytes, hread, h⟩ := bind_eq_ok_iff.1 h
  cases htext : Text.ofUtf8? bytes with
  | none =>
    rw [htext] at h
    cases h
  | some content =>
    rw [htext] at h
    cases h
    rw [hread, Text.ofUtf8?_eq_some_iff.1 htext]

section

variable {file : String} {source : String}

/-- A bench on which nothing has been done yet, with a directory that may be made. -/
structure Unscratched (root : String) (d : Disk) : Prop where
  grounded : d.Grounded
  free : d.shapeAt (d.placeOf root) = none

theorem Unscratched.away {d : Disk} (h : Unscratched root d) : ¬ d.placeOf root <+: d.cwd := by
  refine Disk.Spared.beside_of_shapeAt (by rw [h.free]; nofun) ?_ ?_
  · intro heq
    have hcwd := h.grounded
    rw [Disk.Grounded, heq, h.free] at hcwd
    cases hcwd
  · rw [h.grounded]
    rfl

theorem Unscratched.spared {d d' : Disk} (h : Unscratched root d) (h' : Job.Sparing root d d') :
    Disk.Spared (d.placeOf root) d d' :=
  h' h.grounded h.away

theorem Unscratched.read {d d' : Disk} (h : Unscratched root d) (h' : Job.Sparing root d d')
    {bytes : ByteArray} (hread : d.read file = .ok bytes) :
    Disk.Housed d d' ∧ d'.read file = .ok bytes := by
  have hroot : d.shapeAt (d.placeOf root) ≠ some .dir := by
    rw [h.free]
    nofun
  have hspared := h.spared h'
  refine ⟨hspared.housed hroot, hspared.read hroot hread fun heq => ?_⟩
  have hfile := Disk.shapeAt_of_read hread
  rw [heq, h.free] at hfile
  cases hfile

/-- Tidying up leaves the file as it is. -/
theorem read_tidied (h : Unscratched around.scratchRoot a.disk) {old data : ByteArray}
    (hread : a.disk.read file = .ok old) (hhoused : Disk.Housed a.disk b.disk)
    (hdata : b.disk.read file = .ok data) : (tidied around b).disk.read file = .ok data := by
  have hroot : a.disk.shapeAt (a.disk.placeOf around.scratchRoot) ≠ some .dir := by
    rw [h.free]
    nofun
  have haway := h.away
  rw [← hhoused.cwd, ← hhoused.placeOf] at haway
  have hspared : Disk.Spared (a.disk.placeOf around.scratchRoot) b.disk (tidied around b).disk := by
    rw [← hhoused.placeOf]
    exact Job.sparing_removeTree around.scratchRoot b.disk (hhoused.grounded h.grounded) haway
  -- what is on the way to the file was there before the scratch directory
  have hbeside : ¬ a.disk.placeOf around.scratchRoot <+: a.disk.placeOf file := by
    refine Disk.Spared.beside_of_shapeAt hroot ?_ (by rw [Disk.shapeAt_of_read hread]; rfl)
    intro heq
    have hfile := Disk.shapeAt_of_read hread
    rw [heq, h.free] at hfile
    cases hfile
  refine (hhoused.spared hspared hroot).read hread (hspared.kept hbeside ?_)
  rw [← hhoused.placeOf]
  exact Disk.shapeAt_of_read hdata

/-- What is delivered is in the file or printed; what is not leaves the file as it is. -/
theorem delivered (hb : b.disk.Grounded) (text : String)
    (hread : b.disk.read file = .ok source.toUTF8) (rewrites : Bool) :
    let result := resultOf (deliver file rewrites source text) b
    Disk.Housed b.disk result.2.disk ∧
      ((∃ stop, result.1 = .error stop ∧ result.2.disk.read file = .ok source.toUTF8) ∨
        result.1 = .ok () ∧
          result.2.disk.read file = .ok (if rewrites then text else source).toUTF8 ∧
          (rewrites = false → result.2.terminal.stdout = b.terminal.stdout ++ text)) := by
  have hrefl : Disk.Housed b.disk b.disk := ⟨rfl, fun _ => id⟩
  cases rewrites with
  | false => exact ⟨hrefl, Or.inr ⟨rfl, hread, fun _ => rfl⟩⟩
  | true =>
    by_cases hsame : text = source
    · subst hsame
      have hnothing : deliver file true text text = pure () := by simp [deliver]
      rw [hnothing]
      exact ⟨hrefl, Or.inr ⟨rfl, hread, nofun⟩⟩
    · have hreplace : deliver file true source text =
          onDisk (Job.replaceFile file text.toUTF8) := by simp [deliver, hsame]
      have hreplaced := Job.replaced hb hread text.toUTF8
      rw [hreplace, resultOf_onDisk]
      rcases hresult : resultOf (Job.replaceFile file text.toUTF8) b.disk with ⟨e | ⟨⟩, d⟩ <;>
        rw [hresult] at hreplaced
      · exact ⟨hreplaced.1, Or.inl ⟨_, rfl, hreplaced.2⟩⟩
      · exact ⟨hreplaced.1, Or.inr ⟨rfl, hreplaced.2, nofun⟩⟩

/-- What has come of formatting a file: it was replaced or printed by what the formatter has made of
    it, which was content, or it is as before. -/
def Formatted (around : Surroundings) (s : Settings) (file source : String) (rewrites : Bool)
    (result : Except Stop Unit × Scene) : Prop :=
  (∃ stop, result.1 = .error stop ∧ result.2.disk.read file = .ok source.toUTF8) ∨
    result.1 = .ok () ∧ ∃ text p name before after f, Path.parse s.bench.sourcePath = .ok p ∧
      (toolsOf around s).Approved p (1000 * s.bench.timeoutSeconds) source.toUTF8 text.toUTF8 name
        before after f ∧
      result.2.disk.read file = .ok (if rewrites then text else source).toUTF8 ∧
      (rewrites = false → ∃ said, result.2.terminal.stdout = said ++ text)

/-- The session spares the file, and its text is what the formatter has made of the source. -/
theorem sessionAt_settled (hl : around.launcher.Confined around.scratchRoot)
    {gear : Equipment Station} (htools : gear.workshop.toolchain = (toolsOf around s).toolchain)
    (habs : Path.isAbsolute gear.workshop.config.workDir = true) (hb : b.disk.Grounded)
    {result : Except Session.Error Session} {d : Session.Draft Station}
    (hheld : sessionAt around gear source b = some (result, d)) :
    Session.SparedBy (toolsOf around s) ⟨b.disk, [], false⟩ d ∧
      ∀ session, result = .ok session →
        Session.Settled (toolsOf around s) gear.workshop source
          (1000 * gear.workshop.config.timeoutSeconds) session.source session.outcome := by
  have hfs : Reachable (.empty ⟨around.time, 0⟩) := .new _
  have hgrounded : ((toolsOf around s).scratch.disk.get ⟨b.disk, [], false⟩).Grounded := hb
  have hlawful : (toolsOf around s).scratch.disk.Lawful := lawful_diskPart
  have hconfined : (toolsOf around s).launcher.Confined (toolsOf around s).scratch.root := hl
  have hsettled := Session.perform_format hlawful hconfined htools habs hgrounded hfs source
  have hperform : Session.perform gear.workshop none source (.empty ⟨around.time, 0⟩)
      ⟨b.disk, [], false⟩ = (result, d) := by
    rcases Session.call_cases gear.workshop .format none source around.time (.empty ⟨around.time, 0⟩)
      (⟨b.disk, [], false⟩ : Station) with ⟨-, hbroken⟩ | ⟨-, hcalled⟩
    · cases hbroken.symm.trans hheld
    · exact Option.some.inj (hcalled.symm.trans hheld)
  rw [hperform] at hsettled
  exact hsettled

/-- With a bench that is equipped, a file is formatted or stays as it is. -/
theorem formatWith_formatted (hl : around.launcher.Confined around.scratchRoot)
    (habs : Path.isAbsolute s.bench.workDir = true) {gear : Equipment Station}
    (hconfig : gear.workshop.config = s.bench)
    (htools : gear.workshop.toolchain = (toolsOf around s).toolchain)
    (h : Unscratched around.scratchRoot a.disk) (hread : a.disk.read file = .ok source.toUTF8)
    (hb : Beside around.scratchRoot a b) (rewrites verbose : Bool) :
    let result := resultOf (formatWith around file rewrites verbose source gear) b
    Disk.Housed a.disk result.2.disk ∧ Formatted around s file source rewrites result := by
  have habsolute : Path.isAbsolute gear.workshop.config.workDir = true := by
    rw [hconfig]
    exact habs
  have hbefore := h.read hb hread
  rw [resultOf_formatWith]
  cases hheld : sessionAt around gear source b with
  | none => exact ⟨hbefore.1, Or.inl ⟨_, rfl, hbefore.2⟩⟩
  | some held =>
  obtain ⟨answer, d⟩ := held
  obtain ⟨hspared, hsettled⟩ :=
    sessionAt_settled hl htools habsolute (hbefore.1.grounded h.grounded) hheld
  rw [hconfig] at hsettled
  -- before anything is delivered, all is as before beside the scratch directory
  have hlater : Beside around.scratchRoot b (afterwards verbose b d) := hspared
  obtain ⟨hhoused, hkept⟩ := h.read (trans_of (Beside around.scratchRoot) hb hlater) hread
  rcases answer with e | session
  · exact ⟨hhoused, Or.inl ⟨_, rfl, hkept⟩⟩
  dsimp only at hhoused hkept ⊢
  generalize afterwards verbose b d = c at hhoused hkept ⊢
  have hrefused : ∀ e, resultOf (judge session.outcome) c = (.error e, c) →
      let result := goOnWith (fun _ => deliver file rewrites source session.source)
        (resultOf (judge session.outcome) c)
      Disk.Housed a.disk result.2.disk ∧ Formatted around s file source rewrites result := by
    intro e hjudge
    rw [hjudge]
    exact ⟨hhoused, Or.inl ⟨e, rfl, hkept⟩⟩
  rcases hsettled session rfl with ⟨failure, hfailed⟩ | hlate | ⟨hformatted, hmade⟩
  · exact hrefused _ (by rw [hfailed]; rfl)
  · exact hrefused _ (by rw [hlate]; rfl)
  · have hjudge : resultOf (judge session.outcome) c = (.ok (), c) := by
      rw [hformatted]
      rfl
    rw [hjudge]
    obtain ⟨p, name, before, after, f, hp, happroved⟩ := hmade
    obtain ⟨hthen, hdelivered⟩ :=
      delivered (hhoused.grounded h.grounded) session.source hkept rewrites
    refine ⟨hhoused.trans hthen, hdelivered.imp_right ?_⟩
    rintro ⟨hok, hfile, hprinted⟩
    exact ⟨hok, session.source, p, name, before, after, f, hconfig ▸ hp, happroved, hfile,
      fun hprints => ⟨_, hprinted hprints⟩⟩

/-- Whatever comes of formatting a file, if it is no text it stays as it is. -/
theorem format_formatted (hl : around.launcher.Confined around.scratchRoot)
    (habs : Path.isAbsolute s.bench.workDir = true) (h : Unscratched around.scratchRoot a.disk)
    (file : String) (rewrites verbose : Bool) :
    let result := resultOf (format around s file rewrites verbose) a
    (∃ stop, result = (.error stop, a)) ∨ ∃ source, a.disk.readText file = .ok source ∧
      Formatted around s file source rewrites result := by
  rw [format_eq, resultOf_bind, resultOf_onDisk, Job.resultOf_ask]
  dsimp only
  cases htext : a.disk.readText file with
  | error e => exact Or.inl ⟨.failed e, rfl⟩
  | ok source =>
  refine Or.inr ⟨source, rfl, ?_⟩
  have hread : a.disk.read file = .ok source.toUTF8 := read_of_readText htext
  simp only [Except.mapError, goOnWith]
  rw [resultOf_equipped]
  have hequipped := beside_equip (s := s) hl a
  rcases hequip : resultOf (equip around s) a with ⟨e | gear, b⟩ <;> rw [hequip] at hequipped
  · exact Or.inl ⟨e, rfl, (h.read hequipped hread).2⟩
  obtain ⟨hconfig, htools⟩ := of_yields_equip hequip
  obtain ⟨hhoused, hformatted⟩ :=
    formatWith_formatted hl habs hconfig htools h hread hequipped rewrites verbose
  dsimp only at hhoused hformatted ⊢
  generalize resultOf (formatWith around file rewrites verbose source gear) b = result
    at hhoused hformatted ⊢
  have htidied : ∀ {data : ByteArray}, result.2.disk.read file = .ok data →
      (tidied around result.2).disk.read file = .ok data :=
    fun hdata => read_tidied h hread hhoused hdata
  rcases hformatted with ⟨e, he, hkept⟩ |
    ⟨hok, text, p, name, before, after, f, hp, happroved, hfile, hprinted⟩
  · exact Or.inl ⟨e, he, htidied hkept⟩
  · exact Or.inr ⟨hok, text, p, name, before, after, f, hp, happroved, htidied hfile, hprinted⟩

end

/-! ## The whole command -/

/-- The settings that hold for an invocation on a disk. -/
def settingsOf (i : Invocation) (d : Disk) : Except Host.Error Settings := do
  let s ← Settings.load d i.configFile
  let overrides ← i.overrides
  match s.setAll overrides with
  | (s, none) => .ok s
  | (_, some e) => .error e

theorem resultOf_gather (i : Invocation) (a : Scene) :
    resultOf (gather i) a = ((settingsOf i a.disk).mapError .failed, a) := by
  rw [gather, resultOf_bind, resultOf_onDisk, Job.resultOf_ask]
  dsimp only
  unfold settingsOf
  rcases Settings.load a.disk i.configFile with e | s
  · rfl
  rcases i.overrides with e | overrides
  · rfl
  show resultOf (match s.setAll overrides with
    | (s, none) => return s
    | (_, some e) => fail e) a = (Except.mapError .failed (match s.setAll overrides with
    | (s, none) => .ok s
    | (_, some e) => .error e), a)
  rcases s.setAll overrides with ⟨s, _ | e⟩ <;> rfl

/-- A program whose command has stopped does not succeed, and does nothing more. -/
theorem stopped_spec (scene : Scene) (stop : Stop) :
    (stopped scene stop).status ≠ 0 ∧ (stopped scene stop).scene.disk = scene.disk := by
  cases stop with
  | failed cause => exact ⟨Nat.succ_ne_zero 0, rfl⟩
  | broken words => exact ⟨Nat.succ_ne_zero 100, rfl⟩

/-- A file that is to be formatted is damaged by no formatter: the program succeeds only if the file
    was text and the formatter was content with it, and then the file is rewritten or the text is
    printed; otherwise the file is as it was. -/
theorem runProgram_format (around : Surroundings) {words : List String} {i : Invocation}
    {file : String} {rewrites : Bool} {disk : Disk} (hwords : Invocation.ofWords words = .ok i)
    (haction : i.action = .format file rewrites)
    (habs : ∀ s, settingsOf i disk = .ok s → Path.isAbsolute s.bench.workDir = true)
    (hroot : Unscratched around.scratchRoot disk)
    (hl : around.launcher.Confined around.scratchRoot) :
    let exit := runProgram around words disk
    exit.status ≠ 0 ∧ exit.scene.disk.read file = disk.read file ∨
      exit.status = 0 ∧ ∃ s source text p name before after f, settingsOf i disk = .ok s ∧
        disk.readText file = .ok source ∧ Path.parse s.bench.sourcePath = .ok p ∧
        (toolsOf around s).Approved p (1000 * s.bench.timeoutSeconds) source.toUTF8 text.toUTF8
          name before after f ∧
        exit.scene.disk.read file = .ok (if rewrites then text else source).toUTF8 ∧
        (rewrites = false → ∃ said, exit.scene.terminal.stdout = said ++ text) := by
  intro exit
  have hexit : exit = match resultOf (perform around i) ⟨disk, .blank⟩ with
      | (.ok (), scene) => ⟨0, scene⟩
      | (.error stop, scene) => stopped scene stop := by
    show runProgram around words disk = _
    simp only [runProgram, hwords]
    rfl
  rw [perform, resultOf_bind, resultOf_gather] at hexit
  cases hsettings : settingsOf i disk with
  | error e =>
    rw [hsettings] at hexit
    rw [hexit]
    exact Or.inl ⟨Nat.one_ne_zero, rfl⟩
  | ok s =>
  simp only [hsettings, Except.mapError, goOnWith, haction] at hexit
  have hformat := format_formatted (a := ⟨disk, .blank⟩) hl (habs s hsettings) hroot file rewrites
    i.verbose
  generalize resultOf (format around s file rewrites i.verbose) ⟨disk, .blank⟩ = result
    at hexit hformat
  rcases hformat with ⟨stop, rfl⟩ | ⟨source, htext, hformatted⟩
  · obtain ⟨hstatus, hdisk⟩ := stopped_spec ⟨disk, .blank⟩ stop
    rw [hexit]
    exact Or.inl ⟨hstatus, congrArg (Disk.read · file) hdisk⟩
  have hread : disk.read file = .ok source.toUTF8 := read_of_readText htext
  obtain ⟨answer, scene⟩ := result
  rcases hformatted with ⟨stop, rfl, hkept⟩ |
    ⟨rfl, text, p, name, before, after, f, hp, happroved, hfile, hprinted⟩
  · obtain ⟨hstatus, hdisk⟩ := stopped_spec scene stop
    rw [hexit, hread]
    exact Or.inl ⟨hstatus, (congrArg (Disk.read · file) hdisk).trans hkept⟩
  · rw [hexit]
    exact Or.inr ⟨rfl, s, source, text, p, name, before, after, f, rfl, htext, hp, happroved, hfile,
      hprinted⟩

/-- The scratch directory of a bench, and the file in it that is formatted. -/
def scrap : FileSystem.Scratch Station := ⟨"/scratch", Station.diskPart⟩

def scrapFile : Path := ⟨["tmp", "main.go"], false, by decide, nofun⟩

/-- A formatter that writes `x` whatever it is given, and has something to say about it. -/
def scrawler (said : String) : Host.Launcher where
  launch request d :=
    if request.args.head? = some "-w" then
      (.ok (.finished ⟨.exited 0, .empty, said.toUTF8, 1⟩),
        (resultOf (Job.install (scrap.hostPath scrapFile) (some "x".toUTF8) Disk.fileMode) d).2)
    else (.error (.system .noEntry), d)

theorem confined_scrawler (said : String) : (scrawler said).Confined "/scratch" := by
  intro request d
  unfold scrawler
  dsimp only
  split_ifs
  · exact HostToolchain.sparing_install (t := ⟨scrawler said, "go", scrap⟩) scrapFile _ d
  · exact refl_of (Job.Sparing _) d

/-- A desk with that formatter, and a disk with a file. -/
def desk (said : String) : Surroundings := ⟨scrawler said, fun _ => .error "", 0, "/scratch"⟩

def papers : Disk := Disk.empty.put ["main.go"] (.file "a".toUTF8 Disk.fileMode)

theorem unscratched_papers : Unscratched "/scratch" papers :=
  ⟨rfl, rfl⟩

/-- The command that formats that file. -/
def rewriting : Invocation := ⟨none, [], false, .format "main.go" true⟩

theorem isAbsolute_rewriting (s : Settings) (h : settingsOf rewriting papers = .ok s) :
    Path.isAbsolute s.bench.workDir = true := by
  have hplace : (settingsOf rewriting papers).toOption.map (·.bench.workDir) = some "/tmp" := by
    decide +kernel
  rw [h] at hplace
  have hdir : s.bench.workDir = "/tmp" := Option.some.inj hplace
  rw [hdir]
  decide

/-- A formatter that says nothing is believed. -/
theorem runProgram_format_scrawled : ∃ s source, ∃ text : String, ∃ p name before after f,
    settingsOf rewriting papers = .ok s ∧ papers.readText "main.go" = .ok source ∧
    Path.parse s.bench.sourcePath = .ok p ∧
    (toolsOf (desk "") s).Approved p (1000 * s.bench.timeoutSeconds) source.toUTF8 text.toUTF8
      name before after f ∧
    (runProgram (desk "") ["fmt", "-w", "main.go"] papers).scene.disk.read "main.go" =
      .ok text.toUTF8 := by
  have hwords : Invocation.ofWords ["fmt", "-w", "main.go"] = .ok rewriting := by decide +kernel
  have hstatus : (runProgram (desk "") ["fmt", "-w", "main.go"] papers).status = 0 := by
    decide +kernel
  rcases runProgram_format (desk "") hwords rfl isAbsolute_rewriting unscratched_papers
    (confined_scrawler "") with ⟨hfailed, -⟩ | ⟨-, hformatted⟩
  · exact absurd hstatus hfailed
  · obtain ⟨s, source, text, p, name, before, after, f, hs, hsource, hp, happroved, hfile, -⟩ :=
      hformatted
    exact ⟨s, source, text, p, name, before, after, f, hs, hsource, hp, happroved, hfile⟩

/-- A formatter that names nothing but the scratch directory is believed as well, though what it has
    said is not blank. -/
theorem runProgram_overlooks_root :
    (desk "/scratch\n").launcher.Confined "/scratch" ∧ Unscratched "/scratch" papers ∧
    Invocation.ofWords ["fmt", "-w", "main.go"] = .ok rewriting ∧
    (∀ s, settingsOf rewriting papers = .ok s → Path.isAbsolute s.bench.workDir = true) ∧
    (∀ request d f, ((desk "/scratch\n").launcher.launch request d).1 = .ok (.finished f) →
      Text.trim (Text.ofUtf8Lossy f.stderr).toList ≠ []) ∧
    (runProgram (desk "/scratch\n") ["fmt", "-w", "main.go"] papers).status = 0 ∧
    (runProgram (desk "/scratch\n") ["fmt", "-w", "main.go"] papers).scene.disk.read "main.go" ≠
      papers.read "main.go" := by
  refine ⟨confined_scrawler _, unscratched_papers, by decide +kernel, isAbsolute_rewriting, ?_,
    by decide +kernel, ?_⟩
  · intro request d f hlaunch
    unfold desk scrawler at hlaunch
    dsimp only at hlaunch
    split_ifs at hlaunch
    cases hlaunch
    rw [Text.ofUtf8Lossy_toUTF8]
    decide
  · intro hsame
    have hread : ((runProgram (desk "/scratch\n") ["fmt", "-w", "main.go"] papers).scene.disk.read
        "main.go").toOption ≠ (papers.read "main.go").toOption := by
      decide +kernel
    exact hread (congrArg _ hsame)

end Workbench.Command
