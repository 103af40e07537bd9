import Workbench.Session.HostToolchain
import Workbench.Proofs.ImportLines
import Workbench.Proofs.Stocking

set_option autoImplicit false

/-! # Runs of the tools of the host

Making the arguments of a tool ready copies out what they name, and names the copies instead. Then
the program is launched, and after it has ended the files that it may have written are copied back,
and what it printed is handed on. -/

namespace Workbench

open Host (Disk Job)

variable {World α : Type}

namespace HostToolchain

open FileSystem (Scratch OnlyNodes)
open FileSystem.Scratch

variable {t : HostToolchain World} {mount : Option (Asset.Mount World)} {fs : FileSystem}
  {world : World} {a b : FileSystem × World}

/-! ## Steps -/

theorem resultOf_withScratch (step : Scratch.Step World α) (state : FileSystem × World) :
    resultOf (withScratch step) state =
      ((resultOf step state).1.mapError Toolchain.Error.host, (resultOf step state).2) :=
  rfl

theorem yields_withScratch_iff {step : Scratch.Step World α} {state state' : FileSystem × World}
    {answer : α} :
    Yields (withScratch step) state answer state' ↔ Yields step state answer state' := by
  rw [Yields, Yields, resultOf_withScratch]
  rcases resultOf step state with ⟨e | answer', state''⟩ <;> simp [Except.mapError]

theorem yields_answered_iff {result : Except FileSystem.Error α} {state state' : FileSystem × World}
    {answer : α} : Yields (answered result) state answer state' ↔
      result = .ok answer ∧ state = state' := by
  cases result with
  | ok value => simpa [answered] using yields_pure_iff
  | error e => exact iff_of_false not_yields_throw (by simp)

theorem stocks_withScratch {step : Scratch.Step World α} (h : t.scratch.Stocks mount step) :
    t.scratch.Stocks mount (withScratch step) := by
  intro a
  rw [resultOf_withScratch]
  exact h a

theorem stocks_answered (result : Except FileSystem.Error α) :
    t.scratch.Stocks mount (answered result : Step World α) := by
  cases result with
  | ok answer => exact leads_pure answer
  | error e => exact leads_throw _

/-- Where the copy of a file stands that a text names. -/
def mirror (t : HostToolchain World) (fs : FileSystem) (text : String) : String :=
  match fs.resolve text with
  | .ok p => t.scratch.hostPath p
  | .error _ => text

theorem mirror_of_ok {text : String} {p : Path} (hp : fs.resolve text = .ok p) :
    t.mirror fs text = t.scratch.hostPath p := by
  rw [mirror, hp]

theorem mirror_congr {fs' : FileSystem} (h : FileSystem.OnlyNodes fs fs') (text : String) :
    t.mirror fs' text = t.mirror fs text := by
  rw [mirror, mirror, h.resolve]

open FileSystem.Scratch

/-- Files that texts name were copied out. -/
structure Exported (t : HostToolchain World) (mount : Option (Asset.Mount World))
    (texts : List String) (copied : List (List String))
    (before after : FileSystem × World) : Prop where
  stocked : Stocked t.scratch mount copied copied before after
  faithful : ∀ text ∈ texts, ∃ p, before.1.resolve text = .ok p ∧ p.parts ∈ copied ∧
    t.scratch.Faithful after p
  only : ∀ parts ∈ copied, ∃ text ∈ texts, ∃ p, before.1.resolve text = .ok p ∧ p.parts = parts

theorem exported_all (hs : t.scratch.disk.Lawful) (hapart : t.scratch.Apart mount)
    {texts copies : List String} {a b : FileSystem × World} (hready : t.scratch.Ready a)
    (h : Yields (texts.mapM fun text => withScratch (t.scratch.exportFile mount text)) a copies b) :
    copies = texts.map (t.mirror a.1) ∧ ∃ copied, t.Exported mount texts copied a b := by
  induction texts generalizing a copies with
  | nil =>
    obtain ⟨rfl, rfl⟩ := yields_mapM_nil_iff.1 h
    exact ⟨rfl, [], .refl hready, List.forall_mem_nil _, List.forall_mem_nil _⟩
  | cons text texts ih =>
    obtain ⟨path, a₁, copies, hfirst, hrest, rfl⟩ := yields_mapM_cons_iff.1 h
    obtain ⟨p, hp, rfl, hstocked, hfaithful⟩ :=
      of_yields_exportFile hs hapart hready (yields_withScratch_iff.1 hfirst)
    obtain ⟨rfl, copied, hexported⟩ := ih hstocked.ready hrest
    have hresolve := hstocked.nodes.resolve
    refine ⟨?_, p.parts :: copied, hstocked.trans hexported.stocked, fun other hother => ?_,
      fun parts hparts => ?_⟩
    · rw [List.map_cons, mirror_of_ok hp]
      congr 1
      exact List.map_congr_left fun other _ => mirror_congr hstocked.nodes other
    · rcases List.mem_cons.1 hother with rfl | hother
      · refine ⟨p, hp, List.mem_cons_self, ?_⟩
        by_cases hmem : p.parts ∈ copied
        · -- it was copied once more under another name
          obtain ⟨other, hother, q, hq, hparts⟩ := hexported.only _ hmem
          obtain ⟨q', hq', -, hagain⟩ := hexported.faithful other hother
          rw [hq] at hq'
          cases hq'
          exact hagain.congr hparts.symm
        · exact hfaithful.kept hexported.stocked hmem
      · obtain ⟨q, hq, hmem, hagain⟩ := hexported.faithful other hother
        exact ⟨q, (hresolve other).symm.trans hq, List.mem_cons_of_mem _ hmem, hagain⟩
    · rcases List.mem_cons.1 hparts with rfl | hparts
      · exact ⟨text, List.mem_cons_self, p, hp, rfl⟩
      · obtain ⟨other, hother, q, hq, rfl⟩ := hexported.only parts hparts
        exact ⟨other, List.mem_cons_of_mem _ hother, q, (hresolve other).symm.trans hq, rfl⟩

/-- Making ready for a file to be written copies nothing. -/
theorem of_yields_exportTarget (mount : Option (Asset.Mount World))
    (hs : t.scratch.disk.Lawful) (hready : t.scratch.Ready a)
    {text path : String} {b : FileSystem × World} (h : Yields (t.exportTarget text) a path b) :
    ∃ p, a.1.resolve text = .ok p ∧ path = t.scratch.hostPath p ∧
      Stocked t.scratch mount [] [] a b := by
  obtain ⟨fs, world⟩ := a
  unfold exportTarget at h
  simp only [yields_bind_iff, yields_get_iff, yields_answered_iff, yields_withScratch_iff,
    yields_pure_iff] at h
  obtain ⟨_, _, ⟨rfl, rfl⟩, p, _, ⟨hp, rfl⟩, _, _, hparents, rfl, rfl⟩ := h
  obtain ⟨d, hjob, rfl⟩ := yields_onDisk_iff.1 hparents
  have hpaved := Job.paves_makeParents (t.scratch.hostPath p) _ hready.grounded
  rw [show resultOf _ _ = (.ok _, d) from hjob, ← hs.get_set world d] at hpaved
  exact ⟨p, hp, rfl, stocked_of_furnished hready (hpaved.furnished _) nofun⟩

/-- An import configuration was read and what it names was copied out. Its own copy, which was
    written last, names the copies. -/
structure ConfigExported (t : HostToolchain World) (mount : Option (Asset.Mount World)) (p : Path)
    (bytes : ByteArray) (copied : List (List String)) (before after : FileSystem × World) :
    Prop where
  stocked : Stocked t.scratch mount (p.parts :: copied) (copied ++ [p.parts]) before after
  content : after.1.bytesAt p = some bytes
  copy : (t.scratch.disk.get after.2).read (t.scratch.hostPath p) = .ok
    ((ImportConfig.parse (Text.ofUtf8Lossy bytes)).mapArchives (t.mirror before.1)).toText.toUTF8
  faithful : ∀ entry ∈ (ImportConfig.parse (Text.ofUtf8Lossy bytes)).entries,
    ∃ q, before.1.resolve entry.2 = .ok q ∧ q.parts ∈ copied ∧
      (q.parts ≠ p.parts → t.scratch.Faithful after q)
  only : ∀ parts ∈ copied, ∃ entry ∈ (ImportConfig.parse (Text.ofUtf8Lossy bytes)).entries,
    ∃ q, before.1.resolve entry.2 = .ok q ∧ q.parts = parts

/-- What was looked up beside its image is the image. -/
theorem lookup_zip_map (f : String → String) {texts : List String} {text : String}
    (h : text ∈ texts) : (texts.zip (texts.map f)).lookup text = some (f text) := by
  induction texts with
  | nil => cases h
  | cons other texts ih =>
    rw [List.map_cons, List.zip_cons_cons, List.lookup_cons]
    by_cases heq : text = other
    · simp [heq]
    · have hfalse : (text == other) = false := by simpa using heq
      simp only [hfalse]
      exact ih ((List.mem_cons.1 h).resolve_left heq)

theorem of_yields_exportConfig (hs : t.scratch.disk.Lawful) (hapart : t.scratch.Apart mount)
    (hready : t.scratch.Ready a) {text path : String}
    (h : Yields (t.exportConfig mount text) a path b) :
    ∃ p bytes copied, a.1.resolve text = .ok p ∧ path = t.scratch.hostPath p ∧
      t.ConfigExported mount p bytes copied a b := by
  obtain ⟨fs, world⟩ := a
  unfold exportConfig at h
  simp only [yields_bind_iff, yields_get_iff, yields_set_iff, yields_answered_iff,
    yields_withScratch_iff, yields_pure_iff] at h
  obtain ⟨_, _, ⟨rfl, rfl⟩, _, _, rfl, bytes, _, ⟨hbytes, rfl⟩, copies, a₂, hcopies, _, _,
    ⟨rfl, rfl⟩, p, _, ⟨hp, rfl⟩, _, _, hparents, _, a₃, hwrite, rfl, rfl⟩ := h
  rcases hread : fs.readAll mount world text with ⟨result, fs₁, world₁⟩
  dsimp only at hbytes hcopies hp
  rw [hread] at hbytes hcopies
  dsimp only at hbytes hcopies
  subst hbytes
  obtain ⟨q, hq⟩ : ∃ q, fs.resolve text = .ok q := by
    cases hq : fs.resolve text with
    | ok q => exact ⟨q, rfl⟩
    | error e =>
      rw [FileSystem.readAll, FileSystem.withFetched, hq] at hread
      cases hread
  have hfetched := stocked_readAll hapart hready hq hread
  obtain ⟨rfl, copied, hexported⟩ := exported_all hs hapart hfetched.ready hcopies
  -- the working directory has stayed, so the text still leads where it led
  rw [hexported.stocked.nodes.resolve, hfetched.nodes.resolve, hq] at hp
  obtain rfl := Except.ok.inj hp
  obtain ⟨hsame, hinstall⟩ := install_of_yields hs hparents hwrite
  obtain ⟨fs₂, world₂⟩ := a₂
  obtain ⟨fs₃, world₃⟩ := a₃
  obtain rfl : fs₃ = fs₂ := hsame
  obtain ⟨hwritten, hcopy⟩ := stocked_install mount hexported.stocked.ready q hinstall
  have hmember : ∀ entry ∈ (ImportConfig.parse (Text.ofUtf8Lossy bytes)).entries, entry.2 ∈
      ((ImportConfig.parse (Text.ofUtf8Lossy bytes)).entries.map Prod.snd).eraseDups := by
    intro entry hentry
    exact List.mem_eraseDups.2 (List.mem_map_of_mem hentry)
  refine ⟨q, bytes, copied, hq, rfl, ?_, ?_, ?_, fun entry hentry => ?_, fun parts hparts => ?_⟩
  · exact (hfetched.trans (hexported.stocked.trans hwritten)).mono (by simp)
  · have hbytes := FileSystem.bytesAt_of_readAll hq hread
    exact (hexported.stocked.kept q (by rw [hbytes]; rfl)).trans hbytes
  · rw [hcopy, ImportConfig.mapArchives_congr fun entry hentry => ?_]
    rw [lookup_zip_map _ (hmember entry hentry), Option.getD_some, mirror_congr hfetched.nodes]
  · obtain ⟨p, hp, hmem, hfaithful⟩ := hexported.faithful entry.2 (hmember entry hentry)
    rw [hfetched.nodes.resolve] at hp
    exact ⟨p, hp, hmem, fun hne => hfaithful.kept hwritten (by simpa using hne)⟩
  · obtain ⟨text, htext, p, hp, hparts⟩ := hexported.only parts hparts
    rw [hfetched.nodes.resolve] at hp
    obtain ⟨entry, hentry, rfl⟩ := List.mem_map.1 (List.mem_eraseDups.1 htext)
    exact ⟨entry, hentry, p, hp, hparts⟩

/-- The same is done where it is not granted. -/
theorem stocks_exportConfig (hs : t.scratch.disk.Lawful) (hapart : t.scratch.Apart mount)
    (text : String) : t.scratch.Stocks mount (t.exportConfig mount text) := by
  unfold exportConfig
  refine .bind_get fun ⟨fs, world⟩ => ?_
  have hread := supplied_readAll hapart fs world text
  have hrest : t.scratch.Stocks mount (do
      let config := ImportConfig.parse (Text.ofUtf8Lossy
        (← answered (fs.readAll mount world text).1))
      let archives := (config.entries.map Prod.snd).eraseDups
      let copies ← archives.mapM fun archive => withScratch (t.scratch.exportFile mount archive)
      let copied := config.mapArchives fun archive =>
        ((archives.zip copies).lookup archive).getD archive
      let path := t.scratch.hostPath (← answered ((← get).1.resolve text))
      withScratch (t.scratch.onDisk (Job.makeParents path))
      withScratch (t.scratch.onDisk (Job.write path copied.toText.toUTF8))
      return path : Step World String) := by
    refine (stocks_answered _).bind fun content => ?_
    refine (Leads.mapM (fun archive => stocks_withScratch (stocks_exportFile hs hapart archive))
      _).bind fun copies => .bind_get fun b => ?_
    refine ((stocks_answered _).bind fun p => ?_) b
    refine (stocks_withScratch (stocks_onDisk_paves hs (Job.paves_makeParents _))).bind fun _ => ?_
    exact (stocks_withScratch (stocks_write hs p _)).bind fun _ => leads_pure _
  exact trans_of (Supplied t.scratch mount) hread (hrest _)

theorem stocks_exportTarget (hs : t.scratch.disk.Lawful) (text : String) :
    t.scratch.Stocks mount (t.exportTarget text) := by
  unfold exportTarget
  refine .bind_get fun a => ((stocks_answered _).bind fun p => ?_) a
  exact (stocks_withScratch (stocks_onDisk_paves hs (Job.paves_makeParents _))).bind fun _ =>
    leads_pure _

/-! ## Arguments -/

/-- The targets that the arguments of a tool name. -/
def targets : List String → List String
  | [] => []
  | "-importcfg" :: _ :: rest => targets rest
  | "-o" :: text :: rest => text :: targets rest
  | _ :: rest => targets rest

/-- What comes of making the arguments of a tool ready: files were copied out. -/
theorem stocked_prepare (hs : t.scratch.disk.Lawful) (hapart : t.scratch.Apart mount) {tool : Tool}
    {args hostArgs outputs : List String} (hready : t.scratch.Ready a)
    (h : Yields (t.prepare mount tool args) a (hostArgs, outputs) b) :
    (tool ≠ .format → outputs = targets args) ∧
      ∃ copied, Stocked t.scratch mount copied copied a b := by
  induction args using targets.induct generalizing a hostArgs outputs with
  | case1 =>
    rw [prepare, yields_pure_iff] at h
    obtain ⟨heq, rfl⟩ := h
    cases heq
    exact ⟨fun _ => rfl, [], .refl hready⟩
  | case2 text rest ih =>
    simp only [prepare, yields_bind_iff, yields_pure_iff] at h
    obtain ⟨path, a₁, hconfig, ⟨more, outputs'⟩, _, hrest, heq, rfl⟩ := h
    cases heq
    obtain ⟨p, bytes, copied, -, -, hexported⟩ := of_yields_exportConfig hs hapart hready hconfig
    obtain ⟨houtputs, copied', hstocked⟩ := ih hexported.stocked.ready hrest
    have hconfigured := hexported.stocked.mono (show _ ⊆ copied ++ [p.parts] by simp)
    exact ⟨fun htool => by rw [targets, houtputs htool], _, hconfigured.trans hstocked⟩
  | case3 text rest ih =>
    simp only [prepare, yields_bind_iff, yields_pure_iff] at h
    obtain ⟨path, a₁, htarget, ⟨more, outputs'⟩, _, hrest, heq, rfl⟩ := h
    cases heq
    obtain ⟨p, -, -, hready'⟩ := of_yields_exportTarget mount hs hready htarget
    obtain ⟨houtputs, copied, hstocked⟩ := ih hready'.ready hrest
    exact ⟨fun htool => by rw [targets, houtputs htool], _, hready'.trans hstocked⟩
  | case4 arg rest hconfig htarget ih =>
    rw [prepare, yields_bind_iff] at h
    · obtain ⟨a₁, _, hget, h⟩ := h
      obtain ⟨rfl, rfl⟩ := yields_get_iff.1 hget
      rw [targets]
      · split at h
        · simp only [yields_bind_iff, yields_pure_iff, yields_withScratch_iff] at h
          obtain ⟨path, a₁, hexport, ⟨more, outputs'⟩, _, hrest, heq, rfl⟩ := h
          cases heq
          obtain ⟨p, -, -, hcopied, -⟩ := of_yields_exportFile hs hapart hready hexport
          obtain ⟨houtputs, copied, hstocked⟩ := ih hcopied.ready hrest
          refine ⟨fun htool => ?_, _, hcopied.trans hstocked⟩
          rw [if_neg htool, houtputs htool]
        · simp only [yields_bind_iff, yields_pure_iff] at h
          obtain ⟨⟨more, outputs'⟩, _, hrest, heq, rfl⟩ := h
          cases heq
          exact ih hready hrest
      · exact hconfig
      · exact htarget
    · exact hconfig
    · exact htarget

/-- Making the arguments of a tool ready copies files out, whatever comes of it. -/
theorem stocks_prepare (hs : t.scratch.disk.Lawful) (hapart : t.scratch.Apart mount) (tool : Tool)
    (args : List String) : t.scratch.Stocks mount (t.prepare mount tool args) := by
  induction args using targets.induct with
  | case1 => exact leads_pure ([], [])
  | case2 text rest ih =>
    rw [prepare]
    exact (stocks_exportConfig hs hapart text).bind fun path => ih.bind fun _ => leads_pure _
  | case3 text rest ih =>
    rw [prepare]
    exact (stocks_exportTarget hs text).bind fun path => ih.bind fun _ => leads_pure _
  | case4 arg rest hconfig htarget ih =>
    rw [prepare]
    · refine .bind_get fun a => ?_
      split
      · exact ((stocks_withScratch (stocks_exportFile hs hapart arg)).bind fun path =>
          ih.bind fun _ => leads_pure _) a
      · exact (ih.bind fun _ => leads_pure _) a
    · exact hconfig
    · exact htarget

end HostToolchain

end Workbench
