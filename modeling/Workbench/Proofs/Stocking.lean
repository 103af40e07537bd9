import Workbench.Proofs.ScratchCopies

set_option autoImplicit false

/-! # Stocking a scratch directory

Before a program of the host is launched, files are read and copied out to the scratch directory,
which may fetch them. Nothing else is done to the file system, and below the scratch directory
nothing is new but the copies and directories. Steps of this kind can be put together, and it is the
same whether they succeed. -/

namespace Workbench

open Host (Disk Job)

variable {World α β ε : Type}

namespace FileSystem

variable {fs fs' : FileSystem} {world world' : World} {p q : Path}

/-- No file is at the root. -/
theorem Reachable.parts_ne_nil (h : Reachable fs) (hfile : (fs.bytesAt p).isSome) :
    p.parts ≠ [] := by
  obtain ⟨v, hv⟩ := h.shows
  exact hv.parts_ne_nil_of_bytesAt hfile

theorem Reachable.bytesAt_root (h : Reachable fs) (hp : p.parts = []) : fs.bytesAt p = none := by
  rw [← Option.not_isSome_iff_eq_none]
  intro hfile
  exact h.parts_ne_nil hfile hp

theorem Reachable.readAll (h : Reachable fs) (mount : Option (Asset.Mount World)) (world : World)
    (text : String) : Reachable (fs.readAll mount world text).2.1 :=
  h.step mount world (.readAll text)

theorem Reachable.writeFile (h : Reachable fs) (text : String) (data : ByteArray) :
    Reachable (fs.writeFile text data).2 :=
  h.step (none : Option (Asset.Mount Unit)) () (.writeFile text data)

/-- Printing leads from what is reachable to what is reachable. -/
theorem Reachable.print {fs : FileSystem} (h : Reachable fs) (out err : ByteArray) :
    Reachable { fs with stdout := fs.stdout ++ out, stderr := fs.stderr ++ err } :=
  (h.step (none : Option (Asset.Mount Unit)) () (.write 1 out none)).step
    (none : Option (Asset.Mount Unit)) () (.write 2 err none)

namespace Scratch

variable {s : Scratch World} {mount : Option (Asset.Mount World)}

/-! ## Copying out -/

/-- What a fetch does to the disk it does beside the scratch directory. -/
def Apart (s : Scratch World) (mount : Option (Asset.Mount World)) : Prop :=
  ∀ m, mount = some m → ∀ world key, Disk.Furnished (s.place (s.disk.get world)) []
    (s.disk.get world) (s.disk.get (m.fetch world key).2)

theorem apart_none (s : Scratch World) : s.Apart none := by
  rintro m ⟨⟩

/-- A file system and a world to start from. -/
structure Ready (s : Scratch World) (state : FileSystem × World) : Prop where
  reachable : Reachable state.1
  grounded : (s.disk.get state.2).Grounded

/-- Files were read, and some were copied out. They are given by the components of their paths. -/
structure Stocked (s : Scratch World) (mount : Option (Asset.Mount World))
    (touched copied : List (List String)) (before after : FileSystem × World) : Prop where
  ready : s.Ready after
  nodes : OnlyNodes before.1 after.1
  disk : Disk.Furnished (s.place (s.disk.get before.2))
    (copied.map (s.place (s.disk.get before.2) ++ ·)) (s.disk.get before.2) (s.disk.get after.2)
  /-- No file has other bytes, -/
  kept : ∀ p, (before.1.bytesAt p).isSome → after.1.bytesAt p = before.1.bytesAt p
  /-- and none is new but those that were read. -/
  beside : ∀ p, p.parts ∉ touched → after.1.bytesAt p = before.1.bytesAt p
  /-- What is new is what the mount has answered. -/
  fetched : ∀ p bytes, before.1.bytesAt p = none → after.1.bytesAt p = some bytes →
    ∃ m world, mount = some m ∧ m.covers p = true ∧ (m.fetch world p.toString).1 = .ok bytes
  there : ∀ p : Path, p.parts ∈ copied → ∃ data,
    (s.disk.get after.2).read (s.hostPath p) = .ok data

namespace Stocked

variable {touched copied touched' copied' : List (List String)} {a b c : FileSystem × World}

theorem place (h : Stocked s mount touched copied a b) :
    s.place (s.disk.get b.2) = s.place (s.disk.get a.2) :=
  h.disk.placeOf s.root

/-- A copy stays as long as no other is put in its place. -/
theorem reads (h : Stocked s mount touched copied a b) (hp : p.parts ∉ copied) {data : ByteArray}
    (hread : (s.disk.get a.2).read (s.hostPath p) = .ok data) :
    (s.disk.get b.2).read (s.hostPath p) = .ok data := by
  have hfile := Disk.shapeAt_of_read hread
  refine h.disk.read hread ?_
  rw [placeOf_hostPath] at hfile ⊢
  refine h.disk.kept (List.prefix_append _ _) ?_ hfile
  simpa using hp

theorem refl (h : s.Ready a) : Stocked s mount [] [] a a where
  ready := h
  nodes := .refl a.1
  disk := .refl _ _
  kept _ _ := rfl
  beside _ _ := rfl
  fetched p bytes hnone hsome := by cases hnone.symm.trans hsome
  there _ hmem := by cases hmem

theorem trans (h : Stocked s mount touched copied a b) (h' : Stocked s mount touched' copied' b c) :
    Stocked s mount (touched ++ touched') (copied ++ copied') a c := by
  have hdisk := h'.disk
  rw [h.place] at hdisk
  refine ⟨h'.ready, h.nodes.trans h'.nodes, ?_, fun p hp => ?_, fun p hp => ?_,
    fun p bytes hnone hsome => ?_, fun p hp => ?_⟩
  · rw [List.map_append]
    exact h.disk.trans hdisk
  · have hsame := h.kept p hp
    rw [h'.kept p (by rw [hsame]; exact hp), hsame]
  · rw [List.mem_append, not_or] at hp
    rw [h'.beside p hp.2, h.beside p hp.1]
  · cases hmiddle : b.1.bytesAt p with
    | none => exact h'.fetched p bytes hmiddle hsome
    | some bytes' =>
      have hsame := h'.kept p (by rw [hmiddle]; rfl)
      rw [hsome, hmiddle] at hsame
      cases hsame
      exact h.fetched p bytes hnone hmiddle
  · by_cases hmem : p.parts ∈ copied'
    · exact h'.there p hmem
    · obtain ⟨data, hdata⟩ := h.there p ((List.mem_append.1 hp).resolve_right hmem)
      exact ⟨data, h'.reads hmem hdata⟩

theorem mono (h : Stocked s mount touched copied a b) (hmore : touched ⊆ touched') :
    Stocked s mount touched' copied a b :=
  ⟨h.ready, h.nodes, h.disk, h.kept, fun p hp => h.beside p fun hmem => hp (hmore hmem),
    h.fetched, h.there⟩

end Stocked

/-- Reading a file stocks nothing. -/
theorem stocked_readAll (hapart : s.Apart mount) (hready : s.Ready (fs, world)) {text : String}
    (hq : fs.resolve text = .ok q) {result : Except Error ByteArray}
    (hread : fs.readAll mount world text = (result, fs', world')) :
    Stocked s mount [q.parts] [] (fs, world) (fs', world') := by
  have hafter := hready.reachable.readAll mount world text
  have hnodes := OnlyNodes.readAll mount fs world text
  have hbytes : ∀ p, p.parts ≠ [] → (fs.bytesAt p).isSome ∨ q.parts ≠ p.parts →
      (fs.readAll mount world text).2.1.bytesAt p = fs.bytesAt p := by
    rintro p hp (hfile | hne)
    · exact bytesAt_readAll hp hfile mount world text
    · refine bytesAt_readAll_of_ne hp (fun q' hq' => ?_) mount world
      rw [hq] at hq'
      cases hq'
      exact hne
  have hworld : (fs.readAll mount world text).2.2 = world ∨ ∃ m key, mount = some m ∧
      (fs.readAll mount world text).2.2 = (m.fetch world key).2 :=
    world_withFetched mount fs world text readLocal
  have hnew : ∀ (p : Path) (bytes : ByteArray), p.parts ≠ [] → fs.bytesAt p = none →
      (fs.readAll mount world text).2.1.bytesAt p = some bytes →
        ∃ m, mount = some m ∧ m.covers p = true ∧ (m.fetch world p.toString).1 = .ok bytes :=
    fun p bytes hp => fetched_of_readAll hp mount fs world text
  rw [hread] at hafter hnodes hbytes hworld hnew
  have hdisk : Disk.Furnished (s.place (s.disk.get world)) [] (s.disk.get world)
      (s.disk.get world') := by
    rcases hworld with heq | ⟨m, key, hm, heq⟩ <;> dsimp only at heq <;> rw [heq]
    · exact .refl _ _
    · exact hapart m hm world key
  refine ⟨⟨hafter, hdisk.grounded hready.grounded⟩, hnodes, hdisk, fun p hp => ?_, fun p hp => ?_,
    fun p bytes hnone hsome => ?_, fun parts hmem => by cases hmem⟩
  · exact hbytes p (hready.reachable.parts_ne_nil hp) (.inl hp)
  · by_cases hroot : p.parts = []
    · exact (hafter.bytesAt_root hroot).trans (hready.reachable.bytesAt_root hroot).symm
    · exact hbytes p hroot (.inr fun heq => hp (by simp [heq]))
  · have hsome' : (fs'.bytesAt p).isSome := by rw [hsome]; rfl
    obtain ⟨m, hm, hcovers, hanswer⟩ := hnew p bytes (hafter.parts_ne_nil hsome') hnone hsome
    exact ⟨m, world, hm, hcovers, hanswer⟩

/-- Putting files below the scratch directory stocks them. -/
theorem stocked_of_furnished (hready : s.Ready (fs, world)) {copied : List (List String)}
    (hdisk : Disk.Furnished (s.place (s.disk.get world))
      (copied.map (s.place (s.disk.get world) ++ ·)) (s.disk.get world) (s.disk.get world'))
    (hthere : ∀ p : Path, p.parts ∈ copied → ∃ data,
      (s.disk.get world').read (s.hostPath p) = .ok data) :
    Stocked s mount [] copied (fs, world) (fs, world') :=
  ⟨⟨hready.reachable, hdisk.grounded hready.grounded⟩, .refl fs, hdisk, fun _ _ => rfl,
    fun _ _ => rfl, fun _ _ hnone hsome => (by cases hnone.symm.trans hsome), hthere⟩

theorem stocked_install (mount : Option (Asset.Mount World)) (hready : s.Ready (fs, world))
    (p : Path) {data : ByteArray} {mode : Nat}
    (h : Yields (Job.install (s.hostPath p) (some data) mode) (s.disk.get world) ()
      (s.disk.get world')) :
    Stocked s mount [] [p.parts] (fs, world) (fs, world') ∧
      (s.disk.get world').read (s.hostPath p) = .ok data := by
  have hdisk := Job.furnished_install hready.grounded (s.hostPath p) data mode
  have hread := Job.read_of_install hready.grounded h
  rw [show resultOf _ _ = (.ok (), s.disk.get world') from h, placeOf_hostPath] at hdisk
  refine ⟨stocked_of_furnished hready (hdisk.within _) fun q hmem => ⟨data, ?_⟩, hread⟩
  rw [hostPath_congr s (List.mem_singleton.1 hmem), hread]

/-- Making the directories for a file and writing it is putting it in its place. -/
theorem install_of_yields (hs : s.disk.Lawful) {path : String} {data : ByteArray} {u u' : Unit}
    {a b c : FileSystem × World} (hparents : Yields (s.onDisk (Job.makeParents path)) a u b)
    (hwrite : Yields (s.onDisk (Job.write path data)) b u' c) :
    c.1 = a.1 ∧ Yields (Job.install path (some data) Disk.fileMode) (s.disk.get a.2) ()
      (s.disk.get c.2) := by
  obtain ⟨fs, world⟩ := a
  obtain ⟨d, hmade, rfl⟩ := yields_onDisk_iff.1 hparents
  obtain ⟨d', hwritten, rfl⟩ := yields_onDisk_iff.1 hwrite
  rw [hs.get_set] at hwritten
  dsimp only
  rw [hs.get_set]
  exact ⟨rfl, yields_bind_iff.2 ⟨(), d, hmade, hwritten⟩⟩

/-- A copy has the bytes of the file. -/
def Faithful (s : Scratch World) (state : FileSystem × World) (p : Path) : Prop :=
  ∃ data, state.1.bytesAt p = some data ∧
    (s.disk.get state.2).read (s.hostPath p) = .ok data

/-- A file that was copied out stands where its path is below the scratch directory. -/
theorem of_yields_exportFile (hs : s.disk.Lawful) (hapart : s.Apart mount)
    (hready : s.Ready (fs, world)) {text path : String} {state : FileSystem × World}
    (h : Yields (s.exportFile mount text) (fs, world) path state) :
    ∃ p, fs.resolve text = .ok p ∧ path = s.hostPath p ∧
      Stocked s mount [p.parts] [p.parts] (fs, world) state ∧ s.Faithful state p := by
  have hcases := exporting hs mount text fs world
  rw [show resultOf _ _ = (.ok path, state) from h] at hcases
  cases hcases with
  | @copied p data fs₁ world₁ world₂ hp hread hinstall =>
    obtain ⟨q, hq, hparts⟩ := resolve_toString fs p
    have hfetched := stocked_readAll hapart hready hq hread
    obtain ⟨hstocked, hcopy⟩ := stocked_install mount hfetched.ready p hinstall
    have hbytes := bytesAt_of_readAll hq hread
    rw [bytesAt_eq_of_parts _ hparts] at hbytes
    rw [hparts] at hfetched
    exact ⟨p, hp, rfl, hfetched.trans hstocked, data, hbytes, hcopy⟩

/-- A copy stays faithful as long as no other is put in its place. -/
theorem Faithful.kept {touched copied : List (List String)} {a b : FileSystem × World}
    (h : s.Faithful a p) (hstocked : Stocked s mount touched copied a b) (hp : p.parts ∉ copied) :
    s.Faithful b p := by
  obtain ⟨data, hbytes, hread⟩ := h
  exact ⟨data, (hstocked.kept p (by rw [hbytes]; rfl)).trans hbytes, hstocked.reads hp hread⟩

theorem Faithful.congr {a : FileSystem × World} (h : s.Faithful a p) (hparts : q.parts = p.parts) :
    s.Faithful a q := by
  obtain ⟨data, hbytes, hread⟩ := h
  exact ⟨data, by rw [bytesAt_eq_of_parts _ hparts, hbytes], by rw [hostPath_congr s hparts, hread]⟩

/-- A file is as faithful as before when it is copied once more. -/
theorem Faithful.again {touched : List (List String)} {a b : FileSystem × World}
    (h : s.Faithful a p) (hq : s.Faithful b q)
    (hstocked : Stocked s mount touched [q.parts] a b) : s.Faithful b p := by
  by_cases hparts : p.parts = q.parts
  · exact hq.congr hparts
  · exact h.kept hstocked (by simpa using hparts)

/-! ## Steps, whatever comes of them -/

/-- What comes of reading files and copying them out, however that ends. -/
structure Supplied (s : Scratch World) (mount : Option (Asset.Mount World))
    (a b : FileSystem × World) : Prop where
  reachable : Reachable a.1 → Reachable b.1
  stocked : s.Ready a → ∃ touched copied, Stocked s mount touched copied a b

instance : IsPreorder (FileSystem × World) (Supplied s mount) where
  refl a := ⟨id, fun ha => ⟨[], [], .refl ha⟩⟩
  trans a b c h h' := by
    refine ⟨fun ha => h'.reachable (h.reachable ha), fun ha => ?_⟩
    obtain ⟨touched, copied, hfirst⟩ := h.stocked ha
    obtain ⟨touched', copied', hthen⟩ := h'.stocked hfirst.ready
    exact ⟨_, _, hfirst.trans hthen⟩

/-- A step that reads files and copies files out and does nothing else, whatever comes of it. -/
def Stocks (s : Scratch World) (mount : Option (Asset.Mount World))
    (step : ExceptT ε (StateM (FileSystem × World)) α) : Prop :=
  Leads (Supplied s mount) step

theorem supplied_readAll (hapart : s.Apart mount) (fs : FileSystem) (world : World)
    (text : String) : Supplied s mount (fs, world) (fs.readAll mount world text).2 := by
  refine ⟨fun hreachable => hreachable.readAll mount world text, fun hready => ?_⟩
  cases hq : fs.resolve text with
  | ok q => exact ⟨_, _, stocked_readAll hapart hready hq rfl⟩
  | error e =>
    have hsame : (fs.readAll mount world text).2 = (fs, world) := by
      rw [FileSystem.readAll, FileSystem.withFetched, hq]
    rw [hsame]
    exact ⟨[], [], .refl hready⟩

theorem stocks_onDisk_paves (hs : s.disk.Lawful) {job : Job α} (h : job.Paves) :
    s.Stocks mount (s.onDisk job) := by
  rintro ⟨fs, world⟩
  rw [resultOf_onDisk]
  refine ⟨id, fun ha => ⟨[], [], stocked_of_furnished ha ?_ nofun⟩⟩
  rw [hs.get_set]
  exact (h _ ha.grounded).furnished _

/-- Writing where a path stands stocks it, unless it is refused. -/
theorem stocks_write (hs : s.disk.Lawful) (p : Path) (data : ByteArray) :
    s.Stocks mount (s.onDisk (Job.write (s.hostPath p) data)) := by
  rintro ⟨fs, world⟩
  rw [resultOf_onDisk]
  refine ⟨id, fun ha => ?_⟩
  have hwrite : resultOf (Job.write (s.hostPath p) data) (s.disk.get world) = resultOf
      (Job.change (·.alter (s.hostPath p) Disk.fileMode fun _ => data)) (s.disk.get world) := rfl
  rw [hwrite]
  rcases Job.resultOf_change (·.alter (s.hostPath p) Disk.fileMode fun _ => data)
    (s.disk.get world) with ⟨d, halter, hresult⟩ | ⟨e, -, hresult⟩ <;> rw [hresult]
  · have hfurnished := Disk.alter_furnished ha.grounded halter
    have hread := (Disk.alter_eq_ok ha.grounded halter).2
    rw [placeOf_hostPath] at hfurnished
    refine ⟨[], [p.parts], stocked_of_furnished ha ?_ fun q hq => ⟨data, ?_⟩⟩
    · rw [hs.get_set]
      exact hfurnished.within _
    · rw [hs.get_set, hostPath_congr s (List.mem_singleton.1 hq)]
      exact hread
  · refine ⟨[], [], stocked_of_furnished ha ?_ nofun⟩
    rw [hs.get_set]
    exact .refl _ _

theorem stocks_exportFile (hs : s.disk.Lawful) (hapart : s.Apart mount) (text : String) :
    s.Stocks mount (s.exportFile mount text) := by
  rintro ⟨fs, world⟩
  have hcases := exporting hs mount text fs world
  rcases hresult : resultOf (s.exportFile mount text) (fs, world) with ⟨result, state⟩
  rw [hresult] at hcases
  cases hcases with
  | nowhere => exact refl_of (Supplied s mount) (fs, world)
  | @unread p e fs₁ world₁ hp hread =>
    have hsupplied := supplied_readAll hapart fs world p.toString
    rwa [hread] at hsupplied
  | @stuck p data e fs₁ world₁ world₂ hp hread hinstall =>
    have hsupplied := supplied_readAll hapart fs world p.toString
    rw [hread] at hsupplied
    refine trans_of (Supplied s mount) hsupplied (c := (fs₁, world₂))
      ⟨id, fun hready => ⟨[], [], ?_⟩⟩
    have hpaved := Job.paved_of_install_error hready.grounded hinstall
    exact stocked_of_furnished hready (hpaved.furnished _) nofun
  | @copied p data fs₁ world₁ world₂ hp hread hinstall =>
    have hsupplied := supplied_readAll hapart fs world p.toString
    rw [hread] at hsupplied
    refine trans_of (Supplied s mount) hsupplied (c := (fs₁, world₂))
      ⟨id, fun hready => ⟨[], [p.parts], ?_⟩⟩
    exact (stocked_install mount hready p hinstall).1

end Scratch

end FileSystem

end Workbench
