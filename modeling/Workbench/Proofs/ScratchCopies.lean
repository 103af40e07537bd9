import Workbench.FileSystem.Scratch
import Workbench.Proofs.Descriptors
import Workbench.Proofs.DiskJobs
import Workbench.Proofs.ReadThrough
import Workbench.Proofs.StorePaths

set_option autoImplicit false

/-! # Copies in a scratch directory

A file that is copied out stands in the scratch directory below the components of its path, so that
the copies of different files are apart, and a copy is not disturbed by what is copied out after it.
Copying out changes the file system by a fetch at most; copying back changes the disk not at all. -/

namespace Workbench

/-- What is put into a part of a world is there. -/
structure Part.Lawful {World α : Type} (p : Part World α) : Prop where
  get_set : ∀ world a, p.get (p.set world a) = a

/-- The components of a path, joined by slashes, are its pieces. -/
theorem Path.pieces_intercalate {parts : List String} (hne : parts ≠ [])
    (h : ∀ part ∈ parts, isComponent part = true) : pieces ("/".intercalate parts) = parts := by
  have hspell := splitOn_spell h
  rw [← slash_intercalate hne, Text.splitOn_cons_sep] at hspell
  rw [pieces, String.toList_intercalate]
  have hsplit := (List.cons.inj hspell).2
  rw [show "/".toList = ['/'] from rfl, hsplit]
  simp

/-- They lead on from wherever one is. -/
theorem Path.isRooted_intercalate {parts : List String} (hne : parts ≠ [])
    (h : ∀ part ∈ parts, isComponent part = true) :
    Host.Location.isRooted ("/".intercalate parts) = false := by
  refine Package.isRooted_of_pieces ?_
  rw [pieces_intercalate hne h]
  exact h

namespace Host

namespace Disk

/-- Below a root nothing is new on a disk but directories and the files at some places, and no
    directory is lost anywhere. -/
structure Furnished (root : List String) (places : List (List String)) (d d' : Disk) : Prop where
  cwd : d'.cwd = d.cwd
  dirs : ∀ place, d.shapeAt place = some .dir → d'.shapeAt place = some .dir
  below : ∀ place, root <+: place → place ∉ places → d'.shapeAt place = d.shapeAt place ∨
    d.shapeAt place = none ∧ d'.shapeAt place = some .dir

variable {root : List String} {places more : List (List String)} {d d' d'' : Disk}

theorem Paved.furnished (h : Paved d d') (root : List String) : Furnished root [] d d' where
  cwd := h.cwd
  dirs _ hdir := h.kept hdir
  below place _ _ := h.shapes place

namespace Furnished

theorem refl (root : List String) (d : Disk) : Furnished root [] d d := (Paved.refl d).furnished root

theorem grounded (h : Furnished root places d d') (hd : d.Grounded) : d'.Grounded := by
  unfold Grounded
  rw [h.cwd]
  exact h.dirs d.cwd hd

theorem placeOf (h : Furnished root places d d') (text : String) :
    d'.placeOf text = d.placeOf text := by
  unfold Disk.placeOf
  rw [h.cwd]

/-- What is there stays, but for the places that are named. -/
theorem kept (h : Furnished root places d d') {place : List String} (hroot : root <+: place)
    (hplace : place ∉ places) {shape : Shape} (hshape : d.shapeAt place = some shape) :
    d'.shapeAt place = some shape := by
  rcases h.below place hroot hplace with hsame | ⟨hnone, -⟩
  · rw [hsame, hshape]
  · cases hnone.symm.trans hshape

/-- No file is new but at the places that are named. -/
theorem file (h : Furnished root places d d') {place : List String} (hroot : root <+: place)
    (hplace : place ∉ places) {data : ByteArray}
    (hfile : d'.shapeAt place = some (.file data)) : d.shapeAt place = some (.file data) := by
  rcases h.below place hroot hplace with hsame | ⟨-, hdir⟩
  · rw [← hsame, hfile]
  · cases hdir.symm.trans hfile

theorem mono (h : Furnished root places d d') (hmore : places ⊆ more) :
    Furnished root more d d' where
  cwd := h.cwd
  dirs := h.dirs
  below place hroot hplace := h.below place hroot fun hmem => hplace (hmore hmem)

/-- What is seen below a root is seen below what is in it. -/
theorem within (h : Furnished [] places d d') (root : List String) : Furnished root places d d' where
  cwd := h.cwd
  dirs := h.dirs
  below place _ := h.below place List.nil_prefix

theorem trans (h : Furnished root places d d') (h' : Furnished root more d' d'') :
    Furnished root (places ++ more) d d'' where
  cwd := h'.cwd.trans h.cwd
  dirs place hplace := h'.dirs place (h.dirs place hplace)
  below place hroot hplace := by
    rw [List.mem_append, not_or] at hplace
    rcases h.below place hroot hplace.1 with hsame | ⟨hnone, hdir⟩
    · rw [← hsame]
      exact h'.below place hroot hplace.2
    · exact Or.inr ⟨hnone, h'.dirs place hdir⟩

/-- A file that could be read can be read with what is in it then. -/
theorem read (h : Furnished root places d d') {text : String} {bytes bytes' : ByteArray}
    (hread : d.read text = .ok bytes)
    (hfile : d'.shapeAt (d.placeOf text) = some (.file bytes')) : d'.read text = .ok bytes' :=
  read_of_dirs h.cwd h.dirs hread hfile

end Furnished

/-- Writing a file furnishes its place. -/
theorem alter_furnished (hd : d.Grounded) {text : String} {mode : Nat} {f : ByteArray → ByteArray}
    (h : d.alter text mode f = .ok d') : Furnished [] [d.placeOf text] d d' where
  cwd := (alter_eq_ok hd h).1.cwd
  dirs := (alter_eq_ok hd h).1.dirs
  below place _ hplace := by
    rw [shapeAt_alter hd h, if_neg (by simpa using hplace)]
    exact Or.inl rfl

end Disk

namespace Job

open Disk

variable {d d' : Disk}

/-- Putting a file in its place adds that file and the directories above it, also where it is
    refused. -/
theorem furnished_install (hd : d.Grounded) (path : String) (data : ByteArray) (mode : Nat) :
    Furnished [] [d.placeOf path] d (resultOf (install path (some data) mode) d).2 := by
  have hready := (paves_makeParents path d hd).furnished []
  unfold install
  rw [resultOf_bind]
  rcases hparents : resultOf (makeParents path) d with ⟨_ | _, d₁⟩ <;> rw [hparents] at hready
  · exact hready.mono (List.nil_subset _)
  · show Furnished [] _ d (resultOf (change _) d₁).2
    rcases resultOf_change (·.alter path mode fun _ => data) d₁ with
      ⟨d₂, halter, hresult⟩ | ⟨e, -, hresult⟩ <;> rw [hresult]
    · have hwritten := alter_furnished (hready.grounded hd) halter
      rw [hready.placeOf] at hwritten
      exact hready.trans hwritten
    · exact hready.mono (List.nil_subset _)

/-- Where it is refused it adds directories alone. -/
theorem paved_of_install_error (hd : d.Grounded) {path : String} {data : ByteArray} {mode : Nat}
    {e : Error} (h : resultOf (install path (some data) mode) d = (.error e, d')) : Paved d d' := by
  have hready := paves_makeParents path d hd
  unfold install at h
  rw [resultOf_bind] at h
  rcases hparents : resultOf (makeParents path) d with ⟨e' | _, d₁⟩ <;> rw [hparents] at hready h
  · cases h
    exact hready
  · have hwrite : resultOf (change (·.alter path mode fun _ => data)) d₁ = (.error e, d') := h
    rcases resultOf_change (·.alter path mode fun _ => data) d₁ with
      ⟨d₂, halter, hresult⟩ | ⟨e, -, hresult⟩ <;> rw [hresult] at hwrite
    · cases hwrite
    · cases hwrite
      exact hready

/-- A file that was put in its place can be read. -/
theorem read_of_install (hd : d.Grounded) {path : String} {data : ByteArray} {mode : Nat}
    {u : Unit} (h : Yields (install path (some data) mode) d u d') : d'.read path = .ok data := by
  obtain ⟨⟨⟩, d₁, hparents, h⟩ := yields_bind_iff.1 h
  have hready := (paves_makeParents path).grows hd hparents
  exact (alter_eq_ok (hready.grounded hd) (request_of_change h)).2

end Job

end Host

namespace FileSystem

variable {World : Type} {fs fs' : FileSystem} {world world' : World} {p q : Path}

/-! ## Reading all of a file -/

/-- Reading leaves every file that is there as it is. -/
theorem bytesAt_readAll (hp : p.parts ≠ []) (hfile : (fs.bytesAt p).isSome)
    (mount : Option (Asset.Mount World)) (world : World) (text : String) :
    (fs.readAll mount world text).2.1.bytesAt p = fs.bytesAt p := by
  rcases withFetched_left mount fs world text readLocal with hleft | ⟨q, -, hleft | hleft⟩
  · rw [readAll, hleft]
  · rw [readAll, hleft, bytesAt_populate hp hfile]
  · rw [readAll, hleft, bytesAt_readLocal, bytesAt_populate hp hfile]

/-- What was read is there. -/
theorem bytesAt_of_readAll {mount : Option (Asset.Mount World)} {text : String} {data : ByteArray}
    (hq : fs.resolve text = .ok q)
    (h : fs.readAll mount world text = (.ok data, fs', world')) : fs'.bytesAt q = some data := by
  rw [readAll, withFetched, hq] at h
  dsimp only at h
  split at h
  · simp at h
  next fs₁ world₁ _ =>
  unfold readLocal at h
  split at h
  · simp at h
  · next data' times hfile =>
    simp only [Prod.mk.injEq, Except.ok.injEq] at h
    obtain ⟨rfl, rfl, -⟩ := h
    rw [bytesAt_setFile, if_pos rfl]

/-- What may fetch a file changes the world by that fetch at most. -/
theorem world_withFetched {α : Type} (mount : Option (Asset.Mount World)) (fs : FileSystem)
    (world : World) (text : String) (act : FileSystem → Path → Except Error α × FileSystem) :
    (withFetched mount fs world text act).2.2 = world ∨
      ∃ m key, mount = some m ∧ (withFetched mount fs world text act).2.2 = (m.fetch world key).2 := by
  unfold withFetched
  split
  · exact Or.inl rfl
  next p _ =>
  have hpopulate : (populate mount fs world p).2.2 = world ∨
      ∃ m key, mount = some m ∧ (populate mount fs world p).2.2 = (m.fetch world key).2 := by
    cases mount with
    | none =>
      rw [populate_of_uncovered (fun _ hm => by cases hm)]
      exact Or.inl rfl
    | some m =>
      rw [populate_eq]
      split
      · exact Or.inr ⟨m, p.toString, rfl, rfl⟩
      · exact Or.inl rfl
  split <;> next heq => rwa [heq] at hpopulate

/-- A file that is new after reading was fetched. -/
theorem fetched_of_readAll (hp : p.parts ≠ []) (mount : Option (Asset.Mount World))
    (fs : FileSystem) (world : World) (text : String) {bytes : ByteArray}
    (hnone : fs.bytesAt p = none) (hsome : (fs.readAll mount world text).2.1.bytesAt p = some bytes) :
    ∃ m, mount = some m ∧ m.covers p = true ∧ (m.fetch world p.toString).1 = .ok bytes := by
  have hpopulated : ∃ q, (populate mount fs world q).2.1.bytesAt p = some bytes := by
    rcases withFetched_left mount fs world text readLocal with hleft | ⟨q, -, hleft | hleft⟩
    · rw [readAll, hleft, hnone] at hsome
      cases hsome
    · rw [readAll, hleft] at hsome
      exact ⟨q, hsome⟩
    · rw [readAll, hleft, bytesAt_readLocal] at hsome
      exact ⟨q, hsome⟩
  obtain ⟨q, hpopulated⟩ := hpopulated
  rcases populate_left mount fs world q with hleft | ⟨m, data, hm, -, -, hcovers, hfetch, hleft⟩
  · rw [hleft, hnone] at hpopulated
    cases hpopulated
  rw [hleft] at hpopulated
  rcases bytesAt_placeFile (q := q) hp data with hsame | ⟨hparts, hput⟩
  · cases (hnone.symm.trans hsame.symm).trans hpopulated
  · cases hput.symm.trans hpopulated
    have htext : p.toString = q.toString := Path.toString_inj.2 hparts.symm
    refine ⟨m, hm, ?_, by rw [htext, hfetch]⟩
    unfold Asset.Mount.covers Path.liesUnder at hcovers ⊢
    rwa [htext]

/-- A file that is there is read as it is, without the mount. -/
theorem readAll_of_bytesAt {text : String} {data : ByteArray} (hq : fs.resolve text = .ok q)
    (hdata : fs.bytesAt q = some data) (mount : Option (Asset.Mount World)) (world : World) :
    ∃ times, fs.readAll mount world text = (.ok data, fs.setFile q data times, world) := by
  obtain ⟨times, hget⟩ := bytesAt_eq_some_iff.1 hdata
  have hfile : fs.file q = .ok (data, times) := by rw [file, hget]
  have hpopulate := populate_of_bytesAt (by rw [hdata]; rfl) mount world
  refine ⟨{ times with accessed := fs.clock }, ?_⟩
  rw [readAll, withFetched_eq hq hpopulate, readLocal, hfile]

theorem bytesAt_readAll_of_ne (hp : p.parts ≠ []) {text : String}
    (hne : ∀ q, fs.resolve text = .ok q → q.parts ≠ p.parts)
    (mount : Option (Asset.Mount World)) (world : World) :
    (fs.readAll mount world text).2.1.bytesAt p = fs.bytesAt p :=
  bytesAt_congr (get?_readAll (fun q hq => .of_ne hp (hne q hq)) mount world)

theorem bytesAt_writeFile_of_ne (hp : p.parts ≠ []) {text : String}
    (hne : ∀ q, fs.resolve text = .ok q → q.parts ≠ p.parts) (data : ByteArray) :
    (fs.writeFile text data).2.bytesAt p = fs.bytesAt p :=
  bytesAt_congr (get?_writeFile (fun q hq => .of_ne hp (hne q hq)) data)

namespace Scratch

open Host (Disk Job Location)

variable {α : Type} {s : Scratch World}

/-! ## Where copies stand -/

/-- The place of the directory itself. -/
def place (s : Scratch World) (d : Disk) : List String := d.placeOf s.root

/-- A copy stands below the components of its path. -/
theorem placeOf_hostPath (s : Scratch World) (d : Disk) (p : Path) :
    d.placeOf (s.hostPath p) = s.place d ++ p.parts := by
  unfold hostPath
  split
  · next hroot => rw [(Path.isRoot_iff p).1 hroot, List.append_nil, place]
  · next hroot =>
    have hpieces := Path.pieces_intercalate (mt (Path.isRoot_iff p).2 hroot) p.proper
    have hnamed : Disk.piecesOf ("/".intercalate p.parts) = p.parts := by
      have hown : Location.pieces ("/".intercalate p.parts) = p.parts := hpieces
      rw [Disk.piecesOf, hown, List.filter_eq_self]
      intro part hpart
      exact decide_eq_true (Path.plain_of_isComponent (p.proper part hpart)).1
    have hrelative := Path.isRooted_intercalate (mt (Path.isRoot_iff p).2 hroot) p.proper
    rw [Package.placeOf_join d s.root hrelative, hnamed, Package.foldl_advance _ _ p.proper, place]

theorem hostPath_congr (s : Scratch World) (h : q.parts = p.parts) :
    s.hostPath q = s.hostPath p := by
  unfold hostPath Path.isRoot
  rw [h]

/-- The bytes of the copy of a file. -/
def copyOf (s : Scratch World) (p : Path) (d : Disk) : Option ByteArray :=
  match d.shapeAt (s.place d ++ p.parts) with
  | some (.file data) => some data
  | _ => none

theorem copyOf_eq_some_iff {d : Disk} {data : ByteArray} :
    s.copyOf p d = some data ↔ d.shapeAt (s.place d ++ p.parts) = some (.file data) := by
  unfold copyOf
  rcases d.shapeAt (s.place d ++ p.parts) with _ | (_ | _) <;> simp

/-- What can be read is the copy. -/
theorem copyOf_of_read {d : Disk} {data : ByteArray}
    (h : d.read (s.hostPath p) = .ok data) : s.copyOf p d = some data := by
  have hfile := Disk.shapeAt_of_read h
  rw [placeOf_hostPath] at hfile
  exact copyOf_eq_some_iff.2 hfile

/-! ## Steps -/

theorem resultOf_onDisk (s : Scratch World) (job : Job α) (fs : FileSystem) (world : World) :
    resultOf (s.onDisk job) (fs, world) =
      ((resultOf job (s.disk.get world)).1, fs,
        s.disk.set world (resultOf job (s.disk.get world)).2) := by
  have hrun : s.disk.run job.run world = ((resultOf job (s.disk.get world)).1,
      s.disk.set world (resultOf job (s.disk.get world)).2) := rfl
  have hget : resultOf (get : Step World (FileSystem × World)) (fs, world) =
      (.ok (fs, world), fs, world) := rfl
  rw [onDisk, resultOf_bind, hget, goOnWith]
  dsimp only
  rw [hrun]
  cases (resultOf job (s.disk.get world)).1 <;> rfl

theorem yields_onDisk_iff {job : Job α} {fs : FileSystem} {world : World} {answer : α}
    {state : FileSystem × World} : Yields (s.onDisk job) (fs, world) answer state ↔
      ∃ d, Yields job (s.disk.get world) answer d ∧ state = (fs, s.disk.set world d) := by
  rw [Yields, resultOf_onDisk]
  simp only [Yields]
  rcases resultOf job (s.disk.get world) with ⟨e | answer', d⟩ <;> simp [eq_comm]

theorem resultOf_locate (text : String) (fs : FileSystem) (world : World) :
    resultOf (locate text : Step World Path) (fs, world) =
      ((fs.resolve text).mapError FileSystem.Error.toHost, fs, world) := by
  have hget : resultOf (get : Step World (FileSystem × World)) (fs, world) =
      (.ok (fs, world), fs, world) := rfl
  rw [locate, resultOf_bind, hget, goOnWith]
  dsimp only
  cases fs.resolve text <;> rfl

/-- What comes of copying a file out. -/
inductive Exporting (s : Scratch World) (mount : Option (Asset.Mount World)) (text : String)
    (fs : FileSystem) (world : World) : Except Host.Error String × FileSystem × World → Prop where
  /-- The text is no path. -/
  | nowhere {e : FileSystem.Error} : fs.resolve text = .error e →
      Exporting s mount text fs world (.error e.toHost, fs, world)
  /-- The file cannot be read. -/
  | unread {p : Path} {e : FileSystem.Error} {fs₁ : FileSystem} {world₁ : World} :
      fs.resolve text = .ok p → fs.readAll mount world p.toString = (.error e, fs₁, world₁) →
      Exporting s mount text fs world (.error e.toHost, fs₁, world₁)
  /-- The copy cannot be written. -/
  | stuck {p : Path} {data : ByteArray} {e : Host.Error} {fs₁ : FileSystem} {world₁ world₂ : World} :
      fs.resolve text = .ok p → fs.readAll mount world p.toString = (.ok data, fs₁, world₁) →
      resultOf (Job.install (s.hostPath p) (some data) Disk.fileMode) (s.disk.get world₁) =
        (.error e, s.disk.get world₂) →
      Exporting s mount text fs world (.error e, fs₁, world₂)
  | copied {p : Path} {data : ByteArray} {fs₁ : FileSystem} {world₁ world₂ : World} :
      fs.resolve text = .ok p → fs.readAll mount world p.toString = (.ok data, fs₁, world₁) →
      Yields (Job.install (s.hostPath p) (some data) Disk.fileMode) (s.disk.get world₁) ()
        (s.disk.get world₂) →
      Exporting s mount text fs world (.ok (s.hostPath p), fs₁, world₂)

theorem exporting {s : Scratch World} (hs : s.disk.Lawful) (mount : Option (Asset.Mount World))
    (text : String) (fs : FileSystem) (world : World) :
    Exporting s mount text fs world (resultOf (s.exportFile mount text) (fs, world)) := by
  have hget : resultOf (get : Step World (FileSystem × World)) (fs, world) =
      (.ok (fs, world), fs, world) := rfl
  rw [exportFile, resultOf_bind, resultOf_locate]
  cases hp : fs.resolve text with
  | error e => exact .nowhere hp
  | ok p =>
    simp only [Except.mapError, goOnWith, resultOf_bind, hget]
    rcases hread : fs.readAll mount world p.toString with ⟨e | data, fs₁, world₁⟩
    · exact .unread hp hread
    · have hset : resultOf (set (fs₁, world₁) : Step World PUnit) (fs, world) =
          (.ok ⟨⟩, fs₁, world₁) := rfl
      have hinstall : resultOf (Job.install (s.hostPath p) (some data) Disk.fileMode)
          (s.disk.get world₁) = goOnWith (fun _ => Job.write (s.hostPath p) data)
            (resultOf (Job.makeParents (s.hostPath p)) (s.disk.get world₁)) :=
        resultOf_bind _ _ _
      simp only [hset, goOnWith, resultOf_bind, resultOf_onDisk]
      rcases hparents : resultOf (Job.makeParents (s.hostPath p)) (s.disk.get world₁) with
        ⟨e | _, d₁⟩ <;> rw [hparents] at hinstall
      · exact .stuck hp hread (by rw [hs.get_set, hinstall]; rfl)
      · dsimp only
        rw [resultOf_onDisk, hs.get_set]
        -- the disk is put into the world twice, and what was put last is there
        have hlast (d₂ : Disk) := hs.get_set (s.disk.set world₁ d₁) d₂
        rcases hwrite : resultOf (Job.write (s.hostPath p) data) d₁ with ⟨e | _, d₂⟩
        · exact .stuck hp hread (by rw [hlast d₂, hinstall]; exact hwrite)
        · exact .copied hp hread (by rw [hlast d₂, Yields, hinstall]; exact hwrite)

/-- What comes of copying a file back. -/
inductive Importing (s : Scratch World) (text : String) (fs : FileSystem) (world : World) :
    Except Host.Error Bool × FileSystem × World → Prop where
  | nowhere {e : FileSystem.Error} : fs.resolve text = .error e →
      Importing s text fs world (.error e.toHost, fs, world)
  /-- There is no copy. -/
  | absent {p : Path} {e : Host.Error} : fs.resolve text = .ok p →
      (s.disk.get world).read (s.hostPath p) = .error e → e.kind = .notFound →
      Importing s text fs world (.ok false, fs, world)
  | unread {p : Path} {e : Host.Error} : fs.resolve text = .ok p →
      (s.disk.get world).read (s.hostPath p) = .error e → e.kind ≠ .notFound →
      Importing s text fs world (.error e, fs, world)
  | written {p : Path} {data : ByteArray} : fs.resolve text = .ok p →
      (s.disk.get world).read (s.hostPath p) = .ok data →
      Importing s text fs world
        (((fs.writeFile p.toString data).1.map fun _ => true).mapError FileSystem.Error.toHost,
          (fs.writeFile p.toString data).2, world)

theorem importing (s : Scratch World) (text : String) (fs : FileSystem) (world : World) :
    Importing s text fs world (resultOf (s.importFile text) (fs, world)) := by
  have hget : resultOf (get : Step World (FileSystem × World)) (fs, world) =
      (.ok (fs, world), fs, world) := rfl
  rw [importFile, resultOf_bind, resultOf_locate]
  cases hp : fs.resolve text with
  | error e => exact .nowhere hp
  | ok p =>
    simp only [Except.mapError, goOnWith, resultOf_bind, hget]
    cases hread : (s.disk.get world).read (s.hostPath p) with
    | error e =>
      by_cases hkind : e.kind = .notFound
      · simp only [hkind, if_true]
        exact .absent hp hread hkind
      · simp only [hkind, if_false]
        exact .unread hp hread hkind
    | ok data =>
      have hwritten := Importing.written hp hread
      rcases hwrite : fs.writeFile p.toString data with ⟨e | ⟨⟩, fs'⟩ <;> rw [hwrite] at hwritten <;>
        simp only [hwrite] <;> exact hwritten

end Scratch

end FileSystem

end Workbench
