import Mathlib.Data.List.Forall2
import Workbench.Proofs.HostLaunches
import Workbench.Proofs.Installing
import Workbench.Proofs.Making

set_option autoImplicit false

/-! # Out to a scratch directory and back

Files that are copied out one after the other do not disturb each other: each copy stands below the
components of its path, and where one path goes on from another there are not two files. So in an
empty directory every copy can be written that the system takes the path of, and at the end each
has the bytes of its file. What is copied back from there, into whatever file system it can be
written to, has these bytes again, and again the files do not get in each other's way. -/

namespace Workbench

section Runs

variable {ε σ α β : Type}

/-- What comes of a step for one thing after the other, whatever comes of each. -/
def resultsOf (step : α → ExceptT ε (StateM σ) β) : List α → σ → List (Except ε β) × σ
  | [], s => ([], s)
  | a :: as, s =>
    let first := resultOf (step a) s
    let later := resultsOf step as first.2
    (first.1 :: later.1, later.2)

end Runs

namespace FileSystem

variable {World : Type}

/-! ## Where a file can be written -/

/-- Whatever is to be written at a path, writing it is granted. -/
def Writable (fs : FileSystem) (p : Path) : Prop :=
  ∀ data, (fs.writeFile p.toString data).1 = .ok ()

namespace View

/-- A file can be put at a place: no directory is there and no file above. -/
structure Free (v : View) (place : List String) : Prop where
  here : ∀ node, v place = some node → node.isDir = false
  above : v.Passable place.dropLast

/-- Two places that are the same or neither above the other. -/
def Apart (place other : List String) : Prop :=
  place = other ∨ ¬ place <+: other ∧ ¬ other <+: place

/-- A place stays free where a file is put at a free place apart from it. -/
theorem Free.put {v : View} {place other : List String} (h : v.Free place) (hother : other ≠ [])
    (hapart : Apart place other) (now : Time) {file : Node} (hfile : file.isDir = false) :
    ((v.trail now other).set other (some file)).Free place := by
  constructor
  · intro node hnode
    unfold set at hnode
    split at hnode
    · cases hnode
      exact hfile
    · next hne =>
      obtain ⟨hbelow, -⟩ := hapart.resolve_left hne
      rw [trail_aside v now hbelow] at hnode
      exact h.here node hnode
  · intro above habove node hnode
    have hon : above <+: place := habove.trans (List.dropLast_prefix place)
    unfold set at hnode
    split at hnode
    · -- what is put is not above the place
      next heq =>
      subst heq
      rcases hapart with rfl | ⟨-, hnot⟩
      · have hlength := habove.length_le
        have hpos := List.length_pos_iff.2 hother
        rw [List.length_dropLast] at hlength
        omega
      · exact absurd hon hnot
    · by_cases hway : above <+: other
      · exact isDir_of_trail now hway (h.above above habove) hnode
      · rw [trail_aside v now hway] at hnode
        exact h.above above habove node hnode

end View

variable {v : View} {fs fs' : FileSystem} {p q : Path}

/-- Writing at the written form of a path is putting a file there. -/
theorem writeFile_toString (fs : FileSystem) (p : Path) : ∃ q : Path, q.parts = p.parts ∧
    ∀ data, fs.writeFile p.toString data =
      if fs.isDir q then (.error (.isDirectory q.toString), fs) else fs.placeFile q data := by
  obtain ⟨q, hq, hparts⟩ := fs.resolve_toString p
  exact ⟨q, hparts, fun data => by rw [writeFile, hq]⟩

namespace Shows

/-- What is there after a file was written at a free place. -/
theorem writeFile_free (h : fs.Shows v) (hfree : v.Free p.parts) (data : ByteArray) :
    (fs.writeFile p.toString data).1 = .ok () ∧ (fs.writeFile p.toString data).2.Shows
      ((v.trail fs.clock p.parts).set p.parts (some (.file data (.stamp fs.clock)))) := by
  obtain ⟨q, hparts, hwrite⟩ := fs.writeFile_toString p
  rw [← hparts] at hfree ⊢
  have hdir : fs.isDir q = false := by
    rw [h.table.isDir_eq, Option.any_eq_false]
    intro node hnode
    rw [hfree.here node hnode]
  have hroot : q.parts ≠ [] := by
    intro hnil
    obtain ⟨node, hnode, hisDir⟩ := h.table.root
    exact Bool.false_ne_true ((hfree.here node (hnil ▸ hnode)).symm.trans hisDir)
  have hok := h.placeFile_ok hroot hfree.above data
  rw [hwrite, hdir, if_neg Bool.false_ne_true]
  rcases h.placeFile hfree.here data with ⟨-, nodes', hplaced, hshows⟩ | ⟨e, hrefused⟩
  · rw [hplaced]
    exact ⟨rfl, hshows⟩
  · rw [hrefused] at hok
    cases hok

theorem writable_iff (h : fs.Shows v) : fs.Writable p ↔ v.Free p.parts := by
  refine ⟨fun hw => ?_, fun hfree data => (h.writeFile_free hfree data).1⟩
  obtain ⟨q, hparts, hwrite⟩ := fs.writeFile_toString p
  have hok := hw .empty
  rw [hwrite] at hok
  rw [← hparts]
  split_ifs at hok with hdir
  have hhere : ∀ node, v q.parts = some node → node.isDir = false := by
    intro node hnode
    rw [h.table.isDir_eq, hnode, Option.any_some] at hdir
    exact Bool.not_eq_true _ ▸ hdir
  rcases h.placeFile hhere .empty with ⟨hpass, -⟩ | ⟨e, hrefused⟩
  · exact ⟨hhere, hpass⟩
  · rw [hrefused] at hok
    cases hok

end Shows

/-! ## Copying out -/

/-- A file system of which files were read. -/
structure OnlyRead (fs fs' : FileSystem) : Prop where
  reachable : Reachable fs'
  nodes : OnlyNodes fs fs'
  bytes : ∀ p, fs'.bytesAt p = fs.bytesAt p

/-- A file that is there is read without a change to any bytes. -/
theorem OnlyRead.readAll (h : OnlyRead fs fs') {text : String} {data : ByteArray}
    (hq : fs'.resolve text = .ok q) (hdata : fs.bytesAt q = some data)
    (mount : Option (Asset.Mount World)) (world : World) :
    ∃ fs'', fs'.readAll mount world text = (.ok data, fs'', world) ∧ OnlyRead fs fs'' := by
  obtain ⟨times, hread⟩ := readAll_of_bytesAt hq ((h.bytes q).trans hdata) mount world
  refine ⟨_, hread, ?_, ?_, fun p => ?_⟩
  · have hreachable := h.reachable.readAll mount world text
    rwa [hread] at hreachable
  · have hnodes := h.nodes.trans (.readAll mount fs' world text)
    rwa [hread] at hnodes
  · rw [bytesAt_setFile]
    split_ifs with hparts
    · rw [← hdata, bytesAt_eq_of_parts fs hparts]
    · exact h.bytes p

namespace Scratch

open Host (Disk Job Location)
open Host.Disk Host.Job

variable {s : Scratch World} {d d' : Disk} {a b : FileSystem × World}
  {mount : Option (Asset.Mount World)} {text : String} {data : ByteArray}

/-- Copying out a file that is there is putting its bytes in place. -/
theorem exportFile_eq (hs : s.disk.Lawful) (ha : OnlyRead fs a.1) (hp : fs.resolve text = .ok p)
    (hdata : fs.bytesAt p = some data) (mount : Option (Asset.Mount World)) :
    ∃ result b, resultOf (install (s.hostPath p) (some data) fileMode) (s.disk.get a.2) =
        (result, s.disk.get b.2) ∧ OnlyRead fs b.1 ∧
      resultOf (s.exportFile mount text) a = (result.map fun _ => s.hostPath p, b) := by
  obtain ⟨fs₁, world⟩ := a
  have hp₁ : fs₁.resolve text = .ok p := (ha.nodes.resolve text).trans hp
  obtain ⟨q, hq, hparts⟩ := fs₁.resolve_toString p
  obtain ⟨fs₂, hread, honly⟩ :=
    ha.readAll hq ((bytesAt_eq_of_parts fs hparts).trans hdata) mount world
  have hcases := exporting hs mount text fs₁ world
  generalize hresult : resultOf (s.exportFile mount text) (fs₁, world) = result at hcases
  cases hcases with
  | nowhere hnowhere => cases hp₁.symm.trans hnowhere
  | unread hp' hread' =>
    cases hp₁.symm.trans hp'
    cases hread.symm.trans hread'
  | stuck hp' hread' hinstall =>
    cases hp₁.symm.trans hp'
    cases hread.symm.trans hread'
    exact ⟨_, (_, _), hinstall, honly, rfl⟩
  | copied hp' hread' hinstall =>
    cases hp₁.symm.trans hp'
    cases hread.symm.trans hread'
    exact ⟨_, (_, _), hinstall, honly, rfl⟩

/-- A copy that can be read stays as it is, unless other bytes are written in its place. -/
theorem read_install (hd : d.Grounded) {bytes : ByteArray} {result : Except Host.Error Unit}
    (h : resultOf (install (s.hostPath p) (some data) fileMode) d = (result, d'))
    (hread : d.read (s.hostPath q) = .ok bytes) (hsame : q.parts = p.parts → bytes = data) :
    d'.read (s.hostPath q) = .ok bytes := by
  cases result with
  | error e => exact (paved_of_install_error hd h).grown.read hread List.not_mem_nil
  | ok =>
    by_cases hparts : q.parts = p.parts
    · rw [hostPath_congr s hparts, hsame hparts]
      exact read_of_install hd h
    · have hfurnished := furnished_install hd (s.hostPath p) data fileMode
      rw [h] at hfurnished
      refine hfurnished.read hread (hfurnished.kept List.nil_prefix ?_ (shapeAt_of_read hread))
      rw [List.mem_singleton, placeOf_hostPath, placeOf_hostPath]
      exact fun heq => hparts (List.append_cancel_left heq)

/-! ## A directory that holds copies -/

/-- The path of a copy ends in the components of the copied path. -/
theorem pieces_hostPath (s : Scratch World) (hp : p.parts ≠ []) :
    ∃ init, Location.pieces (s.hostPath p) = init ++ p.parts := by
  have hown : Location.pieces ("/".intercalate p.parts) = p.parts :=
    Path.pieces_intercalate hp p.proper
  obtain ⟨init, -, hpieces⟩ :=
    Package.pieces_join s.root (Path.isRooted_intercalate hp p.proper)
  rw [hown] at hpieces
  rw [hostPath, if_neg (mt (Path.isRoot_iff p).1 hp)]
  exact ⟨init, hpieces⟩

/-- The directory above a copy lies below the components above its path. -/
theorem parentText?_hostPath (s : Scratch World) (hp : p.parts ≠ []) :
    ∃ parent, Location.parentText? (s.hostPath p) = some parent ∧
      wayOf parent = wayOf s.root ++ p.parts.dropLast ∧
      Location.isRooted parent = Location.isRooted s.root := by
  obtain ⟨habsolute, hparts⟩ := s.extends_hostPath p
  have hne : (Location.ofText (s.hostPath p)).parts ≠ [] := by
    rw [hparts]
    exact List.append_ne_nil_of_right_ne_nil _ hp
  have hproper : ∀ part ∈ (Location.ofText (s.hostPath p)).parts.dropLast,
      part ≠ "" ∧ '/' ∉ part.toList :=
    fun part hpart => proper_of_mem_ofText (List.dropLast_subset _ hpart)
  obtain ⟨hway, hrooted⟩ := wayOf_toText (l := { Location.ofText (s.hostPath p) with
    parts := (Location.ofText (s.hostPath p)).parts.dropLast }) hproper
  refine ⟨_, ?_, ?_, hrooted.trans habsolute⟩
  · rw [Location.parentText?, Location.parent?, if_neg (by simpa using hne), Option.map_some]
  · have hplain : p.parts.dropLast.filter (· ≠ ".") = p.parts.dropLast := by
      refine List.filter_eq_self.2 fun part hpart => decide_eq_true ?_
      exact (Path.plain_of_isComponent (p.proper part (List.dropLast_subset _ hpart))).2.1
    rw [hway]
    dsimp only
    rw [hparts, List.dropLast_append_of_ne_nil hp, List.filter_append, filter_ofText_parts, hplain]

/-- On the way to it is what is on the way to the scratch directory, and what is below that. -/
theorem onWay_parent {parent : String} (hway : wayOf parent = wayOf s.root ++ p.parts.dropLast)
    (hrooted : Location.isRooted parent = Location.isRooted s.root) {place : List String}
    (h : d.OnWay parent place) :
    d.OnWay s.root place ∨ ∃ first, first <+: p.parts.dropLast ∧ place = s.place d ++ first := by
  obtain ⟨pieces, hpieces, rfl⟩ := h
  have hstart : d.startOf parent = d.startOf s.root := by rw [startOf, startOf, hrooted]
  rw [hway] at hpieces
  rw [hstart]
  rcases List.prefix_or_prefix_of_prefix hpieces (List.prefix_append _ _) with hroot | hroot
  · exact Or.inl ⟨pieces, hroot, rfl⟩
  · obtain ⟨first, rfl⟩ := hroot
    have hfirst : first <+: p.parts.dropLast := (List.prefix_append_right_inj _).1 hpieces
    refine Or.inr ⟨first, hfirst, ?_⟩
    have hproper : ∀ piece ∈ first, Path.isComponent piece = true :=
      fun piece hpiece => p.proper piece (List.dropLast_subset _ (hfirst.subset hpiece))
    rw [List.foldl_append, ← placeOf_eq_way, Package.foldl_advance _ _ hproper, place]

/-- Nothing is in the directory, and on its way are directories. What is missing of them is above
    the directory. -/
structure Fresh (s : Scratch World) (d : Disk) : Prop where
  way : ∀ place, d.OnWay s.root place →
    d.shapeAt place = some .dir ∨ d.shapeAt place = none ∧ place <+: s.place d
  empty : ∀ name, d.shapeAt (s.place d ++ [name]) = none

/-- A directory that is there and empty. -/
theorem Fresh.of_list (hd : d.Grounded) (h : d.list s.root = .ok []) : s.Fresh d where
  way _ hplace := Or.inl (shapeAt_of_onWay hd (isDir_of_list h) hplace)
  empty name := by
    rw [← Option.not_isSome_iff_eq_none, place, ← mem_names_iff h]
    exact List.not_mem_nil

/-- What stands in the directory are directories and files of a file system, and there is no file on
    its way. -/
structure Reflects (s : Scratch World) (fs : FileSystem) (d : Disk) : Prop where
  grounded : d.Grounded
  way : ∀ place, d.OnWay s.root place → d.shapeAt place = some .dir ∨
    (∀ data, d.shapeAt place ≠ some (.file data)) ∧ place <+: s.place d
  files : ∀ (p : Path) data, p.parts ≠ [] →
    d.shapeAt (s.place d ++ p.parts) = some (.file data) → fs.isFile p = true
  dirs : ∀ p : Path, p.parts ≠ [] →
    d.shapeAt (s.place d ++ p.parts) = some .dir → fs.isDir p = true

theorem Fresh.reflects (h : s.Fresh d) (hd : d.Grounded) (fs : FileSystem) : s.Reflects fs d := by
  have hnothing (p : Path) (hp : p.parts ≠ []) : d.shapeAt (s.place d ++ p.parts) = none := by
    obtain ⟨name, rest, hparts⟩ := List.exists_cons_of_ne_nil hp
    rw [hparts]
    by_contra hthere
    have hfirst := h.empty name
    cases rest with
    | nil => exact hthere hfirst
    | cons next rest =>
      rw [List.append_cons] at hthere
      cases hfirst.symm.trans (shapeAt_above next rest (Option.isSome_iff_ne_none.2 hthere))
  refine ⟨hd, fun place hplace => ?_, fun p data hp hfile => ?_, fun p hp hdir => ?_⟩
  · obtain hthere | ⟨hnone, habove⟩ := h.way place hplace
    · exact Or.inl hthere
    · refine Or.inr ⟨fun data hfile => ?_, habove⟩
      cases hnone.symm.trans hfile
  · cases (hnothing p hp).symm.trans hfile
  · cases (hnothing p hp).symm.trans hdir

/-- Above a file are directories. -/
theorem isDir_above (h : Reachable fs) (hfile : fs.isFile p = true) (hq : q.parts <+: p.parts)
    (hne : q.parts ≠ p.parts) : fs.isDir q = true := by
  obtain ⟨v, hv⟩ := h.shows
  obtain ⟨more, hmore⟩ := hq
  have hnil : more ≠ [] := by
    rintro rfl
    exact hne (by rw [← hmore, List.append_nil])
  have hsome : (v (q.parts ++ more)).isSome := by
    rw [hmore]
    exact (hv.isFile_or_isDir p).1 (Or.inl hfile)
  obtain ⟨dir, hdir, hisDir⟩ := hv.tree.dir_above q.parts hnil hsome
  rw [hv.table.isDir_eq, hdir, Option.any_some, hisDir]

/-- What is strictly above the place of a file is the place of a directory. -/
theorem exists_dir_above (h : Reachable fs) (hfile : fs.isFile p = true) {first : List String}
    (hfirst : first <+: p.parts.dropLast) : ∃ q : Path, q.parts = first ∧ fs.isDir q = true := by
  have hroot : p.parts ≠ [] := h.parts_ne_nil ((isFile_eq_isSome fs p).symm.trans hfile)
  have hprefix : first <+: p.parts := hfirst.trans (List.dropLast_prefix _)
  have hparts : (p.above first.length).parts = first := (List.prefix_iff_eq_take.1 hprefix).symm
  refine ⟨p.above first.length, hparts, isDir_above h hfile (by rwa [hparts]) fun heq => ?_⟩
  have hlength := hfirst.length_le
  have hpos := List.length_pos_iff.2 hroot
  rw [List.length_dropLast, ← hparts, heq] at hlength
  omega

/-- What is below a place is not above it. -/
theorem not_prefix_place (place : List String) {parts : List String} (hparts : parts ≠ []) :
    ¬ place ++ parts <+: place := by
  intro hprefix
  have hlength := hprefix.length_le
  have hpos := List.length_pos_iff.2 hparts
  rw [List.length_append] at hlength
  omega

namespace Reflects

/-- On the way of the directory is no file. -/
theorem not_file (hr : s.Reflects fs d) {place : List String} (hway : d.OnWay s.root place)
    (data : ByteArray) : d.shapeAt place ≠ some (.file data) := by
  rcases hr.way place hway with hdir | ⟨hnone, -⟩
  · rw [hdir]
    rintro ⟨⟩
  · exact hnone data

/-- In the place of a file is no directory. -/
theorem not_dir (hr : s.Reflects fs d) (h : Reachable fs) (hfile : fs.isFile p = true)
    (hp : p.parts ≠ []) : d.shapeAt (s.place d ++ p.parts) ≠ some .dir :=
  fun hdir => h.wellFormed.exclusive p ⟨hfile, hr.dirs p hp hdir⟩

/-- Nor is that place on the way of the directory. -/
theorem not_onWay (hr : s.Reflects fs d) (h : Reachable fs) (hfile : fs.isFile p = true)
    (hp : p.parts ≠ []) : ¬ d.OnWay s.root (s.place d ++ p.parts) := by
  intro hway
  rcases hr.way _ hway with hdir | ⟨-, habove⟩
  · exact hr.not_dir h hfile hp hdir
  · exact not_prefix_place _ hp habove

/-- A file can be copied out, if the system takes the path of the copy. -/
theorem install_ok (hr : s.Reflects fs d) (h : Reachable fs) (hfile : fs.isFile p = true)
    (hp : p.parts ≠ []) (hfits : Fits (s.hostPath p)) (data : ByteArray) :
    ∃ d', Yields (install (s.hostPath p) (some data) fileMode) d () d' := by
  obtain ⟨parent, hparent, hway, hrooted⟩ := s.parentText?_hostPath hp
  have hplace := placeOf_hostPath s d p
  obtain ⟨init, hpieces⟩ := s.pieces_hostPath hp
  obtain ⟨above, name, hparts⟩ := exists_concat hp
  have hname : Path.isComponent name = true :=
    p.proper name (hparts ▸ List.mem_append_right above (List.mem_singleton_self name))
  rw [hparts, ← List.append_assoc] at hpieces
  refine Job.amend_ok hr.grounded ⟨hfits, ⟨_, _, hpieces, hname⟩, hparent, ?_, ?_, ?_⟩ fileMode
    fun _ => data
  · -- there is no file on the way: the one that is copied has directories above it
    intro place honWay data hthere
    rcases onWay_parent hway hrooted honWay with hroot | ⟨first, hfirst, rfl⟩
    · exact hr.not_file hroot data hthere
    · obtain ⟨q, rfl, hdir⟩ := exists_dir_above h hfile hfirst
      by_cases hq : q.parts = []
      · rw [hq, List.append_nil] at hthere
        exact hr.not_file (d.onWay_placeOf s.root) data hthere
      · exact h.wellFormed.exclusive q ⟨hr.files q data hq hthere, hdir⟩
  · rw [hplace]
    exact hr.not_dir h hfile hp
  · rw [hplace]
    intro honWay
    rcases onWay_parent hway hrooted honWay with hroot | ⟨first, hfirst, heq⟩
    · exact hr.not_onWay h hfile hp hroot
    · have hlength := hfirst.length_le
      have hpos := List.length_pos_iff.2 hp
      rw [← List.append_cancel_left heq, List.length_dropLast] at hlength
      omega

/-- What is copied out of a file system stands in the directory as it does there. -/
theorem install (hr : s.Reflects fs d) (h : Reachable fs) (hfile : fs.isFile p = true)
    (hp : p.parts ≠ []) {result : Except Host.Error Unit}
    (hresult : resultOf (Job.install (s.hostPath p) (some data) fileMode) d = (result, d')) :
    s.Reflects fs d' := by
  obtain ⟨parent, hparent, hway, hrooted⟩ := s.parentText?_hostPath hp
  obtain ⟨hcwd, hshapes⟩ := installed_install hr.grounded hparent data fileMode
  rw [hresult, placeOf_hostPath] at hshapes
  rw [hresult] at hcwd
  dsimp only at hcwd hshapes
  have hsame : s.place d' = s.place d := by rw [place, place, placeOf, placeOf, hcwd]
  have hgrounded : d'.Grounded := by
    have hfurnished := furnished_install hr.grounded (s.hostPath p) data fileMode
    rw [hresult] at hfurnished
    exact hfurnished.grounded hr.grounded
  refine ⟨hgrounded, fun place hplace => ?_, fun q data' hq hthere => ?_, fun q hq hthere => ?_⟩
  · have honWay : d.OnWay s.root place := by
      rwa [OnWay, startOf, hcwd, ← startOf, ← OnWay] at hplace
    rw [hsame]
    rcases hshapes place with hkept | ⟨-, -, hdir⟩ | ⟨rfl, -⟩
    · rw [hkept]
      exact hr.way place honWay
    · exact Or.inl hdir
    · exact absurd honWay (hr.not_onWay h hfile hp)
  · rw [hsame] at hthere
    rcases hshapes (s.place d ++ q.parts) with hkept | ⟨-, -, hdir⟩ | ⟨heq, -⟩
    · exact hr.files q data' hq (hkept ▸ hthere)
    · cases hdir.symm.trans hthere
    · rw [isFile, Path.fileKey_inj.2 (List.append_cancel_left heq)]
      exact hfile
  · rw [hsame] at hthere
    rcases hshapes (s.place d ++ q.parts) with hkept | ⟨honWay, hnone, -⟩ | ⟨-, hwritten⟩
    · exact hr.dirs q hq (hkept ▸ hthere)
    · -- a directory that is new is above the file
      rcases onWay_parent hway hrooted honWay with hroot | ⟨first, hfirst, heq⟩
      · rcases hr.way _ hroot with hdir | ⟨-, habove⟩
        · cases hnone.symm.trans hdir
        · exact absurd habove (not_prefix_place _ hq)
      · obtain ⟨r, hr', hdir⟩ := exists_dir_above h hfile hfirst
        have hparts : r.parts = q.parts := hr'.trans (List.append_cancel_left heq).symm
        rw [isDir, ← Path.dirKey_inj.2 hparts]
        exact hdir
    · cases hwritten.symm.trans hthere

end Reflects

/-! ## One file after the other -/

/-- Texts that name files. -/
def NameFiles (fs : FileSystem) (texts : List String) : Prop :=
  ∀ text ∈ texts, ∃ p, fs.resolve text = .ok p ∧ fs.isFile p = true

/-- An answer says where the copy of a file stands, if it does, and there are its bytes. -/
def Told (s : Scratch World) (fs : FileSystem) (d : Disk) (text : String)
    (answer : Except Host.Error String) : Prop :=
  ∃ p data, fs.resolve text = .ok p ∧ fs.bytesAt p = some data ∧
    ∀ path, answer = .ok path → path = s.hostPath p ∧ d.read path = .ok data

/-- A file is copied out, if the system takes the path of the copy. -/
def Granted (s : Scratch World) (fs : FileSystem) (text : String)
    (answer : Except Host.Error String) : Prop :=
  ∀ p, fs.resolve text = .ok p → Fits (s.hostPath p) → answer = .ok (s.hostPath p)

theorem exists_bytes (hfile : fs.isFile p = true) : ∃ data, fs.bytesAt p = some data :=
  Option.isSome_iff_exists.1 ((isFile_eq_isSome fs p).symm.trans hfile)

/-- Files that are copied out are only read, no copy is lost, and every answer is right at the
    end. -/
theorem told_exportFile (hs : s.disk.Lawful) {texts : List String} (hfiles : NameFiles fs texts)
    (mount : Option (Asset.Mount World)) (ha : OnlyRead fs a.1)
    (hd : (s.disk.get a.2).Grounded) {answers : List (Except Host.Error String)}
    (h : resultsOf (s.exportFile mount) texts a = (answers, b)) :
    OnlyRead fs b.1 ∧
      (∀ q bytes, fs.bytesAt q = some bytes →
        (s.disk.get a.2).read (s.hostPath q) = .ok bytes →
        (s.disk.get b.2).read (s.hostPath q) = .ok bytes) ∧
      List.Forall₂ (s.Told fs (s.disk.get b.2)) texts answers := by
  induction texts generalizing a answers with
  | nil =>
    cases h
    exact ⟨ha, fun _ _ _ => id, .nil⟩
  | cons text texts ih =>
    obtain ⟨p, hp, hfile⟩ := hfiles text List.mem_cons_self
    obtain ⟨data, hdata⟩ := exists_bytes hfile
    obtain ⟨result, a₁, hinstall, honly, hexport⟩ := exportFile_eq hs ha hp hdata mount
    rw [resultsOf, hexport] at h
    obtain ⟨rfl, rfl⟩ := Prod.mk.inj h
    have hd₁ : (s.disk.get a₁.2).Grounded := by
      have hfurnished := furnished_install hd (s.hostPath p) data fileMode
      rw [hinstall] at hfurnished
      exact hfurnished.grounded hd
    obtain ⟨honly', hkept, htold⟩ :=
      ih (fun other hother => hfiles other (List.mem_cons_of_mem text hother)) honly hd₁ rfl
    refine ⟨honly', fun q bytes hbytes hread => hkept q bytes hbytes ?_, .cons ?_ htold⟩
    · refine read_install hd hinstall hread fun hparts => ?_
      rw [bytesAt_eq_of_parts fs hparts, hdata] at hbytes
      exact (Option.some.inj hbytes).symm
    · refine ⟨p, data, hp, hdata, fun path hpath => ?_⟩
      cases result with
      | error e => cases hpath
      | ok =>
        cases hpath
        exact ⟨rfl, hkept p data hdata (read_of_install hd hinstall)⟩

/-- In a directory in which only such copies are all are copied out of which the system takes the
    path. -/
theorem granted_exportFile (hs : s.disk.Lawful) (h : Reachable fs) {texts : List String}
    (hfiles : NameFiles fs texts) (mount : Option (Asset.Mount World)) (ha : OnlyRead fs a.1)
    (hr : s.Reflects fs (s.disk.get a.2)) :
    List.Forall₂ (s.Granted fs) texts (resultsOf (s.exportFile mount) texts a).1 := by
  induction texts generalizing a with
  | nil => exact .nil
  | cons text texts ih =>
    obtain ⟨p, hp, hfile⟩ := hfiles text List.mem_cons_self
    obtain ⟨data, hdata⟩ := exists_bytes hfile
    have hroot := h.parts_ne_nil (hdata ▸ Option.isSome_some)
    obtain ⟨result, a₁, hinstall, honly, hexport⟩ := exportFile_eq hs ha hp hdata mount
    rw [resultsOf, hexport]
    refine .cons (fun q hq hfits => ?_)
      (ih (fun other hother => hfiles other (List.mem_cons_of_mem text hother)) honly
        (hr.install h hfile hroot hinstall))
    cases hp.symm.trans hq
    obtain ⟨d', hyields⟩ := hr.install_ok h hfile hroot hfits data
    cases hinstall.symm.trans hyields
    rfl

/-! ## Copying back -/

/-- Copying back a copy that can be read is writing it, where it can be written. -/
theorem importFile_eq (hp : b.1.resolve text = .ok p)
    (hread : (s.disk.get b.2).read (s.hostPath p) = .ok data) (hw : b.1.Writable p) :
    resultOf (s.importFile text) b = (.ok true, (b.1.writeFile p.toString data).2, b.2) := by
  obtain ⟨fs, world⟩ := b
  have hcases := importing s text fs world
  generalize hresult : resultOf (s.importFile text) (fs, world) = result at hcases
  cases hcases with
  | nowhere hnowhere => cases hp.symm.trans hnowhere
  | absent hp' hread' | unread hp' hread' =>
    cases hp.symm.trans hp'
    cases hread.symm.trans hread'
  | written hp' hread' =>
    cases hp.symm.trans hp'
    cases hread.symm.trans hread'
    rw [hw data]
    rfl

/-- Of two files neither is above the other. -/
theorem apart_of_isFile (h : Reachable fs) (hp : fs.isFile p = true) (hq : fs.isFile q = true) :
    View.Apart p.parts q.parts := by
  by_cases hparts : p.parts = q.parts
  · exact Or.inl hparts
  · exact Or.inr
      ⟨fun hprefix => h.wellFormed.exclusive p ⟨hp, isDir_above h hq hprefix hparts⟩,
        fun hprefix => h.wellFormed.exclusive q ⟨hq, isDir_above h hp hprefix (Ne.symm hparts)⟩⟩

/-- Where a file can be written it still can once another one is, if neither is above the other. -/
theorem writable_writeFile (h : Reachable fs) (hp : fs.Writable p) (hq : fs.Writable q)
    (hapart : View.Apart p.parts q.parts) (data : ByteArray) :
    (fs.writeFile q.toString data).2.Writable p := by
  obtain ⟨v, hv⟩ := h.shows
  have hpfree := hv.writable_iff.1 hp
  have hqfree := hv.writable_iff.1 hq
  have hroot : q.parts ≠ [] := by
    intro hnil
    obtain ⟨node, hnode, hdir⟩ := hv.table.root
    exact Bool.false_ne_true ((hqfree.here node (hnil ▸ hnode)).symm.trans hdir)
  obtain ⟨-, hshows⟩ := hv.writeFile_free hqfree data
  exact hshows.writable_iff.2 (hpfree.put hroot hapart fs.clock rfl)

/-- A text names a file of which there is a copy, where it can be written. -/
def Returnable (s : Scratch World) (source : FileSystem) (b : FileSystem × World) (text : String) :
    Prop :=
  ∃ p data, b.1.resolve text = .ok p ∧ source.bytesAt p = some data ∧
    (s.disk.get b.2).read (s.hostPath p) = .ok data ∧ b.1.Writable p

/-- All such texts are copied back, and the files have the bytes of the copies then. -/
theorem returned_all {source : FileSystem} (h : Reachable source) {texts : List String}
    (hb : Reachable b.1) (htexts : ∀ text ∈ texts, s.Returnable source b text) :
    (resultsOf s.importFile texts b).1 = texts.map (fun _ => .ok true) ∧
      s.Returned texts b (resultsOf s.importFile texts b).2 ∧
      ∀ text ∈ texts, ∀ p, b.1.resolve text = .ok p →
        (resultsOf s.importFile texts b).2.1.bytesAt p = source.bytesAt p := by
  induction texts generalizing b with
  | nil => exact ⟨rfl, .refl [] hb, fun text htext => absurd htext List.not_mem_nil⟩
  | cons text texts ih =>
    obtain ⟨p, data, hp, hdata, hread, hw⟩ := htexts text List.mem_cons_self
    have himport := importFile_eq hp hread hw
    have hfirst := returned_importFile (s := s) hb text
    rw [himport] at hfirst
    have hfile {q : Path} {bytes : ByteArray} (hbytes : source.bytesAt q = some bytes) :
        source.isFile q = true := by
      rw [isFile_eq_isSome, hbytes]
      rfl
    have hlater : ∀ other ∈ texts,
        s.Returnable source ((b.1.writeFile p.toString data).2, b.2) other := by
      intro other hother
      obtain ⟨q, bytes, hq, hbytes, hreadable, hwritable⟩ :=
        htexts other (List.mem_cons_of_mem text hother)
      exact ⟨q, bytes, (hfirst.nodes.resolve other).trans hq, hbytes, hreadable,
        writable_writeFile hb hwritable hw (apart_of_isFile h (hfile hbytes) (hfile hdata)) data⟩
    obtain ⟨hanswers, hreturned, hbytes⟩ := ih hfirst.reachable hlater
    rw [resultsOf, himport]
    refine ⟨by rw [List.map_cons, hanswers], ?_, fun other hother q hq => ?_⟩
    · exact (hfirst.mono (by simp)).trans (hreturned.mono (List.subset_cons_self text texts))
    · rcases List.mem_cons.1 hother with rfl | hother
      · cases hp.symm.trans hq
        have hwritten : (b.1.writeFile p.toString data).2.bytesAt p = some data :=
          bytesAt_of_yields_importFile ⟨p, hp, rfl⟩ (h.parts_ne_nil (hdata ▸ Option.isSome_some))
            hread himport
        rw [hdata]
        exact hreturned.stays hread hwritten
      · exact hbytes other hother q ((hfirst.nodes.resolve other).trans hq)

/-! ## The round trip -/

/-- What comes of copying files out, one after the other. -/
structure CopiedOut (s : Scratch World) (texts : List String)
    (answers : List (Except Host.Error String)) (a b : FileSystem × World) : Prop where
  bytes : ∀ p, b.1.bytesAt p = a.1.bytesAt p
  /-- At the end every copy has the bytes of its file. -/
  told : List.Forall₂ (s.Told a.1 (s.disk.get b.2)) texts answers
  granted : s.Fresh (s.disk.get a.2) → List.Forall₂ (s.Granted a.1) texts answers
  /-- The copies can be brought back to where they came from. -/
  writable : ∀ text ∈ texts, ∀ p, a.1.resolve text = .ok p → b.1.Writable p

/-- What comes of copying files back, one after the other, that were copied out of a source. -/
structure CopiedBack (s : Scratch World) (texts : List String)
    (answers : List (Except Host.Error Bool)) (source : FileSystem) (b c : FileSystem × World) :
    Prop where
  granted : answers = texts.map fun _ => .ok true
  bytes : ∀ text ∈ texts, ∀ p, b.1.resolve text = .ok p →
    ∃ data, source.bytesAt p = some data ∧ c.1.bytesAt p = some data
  others : ∀ p, (∀ text ∈ texts, ∀ q, b.1.resolve text = .ok q → q.parts ≠ p.parts) →
    c.1.bytesAt p = b.1.bytesAt p

/-- A file that is there can be written. -/
theorem writable_of_isFile (h : Reachable fs) (hfile : fs.isFile p = true) : fs.Writable p := by
  obtain ⟨v, hv⟩ := h.shows
  refine hv.writable_iff.2 ⟨fun node hnode => ?_, fun above habove node hnode => ?_⟩
  · rw [hv.table.isFile_eq, hnode, Option.any_some] at hfile
    cases node with
    | file data times => rfl
    | dir names times => cases hfile
  · obtain ⟨q, rfl, hdir⟩ := exists_dir_above h hfile habove
    rwa [hv.table.isDir_eq, hnode, Option.any_some] at hdir

/-- What was answered is the copy of a file. -/
theorem exists_of_told {texts : List String} {answers : List (Except Host.Error String)}
    (h : List.Forall₂ (s.Told fs d) texts answers) (hp : .ok (s.hostPath p) ∈ answers) :
    ∃ data, fs.bytesAt p = some data ∧ d.read (s.hostPath p) = .ok data := by
  induction h with
  | nil => cases hp
  | cons htold _ ih =>
    rcases List.mem_cons.1 hp with heq | hp
    · obtain ⟨q, data, -, hdata, hread⟩ := htold
      obtain ⟨hpath, hread⟩ := hread _ heq.symm
      have hparts := Path.toString_inj.1 (s.hostPath_inj.1 hpath)
      exact ⟨data, (bytesAt_eq_of_parts fs hparts).symm ▸ hdata, hread⟩
    · exact ih hp

/-- A path in a scratch directory has the components of the directory and then those of the path
    that stands there, and differs for paths that are written differently (a path remembers whether
    it was spelled with a slash at its end, but is written without it). A key of a file below a root
    leads nowhere else. So files that are copied out do not overwrite each other, and what is copied
    back, to wherever it can be written, are the bytes that were copied out. -/
theorem inside_and_returned (s : Scratch World) :
    (∀ p : Path, Location.Extends s.root p.parts (s.hostPath p) ∧
      (∀ part ∈ p.parts, part ≠ "" ∧ part ≠ "." ∧ part ≠ ".." ∧ '/' ∉ part.toList) ∧
      ∀ q : Path, s.hostPath p = s.hostPath q ↔ p.toString = q.toString) ∧
    (∀ root key : String, Asset.Folder.Inside root key) ∧
    (s.disk.Lawful → ∀ (mount : Option (Asset.Mount World)) (texts : List String)
      (a b : FileSystem × World) (answers : List (Except Host.Error String)),
      Reachable a.1 → (s.disk.get a.2).Grounded → NameFiles a.1 texts →
      resultsOf (s.exportFile mount) texts a = (answers, b) →
      s.CopiedOut texts answers a b ∧
      ∀ (texts' : List String) (c e : FileSystem × World)
        (answers' : List (Except Host.Error Bool)),
        Reachable c.1 → s.disk.get c.2 = s.disk.get b.2 →
        (∀ text ∈ texts', ∃ p, c.1.resolve text = .ok p ∧ .ok (s.hostPath p) ∈ answers ∧
          c.1.Writable p) →
        resultsOf s.importFile texts' c = (answers', e) →
        s.CopiedBack texts' answers' a.1 c e) := by
  refine ⟨fun p => ⟨s.extends_hostPath p, fun part hpart => ?_, fun q => s.hostPath_inj⟩,
    Asset.Folder.inside, fun hs mount texts a b answers ha hd hfiles hout => ?_⟩
  · have hproper := p.proper part hpart
    obtain ⟨hempty, hdot, hdots⟩ := Path.plain_of_isComponent hproper
    exact ⟨hempty, hdot, hdots, Path.slash_notMem_of_isComponent hproper⟩
  have hread : OnlyRead a.1 a.1 := ⟨ha, .refl a.1, fun _ => rfl⟩
  obtain ⟨honly, -, htold⟩ := told_exportFile hs hfiles mount hread hd hout
  refine ⟨⟨honly.bytes, htold, fun hfresh => ?_, fun text htext p hp => ?_⟩,
    fun texts' c e answers' hc hdisk htexts hback => ?_⟩
  · have hgranted := granted_exportFile hs ha hfiles mount hread (hfresh.reflects hd a.1)
    rwa [hout] at hgranted
  · obtain ⟨q, hq, hfile⟩ := hfiles text htext
    cases hp.symm.trans hq
    rw [isFile_eq_isSome, ← honly.bytes, ← isFile_eq_isSome] at hfile
    exact writable_of_isFile honly.reachable hfile
  · have hreturnable : ∀ text ∈ texts', s.Returnable a.1 c text := by
      intro text htext
      obtain ⟨p, hp, hanswer, hw⟩ := htexts text htext
      obtain ⟨data, hdata, hcopy⟩ := exists_of_told htold hanswer
      exact ⟨p, data, hp, hdata, hdisk.symm ▸ hcopy, hw⟩
    obtain ⟨hanswers, hreturned, hbytes⟩ := returned_all ha hc hreturnable
    rw [hback] at hanswers hreturned hbytes
    refine ⟨hanswers, fun text htext p hp => ?_, fun p hothers => ?_⟩
    · obtain ⟨q, data, hq, hdata, -⟩ := hreturnable text htext
      cases hp.symm.trans hq
      exact ⟨data, hdata, (hbytes text htext p hp).trans hdata⟩
    · rcases hreturned.files p with hsame | ⟨text, htext, q, data, hq, hparts, -⟩
      · exact hsame
      · exact absurd hparts (hothers text htext q hq)

/-! ## A scratch directory that is used -/

/-- The directory `m` of a disk. -/
def desk : Scratch Disk := ⟨"m", .whole⟩

/-- A disk on which there is nothing but that directory. -/
def bareDisk : Disk := ⟨.dir [("m", .dir [] dirMode)] dirMode, []⟩

/-- A file system with a file in a directory and one beside it. -/
def draft : FileSystem :=
  (((FileSystem.empty ⟨0, 0⟩).writeFile "/a/b" "x".toUTF8).2.writeFile "/c" "y".toUTF8).2

theorem reachable_draft : Reachable draft :=
  ((Reachable.new ⟨0, 0⟩).writeFile "/a/b" "x".toUTF8).writeFile "/c" "y".toUTF8

theorem exists_of_any {texts : List String} {test : Path → Bool}
    (h : texts.all (fun text => (fs.resolve text).toOption.any test) = true) :
    ∀ text ∈ texts, ∃ p, fs.resolve text = .ok p ∧ test p = true := by
  intro text htext
  have hany := List.all_eq_true.1 h text htext
  rw [Option.any_eq_true] at hany
  obtain ⟨p, hp, htest⟩ := hany
  exact ⟨p, toOption_eq_some_iff.1 hp, htest⟩

/-- Where nothing is every path but the root can be written. -/
theorem writable_empty (clock : Time) (hp : p.parts ≠ []) :
    (FileSystem.empty clock).Writable p := by
  refine (shows_empty clock).writable_iff.2 ⟨fun node hnode => ?_, fun above _ node hnode => ?_⟩
  · rw [View.single, if_neg hp] at hnode
    cases hnode
  · unfold View.single at hnode
    split at hnode <;> cases hnode
    rfl

/-- Both files are copied out and then back into a file system in which nothing is. -/
theorem inside_and_returned_desk : desk.Fresh bareDisk ∧
    ∃ b e, resultsOf (desk.exportFile none) ["/a/b", "c"] (draft, bareDisk) =
        ([.ok "m/a/b", .ok "m/c"], b) ∧
      desk.CopiedOut ["/a/b", "c"] [.ok "m/a/b", .ok "m/c"] (draft, bareDisk) b ∧
      resultsOf desk.importFile ["/c", "a/b"] (FileSystem.empty ⟨7, 0⟩, b.2) =
        ([.ok true, .ok true], e) ∧
      desk.CopiedBack ["/c", "a/b"] [.ok true, .ok true] draft (FileSystem.empty ⟨7, 0⟩, b.2)
        e := by
  have hgrounded : bareDisk.Grounded := grounded_of_isDir (by decide +kernel)
  have hfiles : NameFiles draft ["/a/b", "c"] := exists_of_any (by decide +kernel)
  have hanswers : (resultsOf (desk.exportFile none) ["/a/b", "c"] (draft, bareDisk)).1 =
      [.ok "m/a/b", .ok "m/c"] := by decide +kernel
  have hclear : ∀ text ∈ ["/c", "a/b"], ∃ p, (FileSystem.empty ⟨7, 0⟩).resolve text = .ok p ∧
      (p.parts ≠ [] && ["m/a/b", "m/c"].contains (desk.hostPath p)) = true :=
    exists_of_any (by decide +kernel)
  refine ⟨.of_list hgrounded rfl, ?_⟩
  generalize hout : resultsOf (desk.exportFile none) ["/a/b", "c"] (draft, bareDisk) = out
  obtain ⟨answers, b⟩ := out
  rw [hout] at hanswers
  obtain rfl := hanswers
  obtain ⟨hcopied, hback⟩ := (inside_and_returned desk).2.2 ⟨fun _ _ => rfl⟩ none ["/a/b", "c"]
    (draft, bareDisk) b _ reachable_draft hgrounded hfiles hout
  generalize hin : resultsOf desk.importFile ["/c", "a/b"] (FileSystem.empty ⟨7, 0⟩, b.2) = back
  obtain ⟨answers', e⟩ := back
  have hreturned := hback ["/c", "a/b"] (FileSystem.empty ⟨7, 0⟩, b.2) e answers' (.new ⟨7, 0⟩) rfl
    (fun text htext => by
      obtain ⟨p, hp, hnamed⟩ := hclear text htext
      rw [Bool.and_eq_true, decide_eq_true_eq] at hnamed
      exact ⟨p, hp, by simpa using hnamed.2, writable_empty _ hnamed.1⟩) hin
  obtain rfl := hreturned.granted
  exact ⟨b, e, rfl, hcopied, hin, hreturned⟩

end Scratch

end FileSystem

end Workbench
