import Workbench.Host.Atomic
import Workbench.Proofs.DiskPlaces
import Workbench.Proofs.Yields

set_option autoImplicit false

/-! # What jobs leave as it is

The jobs by which files are put on a disk only add to it: directories stay directories, and but for
the files that are written every file keeps its bytes. So a path that could be read before can be
read after, unless it leads to one of the files that were written. Making directories adds nothing
but directories, also where it is refused half way. -/

namespace Workbench.Host

namespace Disk

/-- The bytes of the file at a place, none if there is no file. -/
def contentAt (d : Disk) (place : List String) : ByteArray :=
  match d.shapeAt place with
  | some (.file data) => data
  | _ => .empty

/-- A disk is as before, but for the files at some places, and for directories and empty files that
    are new. -/
structure Grown (places : List (List String)) (d d' : Disk) : Prop where
  cwd : d'.cwd = d.cwd
  dirs : ∀ place, d.shapeAt place = some .dir → d'.shapeAt place = some .dir
  files : ∀ place ∉ places, ∀ data, d.shapeAt place = some (.file data) →
    d'.shapeAt place = some (.file data)
  contents : ∀ place ∉ places, d'.contentAt place = d.contentAt place

variable {d d' d'' : Disk} {places more : List (List String)}

theorem contentAt_of_file {place : List String} {data : ByteArray}
    (h : d.shapeAt place = some (.file data)) : d.contentAt place = data := by
  rw [contentAt, h]

theorem Grown.refl (d : Disk) : Grown [] d d :=
  ⟨rfl, fun _ => id, fun _ _ _ => id, fun _ _ => rfl⟩

theorem Grown.trans (h : Grown places d d') (h' : Grown more d' d'') :
    Grown (places ++ more) d d'' where
  cwd := h'.cwd.trans h.cwd
  dirs place hplace := h'.dirs place (h.dirs place hplace)
  files place hplace data hdata :=
    h'.files place (fun hmem => hplace (List.mem_append_right _ hmem)) data
      (h.files place (fun hmem => hplace (List.mem_append_left _ hmem)) data hdata)
  contents place hplace :=
    (h'.contents place fun hmem => hplace (List.mem_append_right _ hmem)).trans
      (h.contents place fun hmem => hplace (List.mem_append_left _ hmem))

theorem Grown.mono (h : Grown places d d') (hmore : places ⊆ more) : Grown more d d' where
  cwd := h.cwd
  dirs := h.dirs
  files place hplace := h.files place fun hmem => hplace (hmore hmem)
  contents place hplace := h.contents place fun hmem => hplace (hmore hmem)

theorem Grown.grounded (h : Grown places d d') (hd : d.Grounded) : d'.Grounded := by
  unfold Grounded
  rw [h.cwd]
  exact h.dirs d.cwd hd

theorem Grown.placeOf (h : Grown places d d') (text : String) :
    d'.placeOf text = d.placeOf text := by
  unfold Disk.placeOf
  rw [h.cwd]

theorem Grown.walk (h : Grown places d d') {text : String} {s : Spot} (hs : d.walk text = .ok s) :
    d'.walk text = .ok s :=
  walk_of_dirs h.cwd h.dirs hs

theorem shapeAt_of_read {text : String} {bytes : ByteArray} (h : d.read text = .ok bytes) :
    d.shapeAt (d.placeOf text) = some (.file bytes) := by
  obtain ⟨s, hwalk, -, -, hfile⟩ := read_eq_ok_iff.1 h
  rwa [← walk_parts hwalk]

/-- What could be read can be read, unless it was written. -/
theorem Grown.read (h : Grown places d d') {text : String} {bytes : ByteArray}
    (hread : d.read text = .ok bytes) (hplace : d.placeOf text ∉ places) :
    d'.read text = .ok bytes :=
  read_of_dirs h.cwd h.dirs hread (h.files _ hplace _ (shapeAt_of_read hread))

theorem contentAt_of_read {text : String} {bytes : ByteArray} (h : d.read text = .ok bytes) :
    d.contentAt (d.placeOf text) = bytes :=
  contentAt_of_file (shapeAt_of_read h)

/-- A disk is as before, but for directories that are new. -/
structure Paved (d d' : Disk) : Prop where
  cwd : d'.cwd = d.cwd
  shapes : ∀ place, d'.shapeAt place = d.shapeAt place ∨
    d.shapeAt place = none ∧ d'.shapeAt place = some .dir

theorem Paved.refl (d : Disk) : Paved d d := ⟨rfl, fun _ => Or.inl rfl⟩

/-- What was there is there. -/
theorem Paved.kept (h : Paved d d') {place : List String} {shape : Shape}
    (hshape : d.shapeAt place = some shape) : d'.shapeAt place = some shape := by
  rcases h.shapes place with hsame | ⟨hnone, -⟩
  · rw [hsame, hshape]
  · cases hnone.symm.trans hshape

/-- No file is new. -/
theorem Paved.file (h : Paved d d') {place : List String} {data : ByteArray}
    (hfile : d'.shapeAt place = some (.file data)) : d.shapeAt place = some (.file data) := by
  rcases h.shapes place with hsame | ⟨-, hdir⟩
  · rw [← hsame, hfile]
  · cases hdir.symm.trans hfile

theorem Paved.trans (h : Paved d d') (h' : Paved d' d'') : Paved d d'' where
  cwd := h'.cwd.trans h.cwd
  shapes place := by
    rcases h.shapes place with hsame | ⟨hnone, hdir⟩
    · rw [← hsame]
      exact h'.shapes place
    · exact Or.inr ⟨hnone, h'.kept hdir⟩

theorem Paved.grown (h : Paved d d') : Grown [] d d' where
  cwd := h.cwd
  dirs _ hplace := h.kept hplace
  files _ _ _ hfile := h.kept hfile
  contents place _ := by
    rcases h.shapes place with hsame | ⟨hnone, hdir⟩
    · rw [contentAt, contentAt, hsame]
    · rw [contentAt, contentAt, hnone, hdir]

/-! ## Requests -/

/-- A leaf is put where no directory with children is. -/
theorem shapeAt_put {dir : List String} (name : String) {node : Tree Nat}
    (hdir : d.shapeAt dir = some .dir) (hleaf : node.IsLeaf)
    (hold : ∀ old, d.tree.get? (dir ++ [name]) = some old → old.IsLeaf) (place : List String) :
    (d.put (dir ++ [name]) node).shapeAt place =
      if place = dir ++ [name] then some node.shape else d.shapeAt place :=
  Tree.shape_get?_put name hdir hleaf hold place

/-- Opening a file for writing leads to a name in a directory, and nothing but a file is there. -/
theorem openFile_eq_ok {text : String} {mode mode' : Nat} {parts : List String} {data : ByteArray}
    (h : d.openFile text mode = .ok (parts, data, mode')) :
    ∃ s n, d.walk text = .ok s ∧ s.last = .name n ∧ s.slash = false ∧ checkName n = .ok () ∧
      parts = s.dir ++ [n] ∧ data = d.contentAt parts ∧ d.shapeAt parts ≠ some .dir := by
  unfold openFile at h
  obtain ⟨s, hwalk, h⟩ := bind_eq_ok_iff.1 h
  dsimp only at h
  split at h
  · next n hlast =>
    have hparts : s.parts = s.dir ++ [n] := by rw [Spot.parts, hlast]
    cases hslash : s.slash with
    | true =>
      rw [hslash, if_pos rfl] at h
      cases h
    | false =>
      rw [hslash, if_neg Bool.false_ne_true] at h
      obtain ⟨⟨⟩, hname, h⟩ := bind_eq_ok_iff.1 h
      refine ⟨s, n, hwalk, hlast, hslash, hname, ?_⟩
      rw [← hparts]
      cases hnode : d.tree.get? s.parts with
      | none =>
        rw [node?, hnode] at h
        cases h
        exact ⟨rfl, by rw [contentAt, shapeAt, hnode]; rfl, by rw [shapeAt, hnode]; nofun⟩
      | some node =>
        rw [node?, hnode] at h
        cases node with
        | file data mode =>
          cases h
          exact ⟨rfl, by rw [contentAt, shapeAt, hnode]; rfl, by rw [shapeAt, hnode]; nofun⟩
        | dir children mode => cases h
  · cases h

/-- A file that is put where no directory is changes the shape of its place alone. -/
theorem shapeAt_putFile {dir : List String} {name : String} (data : ByteArray) (mode : Nat)
    (hdir : d.shapeAt dir = some .dir) (hold : d.shapeAt (dir ++ [name]) ≠ some .dir)
    (place : List String) :
    (d.put (dir ++ [name]) (.file data mode)).shapeAt place =
      if place = dir ++ [name] then some (.file data) else d.shapeAt place := by
  refine shapeAt_put name hdir (Tree.isLeaf_file data mode) (fun old hget => ?_) place
  cases old with
  | file data mode => exact Tree.isLeaf_file data mode
  | dir children mode => exact absurd (by rw [shapeAt, hget]; rfl) hold

/-- A file is written where no directory is. -/
theorem grown_put {dir : List String} {name : String} (data : ByteArray) (mode : Nat)
    (hdir : d.shapeAt dir = some .dir) (hold : d.shapeAt (dir ++ [name]) ≠ some .dir) :
    Grown [dir ++ [name]] d (d.put (dir ++ [name]) (.file data mode)) ∧
      (d.put (dir ++ [name]) (.file data mode)).shapeAt (dir ++ [name]) = some (.file data) := by
  have hput := shapeAt_putFile data mode hdir hold
  refine ⟨⟨rfl, fun place hplace => ?_, fun place hplace data hdata => ?_,
    fun place hplace => ?_⟩, (hput _).trans (if_pos rfl)⟩
  · rw [hput, if_neg]
    · exact hplace
    · rintro rfl
      exact hold hplace
  · rw [hput, if_neg (by simpa using hplace), hdata]
  · rw [contentAt, contentAt, hput, if_neg (by simpa using hplace)]

/-- What is put into a file that was opened for writing can be read. -/
theorem openFile_put (hd : d.Grounded) {text : String} {mode mode' : Nat} {parts : List String}
    {data : ByteArray} (h : d.openFile text mode = .ok (parts, data, mode')) (data' : ByteArray)
    (mode'' : Nat) :
    data = d.contentAt (d.placeOf text) ∧
      Grown [d.placeOf text] d (d.put parts (.file data' mode'')) ∧
      (d.put parts (.file data' mode'')).read text = .ok data' := by
  obtain ⟨s, n, hwalk, hlast, hslash, hname, rfl, rfl, hold⟩ := openFile_eq_ok h
  have hparts : s.parts = s.dir ++ [n] := by rw [Spot.parts, hlast]
  obtain ⟨hgrown, hfile⟩ := grown_put data' mode'' (walk_dir hd hwalk) hold
  rw [← walk_parts hwalk, hparts]
  refine ⟨rfl, hgrown, read_eq_ok_iff.2 ⟨s, hgrown.walk hwalk, ?_, hslash, by rw [hparts, hfile]⟩⟩
  intro n' hn
  rw [hlast] at hn
  cases hn
  exact hname

theorem alter_eq_ok (hd : d.Grounded) {text : String} {mode : Nat} {f : ByteArray → ByteArray}
    (h : d.alter text mode f = .ok d') :
    Grown [d.placeOf text] d d' ∧
      d'.read text = .ok (f (d.contentAt (d.placeOf text))) := by
  unfold alter at h
  obtain ⟨⟨parts, data, mode'⟩, hopen, h⟩ := bind_eq_ok_iff.1 h
  obtain rfl := pure_eq_ok_iff.1 h
  obtain ⟨rfl, hput⟩ := openFile_put hd hopen (f data) mode'
  exact hput

/-- Writing a file changes the shape of its place alone. -/
theorem shapeAt_alter (hd : d.Grounded) {text : String} {mode : Nat} {f : ByteArray → ByteArray}
    (h : d.alter text mode f = .ok d') (place : List String) :
    d'.shapeAt place =
      if place = d.placeOf text then some (.file (f (d.contentAt place))) else d.shapeAt place := by
  unfold alter at h
  obtain ⟨⟨parts, data, mode'⟩, hopen, h⟩ := bind_eq_ok_iff.1 h
  obtain rfl := pure_eq_ok_iff.1 h
  obtain ⟨s, n, hwalk, hlast, -, -, rfl, rfl, hold⟩ := openFile_eq_ok hopen
  have hparts : s.parts = s.dir ++ [n] := by rw [Spot.parts, hlast]
  rw [← walk_parts hwalk, hparts, shapeAt_putFile _ _ (walk_dir hd hwalk) hold]
  split_ifs with hplace
  · rw [hplace]
  · rfl

/-- A file that was written with what was in it has grown no place. -/
theorem Grown.of_same {place : List String} (h : Grown [place] d d')
    (hsame : d'.shapeAt place = some (.file (d.contentAt place))) : Grown [] d d' where
  cwd := h.cwd
  dirs := h.dirs
  files other _ data hdata := by
    by_cases hother : other = place
    · subst hother
      rw [hsame, contentAt_of_file hdata]
    · exact h.files other (by simpa using hother) data hdata
  contents other _ := by
    by_cases hother : other = place
    · subst hother
      exact contentAt_of_file hsame
    · exact h.contents other (by simpa using hother)

theorem alter_id (hd : d.Grounded) {text : String} {mode : Nat}
    (h : d.alter text mode id = .ok d') : Grown [] d d' := by
  obtain ⟨hgrown, hread⟩ := alter_eq_ok hd h
  obtain ⟨s, hwalk, -, -, hfile⟩ := read_eq_ok_iff.1 hread
  rw [walk_parts hwalk, hgrown.placeOf] at hfile
  exact hgrown.of_same hfile

theorem named_eq_ok {text : String} {other : Last → Errno} {s : Spot} {n : String}
    (h : d.named text other = .ok (s, n)) :
    d.walk text = .ok s ∧ s.last = .name n ∧ checkName n = .ok () := by
  unfold named at h
  obtain ⟨s', hwalk, h⟩ := bind_eq_ok_iff.1 h
  split at h
  · next n' hlast =>
    obtain ⟨⟨⟩, hname, h⟩ := bind_eq_ok_iff.1 h
    cases h
    exact ⟨hwalk, hlast, hname⟩
  · cases h

/-- A directory that is made is where its path leads. -/
theorem makeDir_cases {text : String} (h : d.makeDir text = .ok d') : ∃ s n, d.walk text = .ok s ∧
    s.last = .name n ∧ checkName n = .ok () ∧ d.shapeAt (s.dir ++ [n]) = none ∧
    d' = d.put (s.dir ++ [n]) (.dir [] dirMode) := by
  unfold makeDir at h
  obtain ⟨⟨s, n⟩, hnamed, h⟩ := bind_eq_ok_iff.1 h
  obtain ⟨hwalk, hlast, hname⟩ := named_eq_ok hnamed
  have hparts : s.parts = s.dir ++ [n] := by rw [Spot.parts, hlast]
  dsimp only at h
  cases hnode : d.node? s with
  | some node =>
    rw [hnode, Option.isSome_some, if_pos rfl] at h
    cases h
  | none =>
    rw [hnode, Option.isSome_none, if_neg Bool.false_ne_true] at h
    cases h
    refine ⟨s, n, hwalk, hlast, hname, ?_, by rw [hparts]⟩
    rw [← hparts, shapeAt_parts, hnode]
    rfl

theorem shapeAt_makeDir {dir : List String} {name : String} (hdir : d.shapeAt dir = some .dir)
    (hnone : d.shapeAt (dir ++ [name]) = none) (place : List String) :
    (d.put (dir ++ [name]) (.dir [] dirMode)).shapeAt place =
      if place = dir ++ [name] then some .dir else d.shapeAt place :=
  shapeAt_put name hdir (Tree.isLeaf_emptyDir dirMode)
    (fun old hold => by rw [shapeAt, hold] at hnone; cases hnone) place

/-- Where a directory is made there was nothing. -/
theorem makeDir_eq_ok (hd : d.Grounded) {text : String} (h : d.makeDir text = .ok d') :
    Paved d d' ∧ d.shapeAt (d.placeOf text) = none ∧ d'.shapeAt (d.placeOf text) = some .dir := by
  obtain ⟨s, n, hwalk, hlast, -, hnone, rfl⟩ := makeDir_cases h
  have hparts : s.parts = s.dir ++ [n] := by rw [Spot.parts, hlast]
  have hput := shapeAt_makeDir (walk_dir hd hwalk) hnone
  rw [← walk_parts hwalk, hparts]
  have hmade := (hput (s.dir ++ [n])).trans (if_pos rfl)
  refine ⟨⟨rfl, fun place => ?_⟩, hnone, hmade⟩
  by_cases hplace : place = s.dir ++ [n]
  · subst hplace
    exact Or.inr ⟨hnone, hmade⟩
  · exact Or.inl ((hput place).trans (if_neg hplace))

end Disk

/-! ## Jobs -/

namespace Job

open Disk

variable {α : Type} {d d' : Disk}

theorem resultOf_ask {α : Type} (request : Disk → Except Error α) (d : Disk) :
    resultOf (ask request) d = (request d, d) := by
  have hget : resultOf (get : Job Disk) d = (.ok d, d) := rfl
  rw [ask, resultOf_bind, hget, goOnWith]
  cases request d <;> rfl

theorem yields_ask_iff {request : Disk → Except Error α} {answer : α} :
    Yields (ask request) d answer d' ↔ request d = .ok answer ∧ d = d' := by
  rw [Yields, resultOf_ask, Prod.mk.injEq]

theorem request_of_change {request : Disk → Except Error Disk} {u : Unit}
    (h : Yields (change request) d u d') : request d = .ok d' := by
  unfold change at h
  obtain ⟨d₁, d₂, hget, h⟩ := yields_bind_iff.1 h
  obtain ⟨rfl, rfl⟩ := yields_get_iff.1 hget
  cases hrequest : request d with
  | error e =>
    rw [hrequest] at h
    exact absurd h not_yields_throw
  | ok d₁ =>
    rw [hrequest] at h
    rw [yields_set_iff.1 h]

/-- A change was made, or it is refused and has changed nothing. -/
theorem resultOf_change (request : Disk → Except Error Disk) (d : Disk) :
    (∃ d', request d = .ok d' ∧ resultOf (change request) d = (.ok (), d')) ∨
      ∃ e, request d = .error e ∧ resultOf (change request) d = (.error e, d) := by
  have hget : resultOf (get : Job Disk) d = (.ok d, d) := rfl
  rw [change, resultOf_bind, hget, goOnWith]
  cases request d with
  | error e => exact Or.inr ⟨e, rfl, rfl⟩
  | ok d' => exact Or.inl ⟨d', rfl, rfl⟩

/-- A job that makes nothing but directories and empty files. -/
def Grows (job : Job α) : Prop :=
  ∀ ⦃d : Disk⦄, d.Grounded → ∀ ⦃a : α⦄ ⦃d' : Disk⦄, Yields job d a d' → Grown [] d d'

theorem Grows.bind {β : Type} {job : Job α} {rest : α → Job β} (h : Grows job)
    (hrest : ∀ a, Grows (rest a)) : Grows (job >>= rest) := by
  intro d hd b d' hyields
  obtain ⟨a, d₁, hfirst, hthen⟩ := yields_bind_iff.1 hyields
  have hgrown := h hd hfirst
  exact hgrown.trans (hrest a (hgrown.grounded hd) hthen)

/-! ## Making directories -/

/-- From a working directory that is there, nothing is new but directories. -/
def Paving (d d' : Disk) : Prop := d.Grounded → Paved d d'

instance : IsPreorder Disk Paving where
  refl d _ := .refl d
  trans _ _ _ h h' hd := (h hd).trans (h' ((h hd).grown.grounded hd))

/-- A job that makes nothing but directories, whatever comes of it. -/
def Paves (job : Job α) : Prop := Leads Paving job

theorem Paves.grows {job : Job α} (h : Paves job) : Grows job := by
  intro d hd a d' hyields
  have hpaved := h d hd
  rw [show resultOf job d = (.ok a, d') from hyields] at hpaved
  exact hpaved.grown

theorem paves_makeDir (text : String) : Paves (change (·.makeDir text)) := by
  intro d hd
  rcases resultOf_change (·.makeDir text) d with ⟨d', hmade, hresult⟩ | ⟨e, -, hresult⟩
  · rw [hresult]
    exact (makeDir_eq_ok hd hmade).1
  · rw [hresult]
    exact .refl d

/-- A directory is made where it is missing, and nothing else changes. -/
theorem Paves.makeOne (text : String) {makeParent : Job Unit} (hparent : Paves makeParent) :
    Paves (makeOne text makeParent) := by
  -- that it is there already changes nothing
  have hsettle : ∀ e : Error,
      Paves (do if (← get).isDir text then return else throw e : Job Unit) := by
    refine fun e => .bind_get fun d => ?_
    split
    · exact (leads_pure () : Paves (pure ())) d
    · exact (leads_throw e : Paves (throw e : Job Unit)) d
  unfold Job.makeOne
  refine .bind_get fun d hd => ?_
  split
  · next d' hmake => exact (makeDir_eq_ok hd hmake).1
  · next e hrefused =>
    split
    · exact (hparent.bind fun _ => (paves_makeDir text).tryCatch hsettle) d hd
    · exact hsettle e d hd

theorem paves_makeUpTo (l : Location) (n : Nat) : Paves (makeUpTo l n) := by
  induction n with
  | zero => exact leads_pure ()
  | succ n ih => exact ih.makeOne _

/-- Making a directory with those above it makes directories alone. -/
theorem paves_makeDirs (text : String) : Paves (makeDirs text) := by
  unfold makeDirs
  dsimp only
  split_ifs
  · exact leads_pure ()
  · exact Paves.makeOne text (leads_throw (Error.system .noEntry))
  · exact (paves_makeUpTo _ _).makeOne text

theorem paves_makeParents (text : String) : Paves (makeParents text) := by
  unfold makeParents
  split
  · exact paves_makeDirs _
  · exact leads_pure ()

/-! ## Files -/

/-- A lock that is passed leaves an empty file at most. -/
theorem grows_passLock (text : String) : Grows (passLock text) :=
  (paves_makeParents text).grows.bind fun _ _ hd _ _ hyields =>
    alter_id hd (request_of_change hyields)

/-- A line that is appended can be read at the end of what was there. -/
theorem appendLine_grown (hd : d.Grounded) {text line : String} {u : Unit}
    (h : Yields (appendLine text line) d u d') :
    Grown [d.placeOf text] d d' ∧
      d'.read text = .ok (d.contentAt (d.placeOf text) ++ (line ++ "\n").toUTF8) := by
  obtain ⟨⟨⟩, d₁, hlock, h⟩ := yields_bind_iff.1 h
  obtain ⟨⟨⟩, d₂, hparents, h⟩ := yields_bind_iff.1 h
  have hlocked := grows_passLock _ hd hlock
  have hready := hlocked.trans ((paves_makeParents text).grows (hlocked.grounded hd) hparents)
  obtain ⟨hgrown, hread⟩ := alter_eq_ok (hready.grounded hd) (request_of_change h)
  rw [hready.placeOf] at hgrown hread
  rw [hready.contents _ (by simp)] at hread
  exact ⟨hready.trans hgrown, hread⟩

/-- Copying a file writes what was in it, unless it is copied onto itself. -/
theorem copy_grown (hd : d.Grounded) {source target : String} {u : Unit}
    (h : Yields (copy source target) d u d') :
    ∃ bytes, d.read source = .ok bytes ∧ Grown [d.placeOf target] d d' ∧
      d'.read target =
        .ok (if d.placeOf source = d.placeOf target then .empty else bytes) := by
  obtain ⟨⟨parts, node⟩, d₁, hfound, h⟩ := yields_bind_iff.1 h
  obtain ⟨hfind, rfl⟩ := yields_ask_iff.1 hfound
  obtain ⟨s, hwalk, hallowed, rfl, hnode, hslash⟩ := find_eq_ok_iff.1 hfind
  have hsource := walk_parts hwalk
  dsimp only at h
  cases node with
  | dir children mode =>
    rw [Tree.isDir, if_pos rfl] at h
    obtain ⟨⟨⟩, d₁, hthrow, -⟩ := yields_bind_iff.1 h
    exact absurd hthrow not_yields_throw
  | file bytes mode =>
    rw [Tree.isDir, if_neg Bool.false_ne_true] at h
    have hfile : d.shapeAt s.parts = some (.file bytes) := by rw [shapeAt_parts, hnode]; rfl
    have hread : d.read source = .ok bytes :=
      read_eq_ok_iff.2 ⟨s, hwalk, hallowed, by simpa [Tree.isFile, Tree.isDir] using hslash, hfile⟩
    obtain ⟨⟨⟩, d₁, hempty, h⟩ := yields_bind_iff.1 h
    obtain ⟨hemptied, hblank⟩ := alter_eq_ok hd (request_of_change hempty)
    obtain ⟨⟨place, data, mode'⟩, d₂, hopened, h⟩ := yields_bind_iff.1 h
    obtain ⟨hopen, rfl⟩ := yields_ask_iff.1 hopened
    obtain ⟨d₂, d₃, hget, h⟩ := yields_bind_iff.1 h
    obtain ⟨rfl, rfl⟩ := yields_get_iff.1 hget
    have hput : d₁.put place (.file _ mode) = d' := yields_modify_iff.1 h
    obtain ⟨-, hgrown, hwritten⟩ := openFile_put (hemptied.grounded hd) hopen _ mode
    rw [hput, hemptied.placeOf] at hgrown
    rw [hput] at hwritten
    refine ⟨bytes, hread, (hemptied.trans hgrown).mono (by simp), hwritten.trans ?_⟩
    -- the source is read when the target is empty already
    have hfound : d₁.shapeAt s.parts = some (.file
        (if d.placeOf source = d.placeOf target then .empty else bytes)) := by
      rw [hsource]
      split_ifs with hself
      · rw [hself, ← hemptied.placeOf, shapeAt_of_read hblank]
      · exact hemptied.files _ (by simpa using hself) _ (shapeAt_of_read hread)
    obtain ⟨found, hget, hshape⟩ := Option.map_eq_some_iff.1 hfound
    rw [hget]
    cases found with
    | dir children mode => cases hshape
    | file data mode => rw [← Shape.file.inj hshape]

/-! ## Whatever comes of them -/

/-- From a working directory that is there, a disk has grown but for the files at some paths. -/
def Growing (texts : List String) (d d' : Disk) : Prop :=
  d.Grounded → Grown (texts.map d.placeOf) d d'

instance (texts : List String) : IsPreorder Disk (Growing texts) where
  refl d _ := (Grown.refl d).mono (List.nil_subset _)
  trans d d' d'' h h' hd := by
    have hfirst := h hd
    have hthen := h' (hfirst.grounded hd)
    have hsame : texts.map d'.placeOf = texts.map d.placeOf :=
      List.map_congr_left fun text _ => hfirst.placeOf text
    rw [hsame] at hthen
    exact (hfirst.trans hthen).mono (List.append_subset.2 ⟨List.Subset.refl _, List.Subset.refl _⟩)

theorem Growing.mono {texts more : List String} (h : Growing texts d d') (hmore : texts ⊆ more) :
    Growing more d d' :=
  fun hd => (h hd).mono (List.map_subset _ hmore)

theorem Paves.growing {job : Job α} (h : Paves job) (texts : List String) :
    Leads (Growing texts) job :=
  fun d hd => (h d hd).grown.mono (List.nil_subset _)

theorem growing_ask (texts : List String) (request : Disk → Except Error α) :
    Leads (Growing texts) (ask request) := by
  intro d
  rw [resultOf_ask]
  exact refl_of (Growing texts) d

theorem growing_alter (text : String) (mode : Nat) (f : ByteArray → ByteArray) :
    Leads (Growing [text]) (change (·.alter text mode f)) := by
  intro d hd
  rcases resultOf_change (·.alter text mode f) d with ⟨d', halter, hresult⟩ | ⟨e, -, hresult⟩ <;>
    rw [hresult]
  · exact (alter_eq_ok hd halter).1
  · exact (Grown.refl d).mono (List.nil_subset _)

/-- Fill a file with what is at another place by then. -/
def fillFrom (parts : List String) (target : String) (mode : Nat) : Job Unit := do
  change (·.alter target mode fun _ => .empty)
  let (place, _, _) ← ask (·.openFile target mode)
  let data := match (← get).tree.get? parts with
    | some (.file data _) => data
    | _ => .empty
  modify fun d => d.put place (.file data mode)

theorem growing_fillFrom (parts : List String) (target : String) (mode : Nat) :
    Leads (Growing [target]) (fillFrom parts target mode) := by
  refine (growing_alter target mode _).bind fun _ d hd => ?_
  rw [resultOf_bind, resultOf_ask]
  cases hopen : d.openFile target mode with
  | error e => exact (Grown.refl d).mono (List.nil_subset _)
  | ok opened => exact (openFile_put hd hopen _ mode).2.1

/-- Copying changes no file but the target, also where it is refused half way. -/
theorem growing_copy (source target : String) : Leads (Growing [target]) (copy source target) := by
  refine (growing_ask _ _).bind fun ⟨parts, node⟩ => ?_
  cases node with
  | dir children mode => exact (leads_throw _).bind fun _ => growing_fillFrom parts target _
  | file data mode => exact growing_fillFrom parts target mode

/-- A lock that is not passed leaves an empty file at most, too. -/
theorem growing_passLock (text : String) : Leads (Growing []) (passLock text) := by
  refine ((paves_makeParents text).growing []).bind fun _ d hd => ?_
  rcases resultOf_change (·.alter text fileMode id) d with ⟨d', halter, hresult⟩ | ⟨e, -, hresult⟩ <;>
    rw [hresult]
  · exact alter_id hd halter
  · exact .refl d

theorem growing_appendLine (text line : String) : Leads (Growing [text]) (appendLine text line) := by
  have hlock : Leads (Growing [text]) (passLock (text ++ ".lock")) :=
    fun d => (growing_passLock _ d).mono (List.nil_subset _)
  exact hlock.bind fun _ => ((paves_makeParents text).growing _).bind fun _ => growing_alter _ _ _

/-- A line that cannot be appended leaves every file as it is. -/
theorem growing_of_fails_appendLine {text line : String} {e : Error}
    (h : Fails (appendLine text line) d e d') : Growing [] d d' := by
  have hlock := growing_passLock (text ++ ".lock")
  have hparents := (paves_makeParents text).growing []
  rcases fails_bind_iff.1 h with hfails | ⟨⟨⟩, d₁, hpassed, h⟩
  · exact hlock.of_fails hfails
  refine trans_of (Growing []) (hlock.of_yields hpassed) ?_
  rcases fails_bind_iff.1 h with hfails | ⟨⟨⟩, d₂, hmade, h⟩
  · exact hparents.of_fails hfails
  refine trans_of (Growing []) (hparents.of_yields hmade) ?_
  rcases resultOf_change (·.alter text fileMode (· ++ (line ++ "\n").toUTF8)) d₂ with
    ⟨d₃, -, hresult⟩ | ⟨e', -, hresult⟩
  · cases hresult.symm.trans h
  · obtain ⟨-, rfl⟩ := Prod.mk.inj (hresult.symm.trans h)
    exact refl_of (Growing []) d₂

end Job

end Workbench.Host
