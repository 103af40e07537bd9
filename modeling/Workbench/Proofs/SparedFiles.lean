import Mathlib.Data.List.Perm.Subperm
import Workbench.Proofs.ScratchCopies

set_option autoImplicit false

/-! # Files that are spared

What is done at a place of a disk, or below it, spares all that is beside it. A file that is
replaced is staged beside its old content under a name that no other file has, and then takes its
place: it is read with the new content if that was granted, and otherwise with the old one. -/

namespace Workbench

namespace Tree

variable {α : Type}

/-- A change to one name of a directory shows in no shape beside it. -/
theorem shape_get?_modify_beside {f : Tree α → Tree α} {dir : List String} {name : String}
    (hshape : ∀ t, (f t).shape = t.shape)
    (hother : ∀ t other rest, other ≠ name → (f t).get? (other :: rest) = t.get? (other :: rest))
    (t : Tree α) {place : List String} (h : ¬ dir ++ [name] <+: place) :
    ((t.modify f dir).get? place).map shape = (t.get? place).map shape := by
  by_cases hpre : dir <+: place
  · obtain ⟨rest, rfl⟩ := hpre
    rw [get?_modify_append, get?_append]
    cases t.get? dir with
    | none => rfl
    | some top =>
      cases rest with
      | nil => exact congrArg some (hshape top)
      | cons other rest =>
        refine congrArg (Option.map shape) (hother top other rest ?_)
        rintro rfl
        exact h ((List.prefix_append_right_inj dir).2 ⟨rest, rfl⟩)
  · exact shape_get?_modify f t hpre

theorem shape_get?_put_beside (t node : Tree α) {place other : List String}
    (h : ¬ place <+: other) :
    ((t.put id place node).get? other).map shape = (t.get? other).map shape := by
  rcases List.eq_nil_or_concat place with rfl | ⟨dir, name, rfl⟩
  · exact absurd List.nil_prefix h
  rw [List.concat_eq_append] at h ⊢
  rw [put, List.getLast?_concat, List.dropLast_concat]
  refine shape_get?_modify_beside (fun t => ?_) (fun t other rest hne => ?_) t h
  · cases t with
    | file data a => rfl
    | dir children a =>
      rw [setChild]
      split <;> rfl
  · cases t with
    | file data a => rfl
    | dir children a => rw [get?_setChild, if_neg hne]

theorem shape_get?_erase_beside (t : Tree α) {place other : List String} (h : ¬ place <+: other) :
    ((t.erase id place).get? other).map shape = (t.get? other).map shape := by
  rcases List.eq_nil_or_concat place with rfl | ⟨dir, name, rfl⟩
  · exact absurd List.nil_prefix h
  rw [List.concat_eq_append] at h ⊢
  rw [erase, List.getLast?_concat, List.dropLast_concat]
  refine shape_get?_modify_beside (fun t => ?_) (fun t other rest hne => ?_) t h
  · cases t with
    | file data a => rfl
    | dir children a =>
      rw [dropChild]
      split <;> rfl
  · cases t with
    | file data a => rfl
    | dir children a =>
      have hlookup : (children.filter (·.1 ≠ name)).lookup other = children.lookup other := by
        induction children with
        | nil => rfl
        | cons entry children ih =>
          obtain ⟨n, node⟩ := entry
          by_cases hn : n = name
          · have hfalse : (other == n) = false := by simpa [hn] using hne
            rw [List.filter_cons_of_neg (by simpa using hn), ih, List.lookup_cons, hfalse]
          · rw [List.filter_cons_of_pos (by simpa using hn), List.lookup_cons, List.lookup_cons, ih]
      rw [dropChild]
      split
      · simp only [get?, child?, hlookup]
      · rfl

end Tree

namespace Host

namespace Disk

variable {d d' d'' : Disk} {root : List String}

/-- No directory of a disk is lost. -/
structure Housed (d d' : Disk) : Prop where
  cwd : d'.cwd = d.cwd
  dirs : ∀ place, d.shapeAt place = some .dir → d'.shapeAt place = some .dir

namespace Housed

theorem trans (h : Housed d d') (h' : Housed d' d'') : Housed d d'' :=
  ⟨h'.cwd.trans h.cwd, fun place hdir => h'.dirs place (h.dirs place hdir)⟩

theorem grounded (h : Housed d d') (hd : d.Grounded) : d'.Grounded := by
  unfold Grounded
  rw [h.cwd]
  exact h.dirs d.cwd hd

theorem placeOf (h : Housed d d') (text : String) : d'.placeOf text = d.placeOf text := by
  unfold Disk.placeOf
  rw [h.cwd]

/-- A file that could be read is read with what is in it then. -/
theorem read (h : Housed d d') {text : String} {bytes bytes' : ByteArray}
    (hread : d.read text = .ok bytes)
    (hfile : d'.shapeAt (d.placeOf text) = some (.file bytes')) : d'.read text = .ok bytes' :=
  read_of_dirs h.cwd h.dirs hread hfile

end Housed

theorem Grown.housed {places : List (List String)} (h : Grown places d d') : Housed d d' :=
  ⟨h.cwd, h.dirs⟩

/-- Beside a place nothing is new on a disk but directories. -/
structure Spared (root : List String) (d d' : Disk) : Prop where
  cwd : d'.cwd = d.cwd
  beside : ∀ place, ¬ root <+: place → d'.shapeAt place = d.shapeAt place ∨
    d.shapeAt place = none ∧ d'.shapeAt place = some .dir

theorem Paved.spared (h : Paved d d') (root : List String) : Spared root d d' :=
  ⟨h.cwd, fun place _ => h.shapes place⟩

/-- Where something was taken away nothing is, nor below. -/
theorem erase_below (d : Disk) (dir : List String) (name : String) (rest : List String) :
    (d.erase (dir ++ [name])).shapeAt (dir ++ [name] ++ rest) = none := by
  rw [erase, Tree.erase, List.getLast?_concat, List.dropLast_concat, shapeAt, List.append_assoc,
    List.singleton_append, Tree.get?_modify_append]
  cases d.tree.get? dir with
  | none => rfl
  | some node =>
    cases node with
    | file data mode => rfl
    | dir children mode =>
      have hgone : (children.filter (·.1 ≠ name)).lookup name = none := by
        rw [List.lookup_eq_none_iff]
        intro entry hentry
        have hne := (List.mem_filter.1 hentry).2
        simp only [ne_eq, decide_eq_true_eq] at hne
        rw [bne_iff_ne]
        exact Ne.symm hne
      rw [Option.bind_some, Tree.dropChild]
      split
      · simp only [Tree.get?, Tree.child?, hgone, Option.map_none]
      · next hnone => simp [Tree.get?, Tree.child?, Option.not_isSome_iff_eq_none.1 hnone]

theorem spared_put (d : Disk) (place : List String) (node : Tree Nat) :
    Spared place d (d.put place node) :=
  ⟨rfl, fun _ hbeside => Or.inl (Tree.shape_get?_put_beside d.tree node hbeside)⟩

theorem spared_erase (d : Disk) (place : List String) : Spared place d (d.erase place) :=
  ⟨rfl, fun _ hbeside => Or.inl (Tree.shape_get?_erase_beside d.tree hbeside)⟩

/-- A file that is taken away is gone, and nothing else is. -/
theorem shapeAt_erase {dir : List String} {name : String}
    (hold : d.shapeAt (dir ++ [name]) ≠ some .dir) (place : List String) :
    (d.erase (dir ++ [name])).shapeAt place =
      if place = dir ++ [name] then none else d.shapeAt place := by
  split_ifs with hplace
  · have hgone := d.erase_below dir name []
    subst hplace
    rwa [List.append_nil] at hgone
  · by_cases hpre : dir ++ [name] <+: place
    · have hgone : (d.erase (dir ++ [name])).shapeAt place = none := by
        obtain ⟨rest, rfl⟩ := hpre
        exact d.erase_below dir name rest
      rw [hgone]
      by_contra hthere
      have hsome : (d.shapeAt place).isSome := Option.ne_none_iff_isSome.1 (Ne.symm hthere)
      obtain ⟨rest, rfl⟩ := hpre
      cases rest with
      | nil => exact hplace (List.append_nil _)
      | cons other rest => exact hold (shapeAt_above other rest hsome)
    · exact Tree.shape_get?_erase_beside d.tree hpre

namespace Spared

theorem refl (root : List String) (d : Disk) : Spared root d d := (Paved.refl d).spared root

theorem trans (h : Spared root d d') (h' : Spared root d' d'') : Spared root d d'' where
  cwd := h'.cwd.trans h.cwd
  beside place hbeside := by
    rcases h.beside place hbeside with hsame | ⟨hnone, hdir⟩
    · rw [← hsame]
      exact h'.beside place hbeside
    · rcases h'.beside place hbeside with hsame | ⟨hnone', -⟩
      · exact Or.inr ⟨hnone, hsame.trans hdir⟩
      · cases hnone'.symm.trans hdir

theorem placeOf (h : Spared root d d') (text : String) : d'.placeOf text = d.placeOf text := by
  unfold Disk.placeOf
  rw [h.cwd]

theorem kept (h : Spared root d d') {place : List String} (hbeside : ¬ root <+: place)
    {shape : Shape} (hshape : d.shapeAt place = some shape) : d'.shapeAt place = some shape := by
  rcases h.beside place hbeside with hsame | ⟨hnone, -⟩
  · rw [hsame, hshape]
  · cases hnone.symm.trans hshape

/-- Where the place is no directory, nothing is below it. -/
theorem beside_of_shapeAt {place : List String} (hroot : d.shapeAt root ≠ some .dir)
    (hne : place ≠ root) (hshape : (d.shapeAt place).isSome) : ¬ root <+: place := by
  rintro ⟨rest, rfl⟩
  cases rest with
  | nil => exact hne (List.append_nil root)
  | cons name rest => exact hroot (shapeAt_above name rest hshape)

/-- So every directory stays, -/
theorem housed (h : Spared root d d') (hroot : d.shapeAt root ≠ some .dir) : Housed d d' where
  cwd := h.cwd
  dirs place hdir := by
    refine h.kept (beside_of_shapeAt hroot ?_ (by rw [hdir]; rfl)) hdir
    rintro rfl
    exact hroot hdir

/-- and a file that is elsewhere is read as before. -/
theorem read (h : Spared root d d') (hroot : d.shapeAt root ≠ some .dir) {text : String}
    {bytes : ByteArray} (hread : d.read text = .ok bytes) (hne : d.placeOf text ≠ root) :
    d'.read text = .ok bytes := by
  have hfile := shapeAt_of_read hread
  exact (h.housed hroot).read hread
    (h.kept (beside_of_shapeAt hroot hne (by rw [hfile]; rfl)) hfile)

end Spared

/-- What is done at a place where no directory was loses none that there was. -/
theorem Housed.spared (h : Housed d d') (h' : Spared root d' d'')
    (hroot : d.shapeAt root ≠ some .dir) : Housed d d'' where
  cwd := h'.cwd.trans h.cwd
  dirs place hdir := by
    refine h'.kept (Spared.beside_of_shapeAt hroot ?_ (by rw [hdir]; rfl)) (h.dirs place hdir)
    rintro rfl
    exact hroot hdir

/-! ## Renaming -/

theorem unlink_eq_ok {text : String} (h : d.unlink text = .ok d') :
    d' = d.erase (d.placeOf text) ∧ d.shapeAt (d.placeOf text) ≠ some .dir := by
  unfold unlink at h
  obtain ⟨⟨s, n⟩, hnamed, h⟩ := bind_eq_ok_iff.1 h
  obtain ⟨hwalk, -, -⟩ := named_eq_ok hnamed
  rw [← walk_parts hwalk, shapeAt_parts]
  dsimp only at h
  cases hnode : d.node? s with
  | none =>
    rw [hnode] at h
    cases h
  | some node =>
    rw [hnode] at h
    cases node with
    | dir children mode => cases h
    | file data mode =>
      dsimp only at h
      split at h
      · cases h
      · cases h
        exact ⟨rfl, by simp [Tree.shape]⟩

theorem removeDir_eq_ok {text : String} (h : d.removeDir text = .ok d') :
    d' = d.erase (d.placeOf text) := by
  unfold removeDir at h
  obtain ⟨⟨s, n⟩, hnamed, h⟩ := bind_eq_ok_iff.1 h
  rw [← walk_parts (named_eq_ok hnamed).1]
  dsimp only at h
  split at h
  · cases h
  · cases h
  · exact (Except.ok.inj h).symm
  · cases h

/-- A file that is moved takes the place of another one, or one where nothing is. -/
theorem rename_eq_ok {source target : String} {data : ByteArray}
    (hsource : d.shapeAt (d.placeOf source) = some (.file data))
    (hne : d.placeOf target ≠ d.placeOf source) (h : d.rename source target = .ok d') :
    ∃ s n mode, d.walk target = .ok s ∧ s.last = .name n ∧ checkName n = .ok () ∧
      s.slash = false ∧ d.shapeAt s.parts ≠ some .dir ∧
      d' = (d.erase (d.placeOf source)).put s.parts (.file data mode) := by
  unfold rename at h
  obtain ⟨⟨s, n⟩, hnamed, h⟩ := bind_eq_ok_iff.1 h
  obtain ⟨⟨s', n'⟩, hnamed', h⟩ := bind_eq_ok_iff.1 h
  have hs := walk_parts (named_eq_ok hnamed).1
  obtain ⟨hwalk', hlast', hname'⟩ := named_eq_ok hnamed'
  have hs' := walk_parts hwalk'
  rw [← hs, shapeAt_parts, Option.map_eq_some_iff] at hsource
  obtain ⟨node, hnode, hshape⟩ := hsource
  dsimp only at h
  rw [hnode] at h
  cases node with
  | dir children mode => cases hshape
  | file bytes mode =>
  cases hshape
  -- the checks of the request, in their order
  dsimp only at h
  split at h
  · cases h
  next hslash =>
  split at h
  · next heq => exact absurd (hs'.symm.trans (heq.symm.trans hs)) hne
  split at h
  · cases h
  split at h
  · cases h
  have hplain : s'.slash = false := by
    cases hs'' : s'.slash with
    | false => rfl
    | true => exact absurd (by simp [Tree.isFile, Tree.isDir, hs'']) hslash
  refine ⟨s', n', mode, hwalk', hlast', hname', hplain, ?_⟩
  rw [shapeAt_parts]
  cases hreplaced : d.node? s' with
  | none =>
    rw [hreplaced] at h
    exact ⟨by simp, by rw [← hs]; exact (Except.ok.inj h).symm⟩
  | some replaced =>
    rw [hreplaced] at h
    cases replaced with
    | dir children mode' => cases h
    | file bytes' mode' =>
      exact ⟨by simp [Tree.shape], by rw [← hs]; exact (Except.ok.inj h).symm⟩

/-- A path to a file ends in a name. -/
theorem last_of_file (hd : d.Grounded) {text : String} {s : Spot} (hwalk : d.walk text = .ok s)
    {data : ByteArray} (hfile : d.shapeAt s.parts = some (.file data)) : ∃ n, s.last = .name n := by
  have hdir := walk_dir hd hwalk
  cases hlast : s.last with
  | name n => exact ⟨n, rfl⟩
  | here | root =>
    rw [Spot.parts, hlast] at hfile
    cases hdir.symm.trans hfile
  | above =>
    rw [Spot.parts, hlast] at hfile
    cases (shapeAt_dropLast hdir).symm.trans hfile

/-- It is read there, and nothing but its old place and its new one has changed. -/
theorem read_of_rename (hd : d.Grounded) {source target : String} {data : ByteArray}
    (hsource : d.shapeAt (d.placeOf source) = some (.file data))
    (hne : d.placeOf target ≠ d.placeOf source) (h : d.rename source target = .ok d') :
    Housed d d' ∧ d'.read target = .ok data ∧ ∀ place, d'.shapeAt place =
      if place = d.placeOf target then some (.file data)
      else if place = d.placeOf source then none else d.shapeAt place := by
  obtain ⟨s, n, mode, hwalk, hlast, hname, hslash, hold, rfl⟩ := rename_eq_ok hsource hne h
  have hroot : d.shapeAt (d.placeOf source) ≠ some .dir := by
    rw [hsource]
    nofun
  have hhoused := (spared_erase d (d.placeOf source)).housed hroot
  have hground := hhoused.grounded hd
  have hwalk' : (d.erase (d.placeOf source)).walk target = .ok s :=
    walk_of_dirs hhoused.cwd hhoused.dirs hwalk
  obtain ⟨above, name, hplace⟩ : ∃ above name, d.placeOf source = above ++ [name] := by
    rcases List.eq_nil_or_concat (d.placeOf source) with hnil | ⟨above, name, hconcat⟩
    · rw [hnil, hd.root] at hsource
      cases hsource
    · exact ⟨above, name, hconcat.trans List.concat_eq_append⟩
  have herased : ∀ place, (d.erase (d.placeOf source)).shapeAt place =
      if place = d.placeOf source then none else d.shapeAt place := by
    rw [hplace] at hroot ⊢
    exact shapeAt_erase hroot
  have hparts : s.parts = s.dir ++ [n] := by rw [Spot.parts, hlast]
  have htarget := walk_parts hwalk
  rw [hparts] at htarget hold ⊢
  have hfree : (d.erase (d.placeOf source)).shapeAt (s.dir ++ [n]) ≠ some .dir := by
    rw [herased, htarget, if_neg hne, ← htarget]
    exact hold
  have hput := shapeAt_putFile data mode (walk_dir hground hwalk') hfree
  have hafter := hhoused.trans (grown_put data mode (walk_dir hground hwalk') hfree).1.housed
  refine ⟨hafter, read_eq_ok_iff.2 ⟨s, walk_of_dirs hafter.cwd hafter.dirs hwalk, ?_, hslash, ?_⟩,
    fun place => ?_⟩
  · intro n' hn
    rw [hlast] at hn
    cases hn
    exact hname
  · rw [hparts]
    exact (hput _).trans (if_pos rfl)
  · rw [hput, htarget, herased]

end Disk

namespace Job

open Disk

variable {d d' : Disk} {text : String}

/-! ## Removing a directory -/

/-- Where a path leads elsewhere than to what holds the working directory, all that is beside it is
    spared. -/
def Sparing (text : String) (d d' : Disk) : Prop :=
  d.Grounded → ¬ d.placeOf text <+: d.cwd → Spared (d.placeOf text) d d'

instance : IsPreorder Disk (Sparing text) where
  refl d _ _ := .refl _ d
  trans d d' d'' h h' hd haway := by
    have hfirst := h hd haway
    have hground : d'.Grounded := by
      unfold Grounded
      rw [hfirst.cwd]
      exact hfirst.kept haway hd
    have hthen := h' hground
    rw [hfirst.placeOf, hfirst.cwd] at hthen
    exact hfirst.trans (hthen haway)

theorem Paves.sparing {α : Type} {job : Job α} (h : job.Paves) (text : String) :
    Leads (Sparing text) job :=
  fun d hd _ => (h d hd).spared _

theorem sparing_removeTree (text : String) : Leads (Sparing text) (removeTree text) := by
  intro d _ _
  rw [removeTree, resultOf_bind, resultOf_ask]
  cases hfind : d.find text with
  | error e => exact .refl _ d
  | ok found =>
    obtain ⟨parts, node⟩ := found
    obtain ⟨s, hwalk, -, rfl, -⟩ := find_eq_ok_iff.1 hfind
    rw [goOnWith, walk_parts hwalk]
    cases node with
    | file data mode => exact .refl _ d
    | dir children mode =>
      have hput := spared_put d (d.placeOf text) (.dir [] mode)
      show Spared _ d (resultOf (change (·.removeDir text)) (d.put _ (.dir [] mode))).2
      rcases resultOf_change (·.removeDir text) (d.put (d.placeOf text) (.dir [] mode)) with
        ⟨d', hremoved, hresult⟩ | ⟨e, -, hresult⟩ <;> rw [hresult]
      · rw [removeDir_eq_ok hremoved, hput.placeOf]
        exact hput.trans (spared_erase _ _)
      · exact hput

/-! ## Replacing a file -/

theorem isComponent_freshName (children : List (String × Tree Nat)) :
    Path.isComponent (freshName children) = true := by
  obtain ⟨n, hn⟩ : ∃ n : Nat, freshName children = ".staged" ++ toString n := ⟨_, rfl⟩
  rw [hn]
  have hdigits : ∀ c ∈ (toString n).toList, c.isDigit = true := by
    rw [Nat.toString_eq_ofList_toDigits, String.toList_ofList]
    exact fun c hc => Nat.isDigit_of_mem_toDigits (by decide) (by decide) hc
  have hfree : ∀ c : Char, c.isDigit = false → c ∉ ".staged".toList →
      c ∉ (".staged" ++ toString n).toList := by
    intro c hc hstaged hmem
    rw [String.toList_append] at hmem
    rcases List.mem_append.1 hmem with hmem | hmem
    · exact hstaged hmem
    · exact Bool.false_ne_true (hc.symm.trans (hdigits c hmem))
  refine Path.isComponent_of_length ?_ (hfree '/' (by decide) (by decide))
    (hfree '\x00' (by decide) (by decide))
  have hstaged : ".staged".length = 7 := by decide
  rw [String.length_append]
  omega

/-- There are more names to choose from than are taken. -/
theorem exists_free_name (children : List (String × Tree Nat)) :
    ∃ n ∈ List.range (children.length + 1), children.lookup (".staged" ++ toString n) = none := by
  by_contra hnone
  have htaken : (List.range (children.length + 1)).map (fun n => ".staged" ++ toString n) ⊆
      children.map Prod.fst := by
    intro name hname
    obtain ⟨n, hn, rfl⟩ := List.mem_map.1 hname
    by_contra hfree
    refine hnone ⟨n, hn, List.lookup_eq_none_iff.2 fun entry hentry => ?_⟩
    rw [bne_iff_ne]
    rintro heq
    exact hfree (List.mem_map.2 ⟨entry, hentry, heq.symm⟩)
  have hnodup :
      ((List.range (children.length + 1)).map fun n => ".staged" ++ toString n).Nodup := by
    refine List.Nodup.map (fun m n heq => ?_) List.nodup_range
    have hdigits := congrArg String.toList heq
    simp only [String.toList_append, Nat.toString_eq_ofList_toDigits, String.toList_ofList]
      at hdigits
    have hvalue := congrArg (Nat.ofDigitChars 10 · 0) (List.append_cancel_left hdigits)
    rwa [Nat.ofDigitChars_ten_toDigits, Nat.ofDigitChars_ten_toDigits] at hvalue
  have hlength := (List.subperm_of_subset hnodup htaken).length_le
  simp only [List.length_map, List.length_range] at hlength
  omega

theorem lookup_freshName (children : List (String × Tree Nat)) :
    children.lookup (freshName children) = none := by
  obtain ⟨n, hn, hfree⟩ := exists_free_name children
  obtain ⟨m, hm⟩ : ∃ m, (List.range (children.length + 1)).find?
      (fun n => !(children.lookup (".staged" ++ toString n)).isSome) = some m := by
    rw [← Option.isSome_iff_exists, List.find?_isSome]
    exact ⟨n, hn, by rw [hfree]; rfl⟩
  have hfound := List.find?_some hm
  rw [freshName]
  dsimp only
  rw [hm, Option.getD_some]
  simpa using hfound

/-- What is in a directory is on the list of it. -/
theorem shapeAt_child {text : String} {children : List (String × Tree Nat)}
    (h : d.list text = .ok children) (name : String) :
    d.shapeAt (d.placeOf text ++ [name]) = (children.lookup name).map Tree.shape := by
  obtain ⟨⟨parts, node⟩, hfind, h⟩ := bind_eq_ok_iff.1 h
  obtain ⟨s, hwalk, -, rfl, hnode, -⟩ := find_eq_ok_iff.1 hfind
  cases node with
  | file data mode => cases h
  | dir others mode =>
    cases h
    have hget : d.tree.get? s.parts = some (.dir children mode) := hnode
    rw [shapeAt, ← walk_parts hwalk, Tree.get?_append, hget, Option.bind_some, Tree.get?,
      Tree.child?]
    cases children.lookup name <;> rfl

/-- What is staged goes where nothing is. -/
theorem shapeAt_staged {parent : String} {children : List (String × Tree Nat)}
    (h : d.list parent = .ok children) :
    d.shapeAt (d.placeOf (Location.join parent (freshName children))) = none := by
  rw [Package.placeOf_join_name d parent (isComponent_freshName children), shapeAt_child h,
    lookup_freshName]
  rfl

/-- Put new content beside a file and then in its place. -/
def replaceIn (parent text : String) (data : ByteArray) : Job Unit := do
  makeDirs parent
  let staged := Location.join parent (freshName (← ask (·.list parent)))
  change (·.alter staged stagedMode fun _ => data)
  if text.toList.contains '\x00' then
    change (·.unlink staged)
    refuse .invalid
  tryCatch (change (·.rename staged text)) fun e => do
    change (·.unlink staged)
    throw e

theorem exists_replaceFile_eq (text : String) (data : ByteArray) :
    ∃ parent, replaceFile text data = replaceIn parent text data := ⟨_, rfl⟩

/-- A file is read with new content where that was granted, and with the old one otherwise. -/
def Replaced (text : String) (old data : ByteArray) (d : Disk) (result : Except Error Unit × Disk) :
    Prop :=
  Housed d result.2 ∧ result.2.read text = .ok (if result.1 = .ok () then data else old)

theorem Replaced.of_ok {old data : ByteArray} (h : Housed d d') (hread : d'.read text = .ok data) :
    Replaced text old data d (.ok (), d') :=
  ⟨h, hread⟩

theorem Replaced.of_error {old data : ByteArray} (h : Housed d d') (hread : d'.read text = .ok old)
    (e : Error) : Replaced text old data d (.error e, d') :=
  ⟨h, hread⟩

theorem Replaced.after {old data : ByteArray} {result : Except Error Unit × Disk} (h : Housed d d')
    (h' : Replaced text old data d' result) : Replaced text old data d result :=
  ⟨h.trans h'.1, h'.2⟩

/-- What is staged takes the place of a file, or is removed. -/
theorem replaced_move {staged : String} (hd : d.Grounded) {old data : ByteArray}
    (hread : d.read text = .ok old) (hne : d.placeOf text ≠ d.placeOf staged)
    (hstaged : d.shapeAt (d.placeOf staged) = some (.file data)) :
    Replaced text old data d (resultOf (tryCatch (change (·.rename staged text)) fun e => do
      change (·.unlink staged)
      throw e) d) := by
  have hrefl : Housed d d := ⟨rfl, fun _ => id⟩
  rw [resultOf_tryCatch]
  rcases resultOf_change (·.rename staged text) d with ⟨d', hrename, hresult⟩ | ⟨e, -, hresult⟩ <;>
    rw [hresult]
  · obtain ⟨hhoused, hnew, -⟩ := read_of_rename hd hstaged hne hrename
    exact .of_ok hhoused hnew
  · rw [recoverWith, resultOf_bind]
    rcases resultOf_change (·.unlink staged) d with ⟨d', hunlink, hresult⟩ | ⟨e', -, hresult⟩ <;>
      rw [hresult]
    · obtain ⟨rfl, hroot⟩ := unlink_eq_ok hunlink
      have hspared := spared_erase d (d.placeOf staged)
      exact .of_error (hspared.housed hroot) (hspared.read hroot hread hne) e
    · exact .of_error hrefl hread e'

/-- A file is replaced, or it stays as it is. -/
theorem replaced (hd : d.Grounded) {old : ByteArray} (hread : d.read text = .ok old)
    (data : ByteArray) : Replaced text old data d (resultOf (replaceFile text data) d) := by
  obtain ⟨parent, hreplace⟩ := exists_replaceFile_eq text data
  have hnul : text.toList.contains '\x00' = false := by
    obtain ⟨s, hwalk, -⟩ := read_eq_ok_iff.1 hread
    exact (walk_eq_ok_iff.1 hwalk).1.1
  have hpaved := paves_makeDirs parent d hd
  rw [hreplace, replaceIn, resultOf_bind]
  rcases hmade : resultOf (makeDirs parent) d with ⟨e | ⟨⟩, d₁⟩ <;> rw [hmade] at hpaved
  · exact .of_error hpaved.grown.housed (hpaved.grown.read hread (by simp)) e
  refine .after hpaved.grown.housed ?_
  have hread₁ : d₁.read text = .ok old := hpaved.grown.read hread (by simp)
  have hd₁ := hpaved.grown.grounded hd
  have hrefl : Housed d₁ d₁ := ⟨rfl, fun _ => id⟩
  rw [goOnWith, resultOf_bind, resultOf_ask]
  cases hlist : d₁.list parent with
  | error e => exact .of_error hrefl hread₁ e
  | ok children =>
  have hfree := shapeAt_staged hlist
  rw [goOnWith]
  dsimp only
  generalize Location.join parent (freshName children) = staged at hfree ⊢
  have hne : d₁.placeOf text ≠ d₁.placeOf staged := by
    intro heq
    rw [← heq, shapeAt_of_read hread₁] at hfree
    cases hfree
  rw [resultOf_bind]
  rcases resultOf_change (·.alter staged stagedMode fun _ => data) d₁ with
    ⟨d₂, halter, hresult⟩ | ⟨e, -, hresult⟩ <;> rw [hresult]
  · obtain ⟨hgrown, hwritten⟩ := alter_eq_ok hd₁ halter
    rw [goOnWith, hnul, if_neg Bool.false_ne_true]
    refine .after hgrown.housed (replaced_move (hgrown.grounded hd₁)
      (hgrown.read hread₁ (by simpa using hne)) ?_ (shapeAt_of_read hwritten))
    rw [hgrown.placeOf, hgrown.placeOf]
    exact hne
  · exact .of_error hrefl hread₁ e

end Job

end Host

end Workbench
