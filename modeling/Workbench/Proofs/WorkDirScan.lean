import Mathlib.Data.List.Nodup
import Workbench.Package.WorkDir
import Workbench.Proofs.Dictionary
import Workbench.Proofs.DiskPlaces

set_option autoImplicit false

/-! # What a work directory names

The configurations of a work directory name archives for import paths, one after the other: first
comes the archive of the package itself, then directory by directory what is named for compiling and
what is named for linking. An import path has the archive that was named for it first, and where no
archive has two import paths it depends on what the configuration beside its archive lists. -/

namespace Workbench.Package.WorkDir

open Host (Disk Location)

/-- The directories of a work directory, in the order of their names. -/
def actions (d : Disk) (work : String) : List String :=
  ((((d.list work).toOption.getD []).filter (·.2.isDir)).map Prod.fst).mergeSort (· ≤ ·)
    |>.map (Location.join work)

/-- The bindings of a configuration that may be absent. -/
def bindingsIn (d : Disk) (path : String) : List (String × String) :=
  ((d.readText path).toOption.map fun text => (ImportConfig.parse text).entries).getD []

/-- What the configurations of a directory name. -/
def namedIn (d : Disk) (action : String) : List (String × String) :=
  bindingsIn d (Location.join action "importcfg") ++
    bindingsIn d (Location.join action "importcfg.link")

/-- The archive of the package that was asked for. -/
def rootArchive (work : String) : String := Location.join (Location.join work rootAction) archiveName

/-- All archives that a work directory names, in the order in which they count. -/
def named (d : Disk) (work package : String) : List (String × String) :=
  (if (d.find (rootArchive work)).toOption.any (·.2.isFile) then [(package, rootArchive work)]
    else []) ++
  (actions d work).flatMap (namedIn d)

/-- The place of an archive with the import paths that the configuration beside it lists. -/
def configured? (d : Disk) (action : String) : Option (String × List String) :=
  (d.readText (Location.join action "importcfg")).toOption.map fun text =>
    (Location.join action archiveName, (ImportConfig.parse text).entries.map Prod.fst)

/-- The import paths that the configuration beside an archive lists. -/
def importsBeside (d : Disk) (work archive : String) : List String :=
  (((((actions d work).filterMap (configured? d)).filter fun entry =>
    Location.ofText entry.1 = Location.ofText archive).getLast?).map Prod.snd).getD []

/-! ## Reading it -/

variable {d : Disk} {w w' : WorkDir} {work package : String}

theorem bindingsIn_of_readConfig? {path : String} {c? : Option ImportConfig}
    (h : readConfig? d path = .ok c?) :
    bindingsIn d path = (c?.map ImportConfig.entries).getD [] ∧
      (d.readText path).toOption.map ImportConfig.parse = c? := by
  unfold readConfig? at h
  unfold bindingsIn
  cases hread : d.readText path with
  | ok text =>
    rw [hread] at h
    cases h
    exact ⟨rfl, rfl⟩
  | error e =>
    rw [hread] at h
    dsimp only at h
    split_ifs at h
    cases h
    exact ⟨rfl, rfl⟩

/-- Take in what the configuration of a link names. -/
def scanLinked (d : Disk) (w : WorkDir) (action : String) : Except Host.Error WorkDir := do
  match ← readConfig? d (Location.join action "importcfg.link") with
  | none => return w
  | some c => return { w with archives := c.entries.foldl addArchive w.archives }

/-- The configuration of a link names archives and no imports. -/
theorem of_scanLinked {action : String} (h : scanLinked d w action = .ok w') :
    w'.archives = (bindingsIn d (Location.join action "importcfg.link")).foldl addArchive
      w.archives ∧ w'.imports = w.imports := by
  obtain ⟨link?, hlink, h⟩ := bind_eq_ok_iff.1 h
  rw [(bindingsIn_of_readConfig? hlink).1]
  cases link? with
  | none =>
    cases h
    exact ⟨rfl, rfl⟩
  | some c =>
    cases h
    exact ⟨rfl, rfl⟩

/-- Reading a directory takes in what its configurations name. -/
theorem of_scanAction {action : String} (h : scanAction d w action = .ok w') :
    w'.archives = (namedIn d action).foldl addArchive w.archives ∧
      w'.imports = w.imports ++ (configured? d action).toList := by
  have hconfigured : configured? d action = ((d.readText (Location.join action "importcfg")).toOption.map
      ImportConfig.parse).map fun c => (Location.join action archiveName, c.entries.map Prod.fst) := by
    rw [configured?, Option.map_map]
    rfl
  unfold scanAction at h
  obtain ⟨c?, hcompile, h⟩ := bind_eq_ok_iff.1 h
  obtain ⟨hcompiled, hparsed⟩ := bindingsIn_of_readConfig? hcompile
  rw [hparsed] at hconfigured
  rw [namedIn, hcompiled, hconfigured, List.foldl_append]
  cases c? with
  | none =>
    obtain ⟨harchives, himports⟩ := of_scanLinked h
    exact ⟨harchives, by rw [himports]; simp⟩
  | some c =>
    obtain ⟨harchives, himports⟩ := of_scanLinked h
    exact ⟨harchives, himports⟩

/-- Reading all directories takes in what all of them name. -/
theorem of_foldlM_scanAction {list : List String} (h : list.foldlM (scanAction d) w = .ok w') :
    w'.archives = (list.flatMap (namedIn d)).foldl addArchive w.archives ∧
      w'.imports = w.imports ++ list.filterMap (configured? d) := by
  induction list generalizing w with
  | nil =>
    cases h
    exact ⟨rfl, (List.append_nil _).symm⟩
  | cons action list ih =>
    rw [List.foldlM_cons] at h
    obtain ⟨w₁, hfirst, h⟩ := bind_eq_ok_iff.1 h
    obtain ⟨harchives, himports⟩ := of_scanAction hfirst
    obtain ⟨harchives', himports'⟩ := ih h
    refine ⟨?_, ?_⟩
    · rw [harchives', harchives, List.flatMap_cons, List.foldl_append]
    · rw [himports', himports, List.append_assoc]
      cases hconfigured : configured? d action with
      | none => rw [List.filterMap_cons_none hconfigured]; rfl
      | some entry => rw [List.filterMap_cons_some hconfigured]; rfl

/-- What a work directory tells is what it names, and what its configurations list. -/
theorem of_scan (h : scan d work package = .ok w) :
    w.archives = (named d work package).foldl addArchive [] ∧
      w.imports = (actions d work).filterMap (configured? d) := by
  unfold scan at h
  obtain ⟨children, hlist, h⟩ := bind_eq_ok_iff.1 h
  have hactions : actions d work = ((((children.filter (·.2.isDir)).map Prod.fst).mergeSort (· ≤ ·)).map
      (Location.join work)) := by
    rw [actions, hlist]
    rfl
  obtain ⟨harchives, himports⟩ := of_foldlM_scanAction h
  rw [← hactions] at harchives himports
  refine ⟨?_, himports⟩
  rw [harchives, named, List.foldl_append]
  show List.foldl addArchive (if (d.find (rootArchive work)).toOption.any (·.2.isFile) then
    [(package, rootArchive work)] else []) _ = _
  split_ifs with hroot
  · rfl
  · rfl

/-! ## What was named first -/

/-- What is noted is what was named first. -/
theorem lookup_foldl_addArchive (archives bindings : List (String × String)) (importPath : String) :
    (bindings.foldl addArchive archives).lookup importPath =
      (archives ++ bindings).lookup importPath := by
  induction bindings generalizing archives with
  | nil => rw [List.foldl_nil, List.append_nil]
  | cons binding bindings ih =>
    rw [List.foldl_cons, ih, addArchive]
    split_ifs with hknown
    · -- it was known already, so that it is named again does not count
      rw [List.lookup_append, List.lookup_append, List.lookup_cons]
      by_cases hself : importPath = binding.1
      · subst hself
        obtain ⟨archive, harchive⟩ := Option.isSome_iff_exists.1 hknown
        rw [harchive]
        rfl
      · rw [beq_eq_false_iff_ne.2 hself]
    · rw [List.append_assoc, List.singleton_append]

theorem nodup_foldl_addArchive {archives : List (String × String)}
    (h : (archives.map Prod.fst).Nodup) (bindings : List (String × String)) :
    ((bindings.foldl addArchive archives).map Prod.fst).Nodup := by
  induction bindings generalizing archives with
  | nil => exact h
  | cons binding bindings ih =>
    rw [List.foldl_cons]
    refine ih ?_
    rw [addArchive]
    split_ifs with hknown
    · exact h
    · rw [List.map_append, List.map_singleton]
      have hnew : binding.1 ∉ archives.map Prod.fst := by
        intro hmem
        obtain ⟨entry, hentry, heq⟩ := List.mem_map.1 hmem
        exact hknown (List.lookup_isSome_iff.2 ⟨entry, hentry, beq_iff_eq.2 heq.symm⟩)
      have honce := h.concat hnew
      rwa [List.concat_eq_append] at honce

/-- The archives that a work directory tells of are those that it names first. -/
theorem mem_archives_iff (h : scan d work package = .ok w) {importPath archive : String} :
    (importPath, archive) ∈ w.archives ↔
      (named d work package).lookup importPath = some archive := by
  obtain ⟨harchives, -⟩ := of_scan h
  have hnone : (([] : List (String × String)).map Prod.fst).Nodup := List.nodup_nil
  rw [harchives, mem_iff_lookup_eq_some (nodup_foldl_addArchive hnone _),
    lookup_foldl_addArchive, List.nil_append]

/-- Every import path that is named has an archive. -/
theorem exists_archive (h : scan d work package = .ok w) {importPath : String}
    (hnamed : importPath ∈ (named d work package).map Prod.fst) :
    ∃ archive, (importPath, archive) ∈ w.archives := by
  obtain ⟨entry, hentry, heq⟩ := List.mem_map.1 hnamed
  have hsome : ((named d work package).lookup importPath).isSome = true :=
    List.lookup_isSome_iff.2 ⟨entry, hentry, beq_iff_eq.2 heq.symm⟩
  obtain ⟨archive, harchive⟩ := Option.isSome_iff_exists.1 hsome
  exact ⟨archive, (mem_archives_iff h).2 harchive⟩

/-! ## What packages depend on -/

theorem mem_insertSorted {text other : String} {sorted : List String} :
    other ∈ insertSorted text sorted ↔ other = text ∨ other ∈ sorted := by
  induction sorted with
  | nil => simp [insertSorted]
  | cons t rest ih =>
    rw [insertSorted]
    split_ifs with hsame hless
    · simp [hsame]
    · simp
    · rw [List.mem_cons, ih, List.mem_cons]
      exact or_left_comm

theorem mem_foldl_insertSorted {texts sorted : List String} {other : String} :
    other ∈ texts.foldl (fun sorted text => insertSorted text sorted) sorted ↔
      other ∈ texts ∨ other ∈ sorted := by
  induction texts generalizing sorted with
  | nil => simp
  | cons text texts ih =>
    rw [List.foldl_cons, ih, mem_insertSorted, List.mem_cons]
    tauto

theorem mem_depsOf_iff {importPath dep : String} : dep ∈ w.depsOf importPath ↔
    dep ∈ (((w.imports.filter fun entry => w.ownerOf? entry.1 = some importPath).getLast?).map
      Prod.snd).getD [] := by
  rw [depsOf]
  cases (w.imports.filter fun entry => w.ownerOf? entry.1 = some importPath).getLast? with
  | none => rfl
  | some entry =>
    rw [Option.map_some, Option.getD_some]
    exact mem_foldl_insertSorted.trans (or_iff_left List.not_mem_nil)

/-- What a package depends on is named, too. -/
theorem named_of_mem_depsOf (h : scan d work package = .ok w) {importPath dep : String}
    (hdep : dep ∈ w.depsOf importPath) : dep ∈ (named d work package).map Prod.fst := by
  rw [mem_depsOf_iff] at hdep
  cases hlast : (w.imports.filter fun entry => w.ownerOf? entry.1 = some importPath).getLast? with
  | none =>
    rw [hlast] at hdep
    exact absurd hdep List.not_mem_nil
  | some entry =>
    rw [hlast, Option.map_some, Option.getD_some] at hdep
    have hentry := (List.mem_filter.1 (List.mem_of_getLast? hlast)).1
    rw [(of_scan h).2] at hentry
    obtain ⟨action, haction, hconfigured⟩ := List.mem_filterMap.1 hentry
    obtain ⟨text, htext, rfl⟩ := Option.map_eq_some_iff.1 hconfigured
    have hbindings : bindingsIn d (Location.join action "importcfg") =
        (ImportConfig.parse text).entries := by
      rw [bindingsIn, htext]
      rfl
    rw [named, List.map_append, List.map_flatMap]
    refine List.mem_append_right _ (List.mem_flatMap.2 ⟨action, haction, ?_⟩)
    rw [namedIn, List.map_append, hbindings]
    exact List.mem_append_left _ hdep

/-- No two import paths of a work directory have the same archive. -/
def Apart (d : Disk) (work package : String) : Prop :=
  ∀ i j archive archive', (named d work package).lookup i = some archive →
    (named d work package).lookup j = some archive' →
    Location.ofText archive = Location.ofText archive' → i = j

/-- An archive that no other import path has belongs to its import path. -/
theorem ownerOf?_eq_iff (h : scan d work package = .ok w) (hapart : Apart d work package)
    {importPath archive : String} (hmem : (importPath, archive) ∈ w.archives) (other : String) :
    w.ownerOf? other = some importPath ↔ Location.ofText other = Location.ofText archive := by
  unfold ownerOf?
  constructor
  · intro howner
    obtain ⟨entry, hfind, hpath⟩ := Option.map_eq_some_iff.1 howner
    have hentry := List.mem_reverse.1 (List.mem_of_find?_eq_some hfind)
    have hlook := (mem_archives_iff h).1 (hpath ▸ hentry : (importPath, entry.2) ∈ w.archives)
    rw [(mem_archives_iff h).1 hmem] at hlook
    rw [Option.some.inj hlook]
    have hsame := List.find?_some hfind
    exact (of_decide_eq_true hsame).symm
  · intro hsame
    have hsome : (w.archives.reverse.find? fun entry =>
        Location.ofText entry.2 = Location.ofText other).isSome = true :=
      List.find?_isSome.2 ⟨_, List.mem_reverse.2 hmem, decide_eq_true hsame.symm⟩
    obtain ⟨entry, hfind⟩ := Option.isSome_iff_exists.1 hsome
    have hentry := List.mem_reverse.1 (List.mem_of_find?_eq_some hfind)
    have hother := List.find?_some hfind
    refine Option.map_eq_some_iff.2 ⟨entry, hfind, ?_⟩
    exact hapart _ _ _ _ ((mem_archives_iff h).1 hentry) ((mem_archives_iff h).1 hmem)
      ((of_decide_eq_true hother).trans hsame)

/-- Where every import path has an archive of its own, a package depends on what the configuration
    beside its archive lists. -/
theorem mem_depsOf_iff_beside (h : scan d work package = .ok w) (hapart : Apart d work package)
    {importPath archive : String} (hmem : (importPath, archive) ∈ w.archives) (dep : String) :
    dep ∈ w.depsOf importPath ↔ dep ∈ importsBeside d work archive := by
  rw [mem_depsOf_iff, importsBeside, (of_scan h).2]
  have hsame : ∀ entry : String × List String, decide (w.ownerOf? entry.1 = some importPath) =
      decide (Location.ofText entry.1 = Location.ofText archive) :=
    fun entry => decide_eq_decide.2 (ownerOf?_eq_iff h hapart hmem entry.1)
  simp only [hsame]

end Workbench.Package.WorkDir
