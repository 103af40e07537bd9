import Workbench.Asset.Folder
import Workbench.Asset.Mount
import Workbench.Package.Archive
import Workbench.Proofs.DiskPlaces
import Workbench.Proofs.ManifestLines
import Workbench.Proofs.PathKeys

set_option autoImplicit false

/-! # One name for an archive

The archive of an import path has a file in the store, a stored path in the manifest, and a key as
an asset. Each is put together in its own way. For an import path of ordinary components all three
come down to its components with `.a` after the last one: the file is at that place below the store,
the stored path reads back to it below the name of the store, and the key leads to the file. So the
files of different import paths are apart, and none of them is the manifest. -/

namespace Workbench

namespace Text

/-- What follows a text without a separator lengthens its last piece. -/
theorem splitOn_append_end {sep : Char} (a : List Char) {b : List Char} (hb : sep ∉ b) :
    ∃ init last, splitOn sep a = init ++ [last] ∧ splitOn sep (a ++ b) = init ++ [last ++ b] := by
  induction a with
  | nil => exact ⟨[], [], rfl, splitOn_of_notMem hb⟩
  | cons c a ih =>
    obtain ⟨init, last, ha, hab⟩ := ih
    by_cases hc : c = sep
    · subst hc
      refine ⟨[] :: init, last, ?_, ?_⟩
      · rw [splitOn_cons_sep, ha, List.cons_append]
      · rw [List.cons_append, splitOn_cons_sep, hab, List.cons_append]
    · obtain ⟨piece, rest, hpiece, hcons⟩ := splitOn_cons_of_ne hc a
      obtain ⟨piece', rest', hpiece', hcons'⟩ := splitOn_cons_of_ne hc (a ++ b)
      rw [List.cons_append, hcons, hcons']
      rw [ha] at hpiece
      rw [hab] at hpiece'
      cases init with
      | nil =>
        obtain ⟨rfl, rfl⟩ := List.cons.inj hpiece
        obtain ⟨rfl, rfl⟩ := List.cons.inj hpiece'
        exact ⟨[], c :: last, rfl, rfl⟩
      | cons first init =>
        obtain ⟨rfl, rfl⟩ := List.cons.inj hpiece
        obtain ⟨rfl, rfl⟩ := List.cons.inj hpiece'
        exact ⟨(c :: first) :: init, last, rfl, rfl⟩

end Text

namespace Path

/-- The pieces of a text, spelled out, are the text after a slash. -/
theorem spell_pieces (text : String) : spell (pieces text) = '/' :: text.toList := by
  unfold pieces
  induction text.toList with
  | nil => simp
  | cons c chars ih =>
    by_cases hc : c = '/'
    · subst hc
      rw [Text.splitOn_cons_sep, List.map_cons, spell_cons, ih]
      simp
    · obtain ⟨piece, rest, hpiece, hcons⟩ := Text.splitOn_cons_of_ne hc chars
      rw [hpiece, List.map_cons, spell_cons, String.toList_ofList] at ih
      rw [hcons, List.map_cons, spell_cons, String.toList_ofList, List.cons_append,
        (List.cons.inj ih).2]

theorem pieces_inj {a b : String} (h : pieces a = pieces b) : a = b := by
  have hspell := congrArg spell h
  rw [spell_pieces, spell_pieces] at hspell
  exact String.toList_inj.1 (List.cons.inj hspell).2

end Path

namespace Package

open Host (Disk Location)

/-- An import path of ordinary components, with no blank in it. -/
structure IsImportPath (text : String) : Prop where
  proper : ∀ piece ∈ Path.pieces text, Path.isComponent piece = true
  solid : ∀ c ∈ text.toList, Text.isBlank c = false

theorem isImportPath_iff (text : String) : IsImportPath text ↔
    ((Path.pieces text).all Path.isComponent && text.toList.all (!Text.isBlank ·)) = true := by
  rw [Bool.and_eq_true, List.all_eq_true, List.all_eq_true]
  refine ⟨fun h => ⟨h.proper, fun c hc => ?_⟩, fun h => ⟨h.1, fun c hc => ?_⟩⟩
  · rw [h.solid c hc, Bool.not_false]
  · exact Bool.not_eq_true' _ ▸ h.2 c hc

instance (text : String) : Decidable (IsImportPath text) :=
  decidable_of_iff' _ (isImportPath_iff text)

/-- The components of the file for an import path, as seen from the store. -/
def archiveParts (importPath : String) : List String := Path.pieces (importPath ++ ".a")

theorem archiveParts_eq (importPath : String) :
    ∃ init last, Path.pieces importPath = init ++ [last] ∧
      archiveParts importPath = init ++ [last ++ ".a"] := by
  obtain ⟨init, last, hpieces, hparts⟩ :=
    Text.splitOn_append_end importPath.toList (show '/' ∉ ".a".toList by decide)
  refine ⟨init.map String.ofList, String.ofList last, ?_, ?_⟩
  · rw [Path.pieces, hpieces, List.map_append, List.map_singleton]
  · rw [archiveParts, Path.pieces, String.toList_append, hparts, List.map_append,
      List.map_singleton, String.ofList_append, String.ofList_toList]

theorem archiveParts_inj {i j : String} (h : archiveParts i = archiveParts j) : i = j := by
  have htext := congrArg String.toList (Path.pieces_inj h)
  rw [String.toList_append, String.toList_append] at htext
  exact String.toList_inj.1 (List.append_cancel_right htext)

variable {importPath : String}

/-- The parts of the file are components like those of the import path. -/
theorem IsImportPath.archiveParts_proper (h : IsImportPath importPath) :
    ∀ part ∈ archiveParts importPath, Path.isComponent part = true := by
  obtain ⟨init, last, hpieces, hparts⟩ := archiveParts_eq importPath
  have hproper := h.proper
  rw [hpieces] at hproper
  rw [hparts]
  intro part hpart
  rcases List.mem_append.1 hpart with hpart | hpart
  · exact hproper part (List.mem_append_left _ hpart)
  · obtain rfl := List.mem_singleton.1 hpart
    have hlast := hproper last (List.mem_append_right _ (List.mem_singleton_self _))
    have hlength : 2 < (last ++ ".a").toList.length := by
      have hpos := List.length_pos_iff.2 (Path.toList_ne_nil_of_isComponent hlast)
      have ha : ".a".toList.length = 2 := by decide
      rw [String.toList_append, List.length_append, ha]
      omega
    have hslash : '/' ∉ (last ++ ".a").toList := by
      rw [String.toList_append, List.mem_append, not_or]
      exact ⟨Path.slash_notMem_of_isComponent hlast, by decide⟩
    have hnul : '\x00' ∉ (last ++ ".a").toList := by
      rw [String.toList_append, List.mem_append, not_or]
      exact ⟨Path.nul_notMem_of_isComponent hlast, by decide⟩
    exact Path.isComponent_of_length hlength hslash hnul

theorem storedPath_inj {World : Type} {a : Archivist World} {i j : String}
    (h : a.storedPath i = a.storedPath j) : i = j := by
  have htext := congrArg String.toList h
  simp only [Archivist.storedPath, String.toList_append, List.append_assoc] at htext
  have hname := List.append_cancel_left (List.append_cancel_left htext)
  exact String.toList_inj.1 (List.append_cancel_right hname)

/-! ## Places on the disk -/

theorem advance_of_isComponent (place : List String) {piece : String}
    (h : Path.isComponent piece = true) : Disk.advance place piece = place ++ [piece] := by
  obtain ⟨-, hdot, hdots⟩ := Path.plain_of_isComponent h
  rw [Disk.advance, if_neg hdot, if_neg hdots]

/-- Pieces that lead on from where they are met lengthen a place. -/
theorem foldl_advance_of_ne (pieces place : List String)
    (h : ∀ piece ∈ pieces, piece ≠ "." ∧ piece ≠ "..") :
    pieces.foldl Disk.advance place = place ++ pieces := by
  induction pieces generalizing place with
  | nil => simp
  | cons piece pieces ih =>
    obtain ⟨⟨hdot, hdots⟩, hrest⟩ := List.forall_mem_cons.1 h
    rw [List.foldl_cons, Disk.advance, if_neg hdot, if_neg hdots, ih _ hrest, List.append_assoc,
      List.singleton_append]

theorem foldl_advance (pieces place : List String)
    (h : ∀ piece ∈ pieces, Path.isComponent piece = true) :
    pieces.foldl Disk.advance place = place ++ pieces :=
  foldl_advance_of_ne pieces place fun piece hpiece => (Path.plain_of_isComponent (h piece hpiece)).2

/-- The pieces of a path that was joined are those of its base and then its own. -/
theorem pieces_join (base : String) {text : String} (htext : Location.isRooted text = false) :
    ∃ pieces, pieces.filter (· ≠ "") = Disk.piecesOf base ∧
      Location.pieces (Location.join base text) = pieces ++ Location.pieces text := by
  have hsplit : ∀ {s : String} (init : List Char), s.toList = init ++ '/' :: text.toList →
      Location.pieces s = Location.pieces (String.ofList init) ++ Location.pieces text := by
    intro s init hs
    rw [Location.pieces, hs, Text.splitOn_append_sep, List.map_append, Location.pieces,
      String.toList_ofList, Location.pieces]
  unfold Location.join
  rw [htext, Bool.false_or]
  by_cases hempty : base.isEmpty = true
  · rw [if_pos hempty, String.isEmpty_iff.1 hempty]
    exact ⟨[], rfl, rfl⟩
  rw [if_neg hempty]
  by_cases hslash : base.toList.getLast? = some '/'
  · rw [if_pos hslash]
    obtain ⟨init, hinit⟩ := List.getLast?_eq_some_iff.1 hslash
    -- the slash at the end of the base ends with an empty piece
    have hbase : Disk.piecesOf base = Disk.piecesOf (String.ofList init) := by
      rw [Disk.piecesOf, Location.pieces, hinit, Text.splitOn_append_sep, List.map_append,
        List.filter_append, Disk.piecesOf, Location.pieces, String.toList_ofList]
      simp
    refine ⟨Location.pieces (String.ofList init), hbase.symm, hsplit init ?_⟩
    rw [String.toList_append, hinit, List.append_assoc]
    rfl
  · rw [if_neg hslash]
    refine ⟨Location.pieces base, rfl, (hsplit base.toList ?_).trans ?_⟩
    · rw [String.toList_append, String.toList_append, List.append_assoc]
      rfl
    · rw [String.ofList_toList]

theorem isRooted_join (base : String) {text : String} (htext : Location.isRooted text = false) :
    Location.isRooted (Location.join base text) = Location.isRooted base := by
  unfold Location.join
  rw [htext, Bool.false_or]
  by_cases hempty : base.isEmpty = true
  · rw [if_pos hempty, String.isEmpty_iff.1 hempty, htext]
    rfl
  · have hne : base.toList ≠ [] := fun hnil =>
      hempty (String.isEmpty_iff.2 (String.toList_eq_nil_iff.1 hnil))
    obtain ⟨c, rest, hbase⟩ := List.exists_cons_of_ne_nil hne
    rw [if_neg hempty]
    split <;> simp [Location.isRooted, String.toList_append, hbase]

/-- A path that was joined leads from where its base leads on. -/
theorem placeOf_join (d : Disk) (base : String) {text : String}
    (htext : Location.isRooted text = false) :
    d.placeOf (Location.join base text) =
      (Disk.piecesOf text).foldl Disk.advance (d.placeOf base) := by
  obtain ⟨pieces, hbase, hpieces⟩ := pieces_join base htext
  rw [Disk.placeOf, isRooted_join base htext, Disk.piecesOf, hpieces, List.filter_append,
    List.foldl_append, hbase]
  rfl

/-- What begins with a slash begins with an empty piece. -/
theorem isRooted_of_notMem {text : String} (h : "" ∉ Path.pieces text) :
    Location.isRooted text = false := by
  rw [Location.isRooted, decide_eq_false_iff_not]
  intro hhead
  obtain ⟨rest, hrest⟩ := List.head?_eq_some_iff.1 hhead
  exact h (by rw [Path.pieces, hrest, Text.splitOn_cons_sep]; exact List.mem_cons_self)

theorem isRooted_of_pieces {text : String}
    (h : ∀ piece ∈ Path.pieces text, Path.isComponent piece = true) :
    Location.isRooted text = false :=
  isRooted_of_notMem fun hmem => absurd (h "" hmem) (by decide)

/-- The place of a file in a store. -/
theorem placeOf_storeFile {World : Type} (a : Archivist World) (d : Disk)
    (h : IsImportPath importPath) :
    d.placeOf (a.storeFile importPath) = d.placeOf a.storeDir ++ archiveParts importPath := by
  have hproper := h.archiveParts_proper
  have hpieces : Disk.piecesOf (importPath ++ ".a") = archiveParts importPath :=
    List.filter_eq_self.2 fun piece hpiece =>
      decide_eq_true (Path.plain_of_isComponent (hproper piece hpiece)).1
  rw [Archivist.storeFile, placeOf_join d _ (isRooted_of_pieces hproper), hpieces,
    foldl_advance _ _ hproper]

/-- The file for an import path, whatever that is, has a name that ends in `.a`. -/
theorem placeOf_storeFile_last {World : Type} (a : Archivist World) (d : Disk)
    (importPath : String) :
    ∃ above last, d.placeOf (a.storeFile importPath) = above ++ [last ++ ".a"] := by
  obtain ⟨init, last, -, hparts⟩ := archiveParts_eq importPath
  have hname : ∀ short ∈ ["", ".", ".."], last ++ ".a" ≠ short := by
    intro short hshort heq
    have hend := congrArg (fun text : String => text.toList.getLast?) heq
    rw [String.toList_append, List.getLast?_append_of_ne_nil _ (by decide)] at hend
    have hnone : ∀ short ∈ ["", ".", ".."], ".a".toList.getLast? ≠ short.toList.getLast? := by decide
    exact hnone short hshort hend
  have hpieces : Disk.piecesOf (importPath ++ ".a") = init.filter (· ≠ "") ++ [last ++ ".a"] := by
    show (archiveParts importPath).filter (· ≠ "") = _
    rw [hparts, List.filter_append, List.filter_singleton]
    simp [hname "" (by decide)]
  have hlast : ∀ place, (Disk.piecesOf (importPath ++ ".a")).foldl Disk.advance place =
      (init.filter (· ≠ "")).foldl Disk.advance place ++ [last ++ ".a"] := by
    intro place
    rw [hpieces, List.foldl_concat, Disk.advance, if_neg (hname "." (by decide)),
      if_neg (hname ".." (by decide))]
  by_cases hrooted : Location.isRooted (importPath ++ ".a") = true
  · rw [Archivist.storeFile, Location.join, hrooted, Bool.true_or, if_pos rfl, Disk.placeOf, hlast]
    exact ⟨_, _, rfl⟩
  · rw [Archivist.storeFile, placeOf_join d _ (Bool.eq_false_iff.2 hrooted), hlast]
    exact ⟨_, _, rfl⟩

/-- Pieces that are a dot lead nowhere. -/
theorem foldl_advance_filter (pieces place : List String) :
    (pieces.filter (· ≠ "")).foldl Disk.advance place =
      (pieces.filter fun piece => piece ≠ "" ∧ piece ≠ ".").foldl Disk.advance place := by
  induction pieces generalizing place with
  | nil => rfl
  | cons piece pieces ih =>
    by_cases hempty : piece = ""
    · rw [List.filter_cons_of_neg (by simp [hempty]), List.filter_cons_of_neg (by simp [hempty])]
      exact ih place
    by_cases hdot : piece = "."
    · rw [List.filter_cons_of_pos (by simp [hempty]), List.filter_cons_of_neg (by simp [hdot]),
        List.foldl_cons, Disk.advance, if_pos hdot]
      exact ih place
    · rw [List.filter_cons_of_pos (by simp [hempty]),
        List.filter_cons_of_pos (by simp [hempty, hdot]), List.foldl_cons, List.foldl_cons]
      exact ih _

/-- The place of a path with a name at its end. -/
theorem placeOf_of_fileName? (d : Disk) {text name : String}
    (h : (Location.ofText text).fileName? = some name) :
    ∃ above, d.placeOf text = above ++ [name] := by
  obtain ⟨hlast, hname⟩ := Option.filter_eq_some_iff.1 h
  rw [decide_eq_true_eq] at hname
  obtain ⟨init, hinit⟩ : ∃ init, ((Location.pieces text).filter fun piece =>
      piece ≠ "" ∧ piece ≠ ".") = init ++ [name] := by
    rw [← List.getLast?_eq_some_iff]
    rw [Location.ofText] at hlast
    dsimp only at hlast
    split at hlast
    · rw [List.getLast?_cons] at hlast
      cases hnamed : ((Location.pieces text).filter fun piece => piece ≠ "" ∧ piece ≠ ".").getLast?
      with
      | none =>
        rw [hnamed] at hlast
        exact absurd (Option.some.inj hlast).symm hname.2
      | some last =>
        rw [hnamed] at hlast
        exact hlast
    · exact hlast
  rw [Disk.placeOf, Disk.piecesOf, foldl_advance_filter, hinit, List.foldl_concat, Disk.advance, if_neg hname.2,
    if_neg hname.1]
  exact ⟨_, rfl⟩

/-- A manifest whose name does not end in `.a` is none of the files in a store. -/
theorem placeOf_manifest_ne {World : Type} {a : Archivist World} {name : String}
    (hname : (Location.ofText a.manifestPath).fileName? = some name)
    (hend : ¬ ".a".toList <:+ name.toList) (d : Disk) (importPath : String) :
    d.placeOf a.manifestPath ≠ d.placeOf (a.storeFile importPath) := by
  obtain ⟨above, habove⟩ := placeOf_of_fileName? d hname
  obtain ⟨above', last, hlast⟩ := placeOf_storeFile_last a d importPath
  rw [habove, hlast]
  intro heq
  obtain rfl := List.singleton_inj.1 (List.append_inj' heq rfl).2
  rw [String.toList_append] at hend
  exact hend (List.suffix_append _ _)

/-- Under a prefix that begins with a slash and has no line break, a binding can be read back from
    its line. -/
theorem bindable_storedPath {World : Type} {a : Archivist World}
    (hrooted : a.urlPrefix.toList.head? = some '/') (hline : '\n' ∉ a.urlPrefix.toList)
    (hnamed : importPath ≠ "") (hsolid : ∀ c ∈ importPath.toList, Text.isBlank c = false) :
    Manifest.Bindable importPath (a.storedPath importPath) where
  named := hnamed
  solid := hsolid
  start c hc := by
    obtain ⟨rest, hrest⟩ := List.head?_eq_some_iff.1 hrooted
    simp only [Archivist.storedPath, String.toList_append, hrest, List.cons_append,
      List.head?_cons] at hc
    obtain rfl := Option.some.inj hc
    decide
  finish := by
    refine ⟨'a', ?_, by decide⟩
    rw [Archivist.storedPath, String.toList_append, List.getLast?_append]
    rfl
  oneLine := by
    have hi : '\n' ∉ importPath.toList := fun hmem => absurd (hsolid _ hmem) (by decide)
    simp [Archivist.storedPath, String.toList_append, hline, hi]

/-! ## The store -/

/-- Archives go to a directory below a site and are served under its name, and the manifest is none
    of them. -/
structure Archivist.Placed {World : Type} (a : Archivist World) (site name : String) : Prop where
  component : Path.isComponent name = true
  oneLine : '\n' ∉ name.toList
  storeDir : a.storeDir = Location.join site name
  urlPrefix : a.urlPrefix = Archivist.defaultPrefix a.storeDir
  manifest : ∃ n, (Location.ofText a.manifestPath).fileName? = some n ∧
    ¬ ".a".toList <:+ n.toList

variable {World : Type} {a : Archivist World} {site name : String}

theorem pieces_of_isComponent (h : Path.isComponent name = true) : Path.pieces name = [name] := by
  rw [Path.pieces, Text.splitOn_of_notMem (Path.slash_notMem_of_isComponent h), List.map_singleton,
    String.ofList_toList]

theorem fileName?_join (base : String) (h : Path.isComponent name = true) :
    (Location.ofText (Location.join base name)).fileName? = some name := by
  have hpieces := pieces_of_isComponent h
  have hrooted : Location.isRooted name = false :=
    isRooted_of_pieces (by rw [hpieces]; simpa using h)
  obtain ⟨pieces, -, hjoin⟩ := pieces_join base hrooted
  have hown : Location.pieces name = [name] := hpieces
  obtain ⟨hempty, hdot, hdots⟩ := Path.plain_of_isComponent h
  have hnamed : (Location.pieces (Location.join base name)).filter
      (fun piece => piece ≠ "" ∧ piece ≠ ".") =
        pieces.filter (fun piece => piece ≠ "" ∧ piece ≠ ".") ++ [name] := by
    rw [hjoin, hown, List.filter_append, List.filter_singleton]
    simp [hempty, hdot]
  have hlast : (Location.ofText (Location.join base name)).parts.getLast? = some name := by
    rw [Location.ofText, hnamed]
    dsimp only
    split
    · rw [List.getLast?_cons, List.getLast?_concat]
      rfl
    · exact List.getLast?_concat
  rw [Location.fileName?, hlast, Option.filter_some, if_pos]
  simp [hdot, hdots]

theorem isRooted_of_isComponent {name : String} (h : Path.isComponent name = true) :
    Location.isRooted name = false :=
  isRooted_of_pieces (by rw [pieces_of_isComponent h]; simpa using h)

/-- A name that is joined to a directory is one more piece. -/
theorem piecesOf_join_name (base : String) (h : Path.isComponent name = true) :
    Disk.piecesOf (Location.join base name) = Disk.piecesOf base ++ [name] := by
  have hown : Location.pieces name = [name] := pieces_of_isComponent h
  obtain ⟨pieces, hbase, hpieces⟩ := pieces_join base (isRooted_of_isComponent h)
  rw [Disk.piecesOf, hpieces, hown, List.filter_append, hbase]
  simp [(Path.plain_of_isComponent h).1]

/-- A name that is joined to a directory leads to that name in it. -/
theorem placeOf_join_name (d : Disk) (base : String) (h : Path.isComponent name = true) :
    d.placeOf (Location.join base name) = d.placeOf base ++ [name] := by
  rw [Disk.placeOf, piecesOf_join_name base h, isRooted_join base (isRooted_of_isComponent h),
    List.foldl_append, List.foldl_cons, List.foldl_nil, advance_of_isComponent _ h]
  rfl

/-- What a base puts before a path does not depend on the path. -/
theorem join_eq (base : String) :
    ∃ above, ∀ {text : String}, Location.isRooted text = false →
      Location.join base text = above ++ text := by
  by_cases hempty : base.isEmpty = true
  · refine ⟨"", fun htext => ?_⟩
    rw [Location.join, htext, Bool.false_or, if_pos hempty, String.empty_append]
  by_cases hslash : base.toList.getLast? = some '/'
  · refine ⟨base, fun htext => ?_⟩
    rw [Location.join, htext, Bool.false_or, if_neg hempty, if_pos hslash]
  · refine ⟨base ++ "/", fun htext => ?_⟩
    rw [Location.join, htext, Bool.false_or, if_neg hempty, if_neg hslash]

/-- What is joined to a directory below a base is joined to the base. -/
theorem join_join (base : String) {below text : String} (hbelow : Path.isComponent below = true)
    (htext : Location.isRooted text = false) :
    Location.join (Location.join base below) text = Location.join base (below ++ "/" ++ text) := by
  have hne := Path.toList_ne_nil_of_isComponent hbelow
  have hslash := Path.slash_notMem_of_isComponent hbelow
  have hrooted : ∀ more : String, Location.isRooted (below ++ more) = false := by
    intro more
    obtain ⟨c, rest, hchars⟩ := List.exists_cons_of_ne_nil hne
    rw [Location.isRooted, String.toList_append, hchars, decide_eq_false_iff_not]
    intro hhead
    exact hslash (hchars ▸ Option.some.inj hhead ▸ List.mem_cons_self)
  have hown : Location.isRooted below = false := by
    have := hrooted ""
    rwa [String.append_empty] at this
  -- a directory that ends in the component is neither empty nor ended by a slash
  have hjoin : ∀ above : String,
      Location.join (above ++ below) text = above ++ below ++ "/" ++ text := by
    intro above
    have hempty : (above ++ below).isEmpty = false := by
      rw [Bool.eq_false_iff, ne_eq, String.isEmpty_iff, ← String.toList_eq_nil_iff,
        String.toList_append]
      exact List.append_ne_nil_of_right_ne_nil _ hne
    have hlast : (above ++ below).toList.getLast? ≠ some '/' := by
      rw [String.toList_append, List.getLast?_append_of_ne_nil _ hne]
      exact fun hlast => hslash (List.mem_of_getLast? hlast)
    rw [Location.join, htext, hempty, Bool.or_false, if_neg Bool.false_ne_true, if_neg hlast]
  obtain ⟨above, habove⟩ := join_eq base
  rw [habove hown, hjoin, habove (by rw [String.append_assoc]; exact hrooted _)]
  simp only [String.append_assoc]

namespace Archivist.Placed

theorem storedPath_eq (h : a.Placed site name) (importPath : String) :
    a.storedPath importPath = "/" ++ name ++ "/" ++ importPath ++ ".a" := by
  rw [Archivist.storedPath, h.urlPrefix, h.storeDir, Archivist.defaultPrefix,
    fileName?_join site h.component, Option.getD_some]

/-- The stored path is spelled by the name of the store and the parts of the file. -/
theorem storedPath_toList (h : a.Placed site name) (importPath : String) :
    (a.storedPath importPath).toList = Path.spell (name :: archiveParts importPath) := by
  rw [h.storedPath_eq, Path.spell_cons, archiveParts, Path.spell_pieces]
  simp [String.toList_append]

theorem storedPath_head (h : a.Placed site name) (importPath : String) :
    (a.storedPath importPath).toList.head? = some '/' := by
  rw [h.storedPath_toList, Path.spell_cons]
  rfl

theorem parts_proper (h : a.Placed site name) (hi : IsImportPath importPath) :
    ∀ part ∈ name :: archiveParts importPath, Path.isComponent part = true := by
  intro part hpart
  rcases List.mem_cons.1 hpart with rfl | hpart
  · exact h.component
  · exact hi.archiveParts_proper part hpart

/-- The binding of an import path can be read back from its line. -/
theorem bindable (h : a.Placed site name) (hi : IsImportPath importPath) :
    Manifest.Bindable importPath (a.storedPath importPath) := by
  have hurl : a.urlPrefix = "/" ++ name := by
    rw [h.urlPrefix, h.storeDir, Archivist.defaultPrefix, fileName?_join site h.component,
      Option.getD_some]
  refine bindable_storedPath ?_ ?_ ?_ hi.solid
  · rw [hurl, String.toList_append]
    rfl
  · rw [hurl, String.toList_append, List.mem_append, not_or]
    exact ⟨by decide, h.oneLine⟩
  · rintro rfl
    exact absurd (hi.proper "" (by decide)) (by decide)

/-- The stored path leads to the file below the name of the store. -/
theorem parse_storedPath (h : a.Placed site name) (hi : IsImportPath importPath) :
    ∃ p, Path.parse (a.storedPath importPath) = .ok p ∧ p.parts = name :: archiveParts importPath ∧
      p.trailing = false :=
  Path.parse_of_spell (List.cons_ne_nil _ _) (h.parts_proper hi) (h.storedPath_toList importPath)

/-- A path whose parts are those of the stored path is written like it. -/
theorem toString_eq (h : a.Placed site name) {p : Path}
    (hp : p.parts = name :: archiveParts importPath) : p.toString = a.storedPath importPath := by
  rw [← String.toList_inj, Path.toList_toString, hp, if_neg (List.cons_ne_nil _ _),
    h.storedPath_toList]

/-- A path below the store lies under the root that is served. -/
theorem liesUnder (h : a.Placed site name) {p : Path} (hp : [name] <+: p.parts) :
    p.liesUnder ("/" ++ name ++ "/") = true := by
  have hproper : ∀ part ∈ [name], Path.isComponent part = true := by simpa using h.component
  have hroot : "/" ++ name ++ "/" =
      (⟨[name], true, hproper, fun _ => rfl⟩ : Path).dirKey := by
    rw [← String.toList_inj, Path.toList_dirKey]
    simp [String.toList_append]
  rw [hroot, Path.liesUnder_dirKey]
  exact hp

/-- The key under which an archive is served stands for its file in the store. -/
theorem filePath?_storedPath (h : a.Placed site name) (hi : IsImportPath importPath) :
    Asset.Folder.filePath? site (a.storedPath importPath) = some (a.storeFile importPath) := by
  have hne := Path.toList_ne_nil_of_isComponent h.component
  have hslash := Path.slash_notMem_of_isComponent h.component
  have hkey : (a.storedPath importPath).toList.dropWhile (· == '/') =
      (name ++ "/" ++ (importPath ++ ".a")).toList := by
    obtain ⟨c, rest, hchars⟩ := List.exists_cons_of_ne_nil hne
    have hc : c ≠ '/' := fun heq => hslash (heq ▸ hchars ▸ List.mem_cons_self)
    rw [h.storedPath_eq]
    simp [String.toList_append, hchars, hc]
  have hpieces : Path.pieces (name ++ "/" ++ (importPath ++ ".a")) =
      name :: archiveParts importPath := by
    have hsplit : (name ++ "/" ++ (importPath ++ ".a")).toList =
        name.toList ++ '/' :: (importPath ++ ".a").toList := by
      simp [String.toList_append]
    rw [Path.pieces, hsplit, Text.splitOn_append_sep, List.map_append]
    exact congrArg (· ++ archiveParts importPath) (pieces_of_isComponent h.component)
  have hdots : ['.', '.'] ∉ Text.splitOn '/' (name ++ "/" ++ (importPath ++ ".a")).toList := by
    intro hmem
    have hpart : String.ofList ['.', '.'] ∈ name :: archiveParts importPath :=
      hpieces ▸ List.mem_map_of_mem hmem
    exact absurd (h.parts_proper hi _ hpart) (by decide)
  have hrooted : Location.isRooted (importPath ++ ".a") = false :=
    isRooted_of_pieces hi.archiveParts_proper
  rw [Asset.Folder.filePath?, hkey, if_neg, String.ofList_toList, Archivist.storeFile, h.storeDir,
    join_join site h.component hrooted]
  simp only [Bool.or_eq_true, List.contains_iff_mem, hdots, or_false, List.isEmpty_iff]
  rw [String.toList_append, String.toList_append]
  simp [hne]

/-- Below the site, the file of an archive is where its stored path is below the root. -/
theorem below_site (h : a.Placed site name) (hi : IsImportPath importPath) (d : Disk) :
    d.placeOf (a.storeFile importPath) = d.placeOf site ++ (name :: archiveParts importPath) := by
  have hpieces := pieces_of_isComponent h.component
  have hrooted : Location.isRooted name = false :=
    isRooted_of_pieces (by rw [hpieces]; simpa using h.component)
  have hname : Disk.piecesOf name = [name] := by
    have hown : Location.pieces name = [name] := hpieces
    have hne : name ≠ "" := by
      rintro rfl
      exact absurd h.component (by decide)
    rw [Disk.piecesOf, hown, List.filter_cons_of_pos (by simpa using hne), List.filter_nil]
  rw [placeOf_storeFile a d hi, h.storeDir, placeOf_join d site hrooted, hname,
    List.foldl_cons, List.foldl_nil, advance_of_isComponent _ h.component, List.append_assoc,
    List.singleton_append]

/-- The manifest is none of the files in the store. -/
theorem manifest_ne (h : a.Placed site name) (importPath : String) (d : Disk) :
    d.placeOf a.manifestPath ≠ d.placeOf (a.storeFile importPath) := by
  obtain ⟨n, hname, hn⟩ := h.manifest
  exact placeOf_manifest_ne hname hn d importPath

/-- The files of two import paths are apart. -/
theorem storeFile_ne {i j : String} (hi : IsImportPath i) (hj : IsImportPath j) (hne : i ≠ j)
    (a : Archivist World) (d : Disk) :
    d.placeOf (a.storeFile i) ≠ d.placeOf (a.storeFile j) := by
  rw [placeOf_storeFile a d hi, placeOf_storeFile a d hj]
  exact fun heq => hne (archiveParts_inj (List.append_cancel_left heq))

end Archivist.Placed

end Package

end Workbench
