import Mathlib.Data.List.Flatten
import Workbench.Proofs.HostPaths

set_option autoImplicit false

/-! # Files that can be put in place

Making the directories above a path can be refused for one reason only, as long as the system takes
the path: a file is on the way. For each request that is refused since something is missing makes
the directory above first, and whatever is missing there is made in the same manner. Where no file
is on the way and no directory at its end, a file can be put in place. -/

namespace Workbench.Host

/-- Characters that are left out make a text no longer. -/
theorem utf8ByteSize_le_of_sublist {short long : List Char} (h : short.Sublist long) :
    (String.ofList short).utf8ByteSize ≤ (String.ofList long).utf8ByteSize := by
  induction h with
  | slnil => exact le_refl _
  | cons c _ ih =>
    rw [String.ofList_cons (c := c), String.utf8ByteSize_append]
    omega
  | cons_cons c _ ih =>
    rw [String.ofList_cons, String.ofList_cons, String.utf8ByteSize_append,
      String.utf8ByteSize_append]
    omega

namespace Disk

/-- The system takes a path: it is not too long and neither are its names, and no null is in it. -/
structure Fits (text : String) : Prop where
  clean : '\x00' ∉ text.toList
  short : text.utf8ByteSize < maxPath
  names : ∀ piece ∈ Location.pieces text, piece.utf8ByteSize ≤ maxName

/-- There is no file at a path or on its way. -/
def Open (d : Disk) (text : String) : Prop :=
  ∀ place, d.OnWay text place → ∀ data, d.shapeAt place ≠ some (.file data)

variable {d d' : Disk} {text : String}

theorem checkName_of_fits (h : Fits text) {piece : String} (hpiece : piece ∈ Location.pieces text) :
    checkName piece = .ok () := by
  rw [checkName, if_neg (Nat.not_lt.2 (h.names piece hpiece))]

theorem Open.paved (h : d.Open text) (hpaved : Paved d d') : d'.Open text := by
  intro place hplace data hfile
  refine h place ?_ data (hpaved.file hfile)
  rwa [OnWay, startOf, hpaved.cwd, ← startOf, ← OnWay] at hplace

/-! ## The first components of a path -/

/-- The path of the first components of a path. -/
def firstOf (text : String) (n : Nat) : Location :=
  { Location.ofText text with parts := (Location.ofText text).parts.take n }

/-- The pieces of a path that is put together are its components, after an empty one for the slash
    at its start. -/
theorem pieces_toText {l : Location} (hne : l.parts ≠ [])
    (hparts : ∀ part ∈ l.parts, '/' ∉ part.toList) :
    Location.pieces l.toText = if l.isAbsolute then "" :: l.parts else l.parts := by
  have hown := Location.pieces_intercalate hne hparts
  rw [Location.toText]
  cases l.isAbsolute with
  | true =>
    have hslash : ("/" ++ "/".intercalate l.parts).toList =
        [] ++ '/' :: ("/".intercalate l.parts).toList := by
      rw [String.toList_append]
      rfl
    rw [if_pos rfl, if_pos rfl, Location.pieces_of_append hslash, hown]
    rfl
  | false => rw [if_neg Bool.false_ne_true, if_neg Bool.false_ne_true, String.empty_append, hown]

theorem piecesOf_toText {l : Location} (hparts : ∀ part ∈ l.parts, part ≠ "" ∧ '/' ∉ part.toList) :
    piecesOf l.toText = l.parts := by
  have hfilter : l.parts.filter (· ≠ "") = l.parts :=
    List.filter_eq_self.2 fun part hpart => decide_eq_true (hparts part hpart).1
  by_cases hnil : l.parts = []
  · rw [piecesOf, Location.toText, hnil]
    cases l.isAbsolute <;> rfl
  · rw [piecesOf, pieces_toText hnil fun part hpart => (hparts part hpart).2]
    cases l.isAbsolute with
    | true => rw [if_pos rfl, List.filter_cons_of_neg (by simp), hfilter]
    | false => rw [if_neg Bool.false_ne_true, hfilter]

theorem proper_of_mem_firstOf {n : Nat} {part : String} (h : part ∈ (firstOf text n).parts) :
    part ≠ "" ∧ '/' ∉ part.toList :=
  proper_of_mem_ofText (List.mem_of_mem_take h)

theorem piecesOf_firstOf (text : String) (n : Nat) :
    piecesOf (firstOf text n).toText = (Location.ofText text).parts.take n :=
  piecesOf_toText fun _ => proper_of_mem_firstOf

theorem isRooted_firstOf (text : String) (n : Nat) :
    Location.isRooted (firstOf text n).toText = Location.isRooted text :=
  (along_take text n).rooted

theorem startOf_firstOf (d : Disk) (text : String) (n : Nat) :
    d.startOf (firstOf text n).toText = d.startOf text := by
  rw [startOf, startOf, isRooted_firstOf]

theorem Open.firstOf (h : d.Open text) (n : Nat) : d.Open (firstOf text n).toText :=
  fun place hplace => h place (hplace.along (along_take text n))

/-- The components of a path are pieces of it, in their order. -/
theorem ofText_parts_sublist (text : String) :
    (Location.ofText text).parts.Sublist (Location.pieces text) := by
  rw [Location.ofText]
  dsimp only
  split
  · next hhead =>
    obtain ⟨rest, hrest⟩ := List.head?_eq_some_iff.1 hhead
    rw [hrest, List.filter_cons_of_neg (by simp)]
    exact List.filter_sublist.cons_cons "."
  · exact List.filter_sublist

/-- The characters of a path that is put together from pieces of a text are in the text, in their
    order. -/
theorem toList_toText_sublist {l : Location} (hrooted : l.isAbsolute = Location.isRooted text)
    (hparts : l.parts.Sublist (Location.pieces text)) (hempty : "" ∉ l.parts) :
    l.toText.toList.Sublist text.toList := by
  have hspell {parts pieces : List String} (h : parts.Sublist pieces) :
      (Path.spell parts).Sublist (Path.spell pieces) :=
    h.flatMap fun part => '/' :: part.toList
  have hjoined : l.parts ≠ [] → '/' :: ("/".intercalate l.parts).toList = Path.spell l.parts := by
    rw [String.toList_intercalate]
    exact Path.slash_intercalate
  rw [Location.toText]
  cases habsolute : l.isAbsolute with
  | true =>
    -- before the first slash is an empty piece, which is no component
    obtain ⟨chars, hchars⟩ : ∃ chars, text.toList = '/' :: chars :=
      List.head?_eq_some_iff.1 (of_decide_eq_true (hrooted.symm.trans habsolute))
    have hsplit : text.toList = [] ++ '/' :: (String.ofList chars).toList := by
      rw [hchars, List.nil_append, String.toList_ofList]
    have hpieces : Location.pieces text = "" :: Location.pieces (String.ofList chars) :=
      Location.pieces_of_append hsplit
    have hrest : l.parts.Sublist (Location.pieces (String.ofList chars)) := by
      rw [hpieces] at hparts
      rcases List.sublist_cons_iff.1 hparts with hrest | ⟨parts, hparts', -⟩
      · exact hrest
      · exact absurd (hparts' ▸ List.mem_cons_self) hempty
    have hwhole : Path.spell (Location.pieces (String.ofList chars)) = text.toList := by
      refine (Path.spell_pieces (String.ofList chars)).trans ?_
      rw [String.toList_ofList, hchars]
    rw [if_pos rfl, String.toList_append]
    by_cases hnil : l.parts = []
    · rw [hnil, hchars]
      exact (List.nil_sublist chars).cons_cons '/'
    · have hslash : "/".toList ++ ("/".intercalate l.parts).toList = Path.spell l.parts :=
        hjoined hnil
      rw [hslash, ← hwhole]
      exact hspell hrest
  | false =>
    rw [if_neg Bool.false_ne_true, String.empty_append]
    by_cases hnil : l.parts = []
    · rw [hnil]
      exact List.nil_sublist _
    · have hchars := hspell hparts
      rw [← hjoined hnil] at hchars
      exact List.cons_sublist_cons.1 ((Path.spell_pieces text) ▸ hchars)

/-- What the system takes it takes the beginning of. -/
theorem Fits.firstOf (h : Fits text) (n : Nat) : Fits (firstOf text n).toText := by
  have hparts : (Disk.firstOf text n).parts.Sublist (Location.pieces text) :=
    (List.take_sublist n _).trans (ofText_parts_sublist text)
  have hchars := toList_toText_sublist (l := Disk.firstOf text n) rfl hparts
    fun hmem => (proper_of_mem_firstOf hmem).1 rfl
  refine ⟨fun hnul => h.clean (hchars.subset hnul), ?_, fun piece hpiece => ?_⟩
  · have hsize := utf8ByteSize_le_of_sublist hchars
    rw [String.ofList_toList, String.ofList_toList] at hsize
    exact hsize.trans_lt h.short
  · by_cases hempty : piece = ""
    · rw [hempty]
      exact Nat.zero_le _
    · have hmem : piece ∈ piecesOf (Disk.firstOf text n).toText :=
        List.mem_filter.2 ⟨hpiece, decide_eq_true hempty⟩
      rw [piecesOf_firstOf] at hmem
      exact h.names piece (hparts.subset hmem)

/-- Components of which no dot is one but at the start of a relative path are those of the path that
    they are put together to. -/
theorem ofText_toText {l : Location} (hparts : ∀ part ∈ l.parts, part ≠ "" ∧ '/' ∉ part.toList)
    (hdot : "." ∉ l.parts ∨ l.isAbsolute = false ∧ ∃ rest, l.parts = "." :: rest ∧ "." ∉ rest) :
    Location.ofText l.toText = l := by
  have hrooted := (wayOf_toText hparts).2
  have hnamed {parts : List String} (h : "." ∉ parts) : parts.filter (· ≠ ".") = parts :=
    List.filter_eq_self.2 fun part hpart => decide_eq_true fun heq => h (heq ▸ hpart)
  have hway : (Location.pieces l.toText).filter (fun piece => piece ≠ "" ∧ piece ≠ ".") =
      l.parts.filter (· ≠ ".") := (wayOf_toText hparts).1
  have hhead : (Location.pieces l.toText).head? = some "." ↔
      l.isAbsolute = false ∧ l.parts.head? = some "." := by
    by_cases hnil : l.parts = []
    · rw [Location.toText, hnil]
      cases l.isAbsolute <;> decide
    · rw [pieces_toText hnil fun part hpart => (hparts part hpart).2]
      cases l.isAbsolute <;> simp
  rw [Location.ofText, hrooted, hway]
  obtain ⟨isAbsolute, parts⟩ := l
  dsimp only at hdot hhead ⊢
  rcases hdot with hnone | ⟨rfl, rest, rfl, hrest⟩
  · rw [if_neg fun h => hnone (List.mem_of_mem_head? (hhead.1 h).2), hnamed hnone]
  · rw [if_pos (hhead.2 ⟨rfl, rfl⟩), List.filter_cons_of_neg (by simp), hnamed hrest]

/-- The beginning of a path has the first components of it. -/
theorem ofText_firstOf (text : String) (n : Nat) :
    Location.ofText (firstOf text n).toText = firstOf text n := by
  refine ofText_toText (fun _ => proper_of_mem_firstOf) ?_
  have hway : ∀ m, "." ∉ (wayOf text).take m := fun m hmem =>
    (of_decide_eq_true (List.mem_filter.1 (List.mem_of_mem_take hmem)).2).2 rfl
  unfold firstOf Location.ofText
  dsimp only
  split
  · next hhead =>
    -- a path with a dot at its start has no slash there
    have hrooted : Location.isRooted text = false := by
      rw [Bool.eq_false_iff]
      intro hslash
      obtain ⟨chars, hchars⟩ := List.head?_eq_some_iff.1 (of_decide_eq_true hslash)
      rw [Location.pieces, hchars, Text.splitOn_cons_sep, List.map_cons, List.head?_cons] at hhead
      exact absurd hhead (by decide)
    cases n with
    | zero => exact Or.inl List.not_mem_nil
    | succ n => exact Or.inr ⟨hrooted, _, List.take_succ_cons, hway n⟩
  · exact Or.inl (hway n)

/-! ## Walking -/

/-- Where no file is, only something that is missing stops a walk. -/
theorem enter_or {dir : List String} {piece : String} (hname : checkName piece = .ok ())
    (hopen : ∀ data, d.shapeAt (advance dir piece) ≠ some (.file data)) :
    d.enter dir piece = .ok (advance dir piece) ∨ d.enter dir piece = refuse .noEntry := by
  unfold enter advance at *
  split_ifs at hopen ⊢ with hhere habove
  · exact Or.inl rfl
  · exact Or.inl rfl
  · rw [hname]
    unfold shapeAt at hopen
    rcases hnode : d.tree.get? (dir ++ [piece]) with - | (⟨data, mode⟩ | ⟨children, mode⟩)
    · exact Or.inr rfl
    · exact absurd (by rw [hnode]; rfl) (hopen data)
    · exact Or.inl rfl

theorem foldlM_enter_or {pieces dir : List String}
    (hnames : ∀ piece ∈ pieces, checkName piece = .ok ())
    (hopen : ∀ first, first <+: pieces → ∀ data,
      d.shapeAt (first.foldl advance dir) ≠ some (.file data)) :
    (∃ dir', pieces.foldlM d.enter dir = .ok dir') ∨
      pieces.foldlM d.enter dir = refuse .noEntry := by
  induction pieces generalizing dir with
  | nil => exact Or.inl ⟨dir, rfl⟩
  | cons piece pieces ih =>
    rw [List.foldlM_cons]
    have hnext := hopen [piece] (List.cons_prefix_cons.2 ⟨rfl, List.nil_prefix⟩)
    rcases enter_or (hnames piece List.mem_cons_self) hnext with hthere | hmissing
    · rw [hthere]
      exact ih (fun other hother => hnames other (List.mem_cons_of_mem piece hother))
        fun first hfirst => hopen (piece :: first) (List.cons_prefix_cons.2 ⟨rfl, hfirst⟩)
    · rw [hmissing]
      exact Or.inr rfl

/-- Some pieces of a path lead to a place on its way. -/
theorem onWay_of_prefix (d : Disk) {first : List String} (h : first <+: piecesOf text) :
    d.OnWay text (first.foldl advance (d.startOf text)) := by
  refine ⟨first.filter (· ≠ "."), wayOf_eq text ▸ h.filter _, ?_⟩
  generalize d.startOf text = dir
  clear h
  induction first generalizing dir with
  | nil => rfl
  | cons piece first ih =>
    by_cases hdot : piece = "."
    · rw [List.filter_cons_of_neg (by simp [hdot]), List.foldl_cons, hdot, advance, if_pos rfl]
      exact ih dir
    · rw [List.filter_cons_of_pos (by simp [hdot])]
      exact ih (advance dir piece)

/-- A path that the system takes is no reason to refuse a walk. -/
theorem Fits.legal (h : Fits text) (hne : text ≠ "") : text.toList.contains '\x00' = false ∧
    text.isEmpty = false ∧ text.utf8ByteSize < maxPath :=
  ⟨by simpa using h.clean, Bool.eq_false_iff.2 (mt String.isEmpty_iff.1 hne), h.short⟩

/-- A path of slashes alone is walked at once. -/
theorem walk_of_no_pieces (h : Fits text) (hne : text ≠ "") (hnil : piecesOf text = []) :
    d.walk text = .ok ⟨[], .root, true⟩ :=
  walk_eq_ok_iff.2 ⟨h.legal hne, .root hnil⟩

/-- A path that the system takes is walked to its last piece, if its other pieces can be gone. -/
theorem walk_of_fits (h : Fits text) (hne : text ≠ "") {init : List String} {last : String}
    (hpieces : piecesOf text = init ++ [last]) :
    (∀ dir, init.foldlM d.enter (d.startOf text) = .ok dir → ∃ s, d.walk text = .ok s) ∧
      ∀ e, init.foldlM d.enter (d.startOf text) = .error e → d.walk text = .error e := by
  have hlegal := h.legal hne
  refine ⟨fun dir hdir => ⟨_, walk_eq_ok_iff.2 ⟨hlegal, .last hpieces hdir⟩⟩, fun e hdir => ?_⟩
  have hlast : ((Location.pieces text).filter (· ≠ "")).getLast? = some last := by
    rw [← piecesOf, hpieces, List.getLast?_concat]
  have hinit : ((Location.pieces text).filter (· ≠ "")).dropLast = init := by
    rw [← piecesOf, hpieces, List.dropLast_concat]
  rw [startOf] at hdir
  unfold walk
  rw [if_neg (Bool.eq_false_iff.1 hlegal.1), if_neg (Bool.eq_false_iff.1 hlegal.2.1),
    if_neg (Nat.not_le.2 hlegal.2.2)]
  simp only [hlast, hinit, hdir]
  rfl

/-- Where no file is on its way, a path is walked to its end unless something is missing. -/
theorem walk_or (h : Fits text) (hne : text ≠ "") (hopen : d.Open text) :
    (∃ s, d.walk text = .ok s) ∨ d.walk text = refuse .noEntry := by
  rcases List.eq_nil_or_concat (piecesOf text) with hnil | ⟨init, last, hpieces⟩
  · exact Or.inl ⟨_, walk_of_no_pieces h hne hnil⟩
  · rw [List.concat_eq_append] at hpieces
    have hnames : ∀ piece ∈ init, checkName piece = .ok () := by
      intro piece hpiece
      have hmem : piece ∈ piecesOf text := hpieces ▸ List.mem_append_left _ hpiece
      exact checkName_of_fits h (List.mem_of_mem_filter hmem)
    have hway : ∀ first, first <+: init → ∀ data,
        d.shapeAt (first.foldl advance (d.startOf text)) ≠ some (.file data) := by
      intro first hfirst
      refine hopen _ (d.onWay_of_prefix ?_)
      rw [hpieces]
      exact hfirst.trans (List.prefix_append _ _)
    obtain ⟨hwalks, hstops⟩ := walk_of_fits (d := d) h hne hpieces
    rcases foldlM_enter_or hnames hway with ⟨dir, hdir⟩ | hmissing
    · exact Or.inl (hwalks dir hdir)
    · exact Or.inr (hstops _ hmissing)

/-! ## Making directories -/

/-- No name in a path that the system takes is too long. -/
theorem allowed_of_fits (h : Fits text) {s : Spot} (hwalk : d.walk text = .ok s) : Allowed s := by
  intro n hlast
  rcases (walk_eq_ok_iff.1 hwalk).2 with hnil | ⟨hpieces, -⟩
  · cases hlast
  · rename_i init dir piece
    have hpiece : piece = n := by
      dsimp only at hlast
      split_ifs at hlast
      exact Last.name.inj hlast
    have hmem : n ∈ piecesOf text := by
      rw [hpieces, hpiece]
      exact List.mem_append_right _ (List.mem_singleton_self n)
    exact checkName_of_fits h (List.mem_of_mem_filter hmem)

/-- At the end of a walk a directory is made or there already, if there is no file. -/
theorem makeDir_of_walk (hd : d.Grounded) {s : Spot} (hwalk : d.walk text = .ok s)
    (hallowed : Allowed s) (hfile : ∀ data, d.shapeAt s.parts ≠ some (.file data)) :
    (∃ d', d.makeDir text = .ok d' ∧ d'.isDir text = true) ∨
      d.makeDir text = refuse .fileExists ∧ d.isDir text = true := by
  have hthere (hshape : d.shapeAt s.parts = some .dir) : d.isDir text = true :=
    isDir_eq_true_iff.2 ⟨s, hwalk, hallowed, hshape⟩
  have hdir := walk_dir hd hwalk
  cases hlast : s.last with
  | name n =>
    have hnamed : d.named text (fun _ => .fileExists) = .ok (s, n) := by
      simp only [named, hwalk, hlast, hallowed n hlast, bind, Except.bind, pure, Except.pure]
    have hmake : d.makeDir text = if (d.node? s).isSome then refuse .fileExists else
        .ok (d.put s.parts (.dir [] dirMode)) := by
      simp only [makeDir, hnamed, bind, Except.bind, pure, Except.pure]
      cases (d.node? s).isSome <;> rfl
    cases hnode : d.node? s with
    | none =>
      rw [hnode, Option.isSome_none, if_neg Bool.false_ne_true] at hmake
      obtain ⟨hpaved, -, hmade⟩ := makeDir_eq_ok hd hmake
      rw [← walk_parts hwalk] at hmade
      refine Or.inl ⟨_, hmake, isDir_eq_true_iff.2 ⟨s, ?_, hallowed, hmade⟩⟩
      exact walk_of_dirs hpaved.cwd (fun _ => hpaved.kept) hwalk
    | some node =>
      rw [hnode, Option.isSome_some, if_pos rfl] at hmake
      refine Or.inr ⟨hmake, hthere ?_⟩
      rw [shapeAt_parts, hnode] at hfile ⊢
      cases node with
      | file data mode => exact absurd rfl (hfile data)
      | dir children mode => rfl
  | here | root =>
    refine Or.inr ⟨?_, hthere (by rwa [Spot.parts, hlast])⟩
    simp only [makeDir, named, hwalk, hlast, bind, Except.bind, refuse]
  | above =>
    refine Or.inr ⟨?_, hthere (by rw [Spot.parts, hlast]; exact shapeAt_dropLast hdir)⟩
    simp only [makeDir, named, hwalk, hlast, bind, Except.bind, refuse]

/-- A directory that is there is not made again. -/
theorem makeDir_of_isDir (hd : d.Grounded) (h : d.isDir text = true) :
    d.makeDir text = refuse .fileExists := by
  obtain ⟨s, hwalk, hallowed, hshape⟩ := isDir_eq_true_iff.1 h
  rcases makeDir_of_walk hd hwalk hallowed (by rw [hshape]; nofun) with ⟨d', hmade, -⟩ | ⟨hrefused, -⟩
  · obtain ⟨s', n, hwalk', hlast, -, hnone, -⟩ := makeDir_cases hmade
    cases hwalk.symm.trans hwalk'
    rw [Spot.parts, hlast, hnone] at hshape
    cases hshape
  · exact hrefused

/-- Where no file is on its way, a directory is made or there already, unless something above it is
    missing. -/
theorem makeDir_or (hd : d.Grounded) (h : Fits text) (hne : text ≠ "") (hopen : d.Open text) :
    (∃ d', d.makeDir text = .ok d' ∧ d'.isDir text = true) ∨
      (d.makeDir text = refuse .fileExists ∧ d.isDir text = true) ∨
      (d.makeDir text = refuse .noEntry ∧ ∀ s, d.walk text ≠ .ok s) := by
  rcases walk_or h hne hopen with ⟨s, hwalk⟩ | hmissing
  · have hway : d.OnWay text s.parts := walk_parts hwalk ▸ d.onWay_placeOf text
    exact (makeDir_of_walk hd hwalk (allowed_of_fits h hwalk) (hopen _ hway)).imp_right Or.inl
  · refine Or.inr (Or.inr ⟨?_, fun s hwalk => ?_⟩)
    · rw [makeDir, named, hmissing]
      rfl
    · rw [hmissing] at hwalk
      cases hwalk

/-! ## Writing -/

/-- Dots lead nowhere. -/
theorem foldlM_enter_filter (d : Disk) (pieces dir : List String) :
    (pieces.filter (· ≠ ".")).foldlM d.enter dir = pieces.foldlM d.enter dir := by
  induction pieces generalizing dir with
  | nil => rfl
  | cons piece pieces ih =>
    by_cases hdot : piece = "."
    · have hstay : d.enter dir piece = .ok dir := by rw [enter, if_pos hdot]
      rw [List.filter_cons_of_neg (by simp [hdot]), List.foldlM_cons, hstay]
      exact ih dir
    · rw [List.filter_cons_of_pos (by simp [hdot]), List.foldlM_cons, List.foldlM_cons]
      exact bind_congr ih

/-- But for dots the components before a name are the pieces before it. -/
theorem filter_dropLast_parts {init : List String} {name : String}
    (hpieces : piecesOf text = init ++ [name]) (hdot : name ≠ ".") :
    (Location.ofText text).parts.dropLast.filter (· ≠ ".") = init.filter (· ≠ ".") := by
  have hway : wayOf text = init.filter (· ≠ ".") ++ [name] := by
    rw [wayOf_eq, hpieces, List.filter_append, List.filter_cons_of_pos (by simpa using hdot),
      List.filter_nil]
  generalize init.filter (· ≠ ".") = above at hway
  have hplain := filter_wayOf text
  rw [hway, List.filter_append, List.filter_cons_of_pos (by simpa using hdot),
    List.filter_nil] at hplain
  have habove := List.append_cancel_right hplain
  rcases ofText_parts text with hparts | hparts
  · rw [hparts, hway, List.dropLast_concat, habove]
  · rw [hparts, hway, ← List.cons_append, List.dropLast_concat,
      List.filter_cons_of_neg (by simp), habove]

/-- A path that ends in a name is walked to that name, if the components before it can be gone. -/
theorem walk_name (h : Fits text) {init dir : List String} {name : String}
    (hpieces : Location.pieces text = init ++ [name]) (hname : Path.isComponent name = true)
    (hdir : (Location.ofText text).parts.dropLast.foldlM d.enter (d.startOf text) = .ok dir) :
    ∃ s, d.walk text = .ok s ∧ s.last = .name name ∧ s.slash = false := by
  obtain ⟨hempty, hdot, hdots⟩ := Path.plain_of_isComponent hname
  have hne : text ≠ "" := by
    rintro rfl
    have hnothing : init ++ [name] = [] ++ [""] := hpieces.symm
    exact hempty (List.singleton_inj.1 (List.append_inj' hnothing rfl).2)
  have hslash : text.toList.getLast? ≠ some '/' := by
    intro hend
    obtain ⟨chars, hchars⟩ := List.getLast?_eq_some_iff.1 hend
    have hnothing : text.toList = chars ++ '/' :: "".toList := hchars
    rw [Location.pieces_of_append hnothing] at hpieces
    exact hempty (List.singleton_inj.1 (List.append_inj' hpieces rfl).2).symm
  have hlong : piecesOf text = init.filter (· ≠ "") ++ [name] := by
    rw [piecesOf, hpieces, List.filter_append, List.filter_cons_of_pos (by simpa using hempty),
      List.filter_nil]
  have hinit : (init.filter (· ≠ "")).foldlM d.enter (d.startOf text) = .ok dir := by
    rw [← foldlM_enter_filter, ← filter_dropLast_parts hlong hdot, foldlM_enter_filter, hdir]
  refine ⟨_, walk_eq_ok_iff.2 ⟨h.legal hne, .last hlong hinit⟩, ?_, decide_eq_false hslash⟩
  dsimp only
  rw [if_neg hdot, if_neg hdots]

/-- A file can be written at the end of a walk, if there is no directory. -/
theorem alter_ok {s : Spot} {n : String} (hwalk : d.walk text = .ok s) (hlast : s.last = .name n)
    (hslash : s.slash = false) (hname : checkName n = .ok ())
    (hfree : d.shapeAt s.parts ≠ some .dir) (mode : Nat) (f : ByteArray → ByteArray) :
    ∃ d', d.alter text mode f = .ok d' := by
  have hopened : ∃ data mode', d.openFile text mode = .ok (s.parts, data, mode') := by
    rw [shapeAt_parts] at hfree
    rcases hnode : d.node? s with - | (⟨data, mode'⟩ | ⟨children, mode'⟩)
    · refine ⟨.empty, mode, ?_⟩
      simp only [openFile, hwalk, hlast, hslash, hname, hnode, bind, Except.bind, pure, Except.pure,
        Bool.false_eq_true, if_false]
    · refine ⟨data, mode', ?_⟩
      simp only [openFile, hwalk, hlast, hslash, hname, hnode, bind, Except.bind, pure, Except.pure,
        Bool.false_eq_true, if_false]
    · exact absurd (by rw [hnode]; rfl) hfree
  obtain ⟨data, mode', hopened⟩ := hopened
  exact ⟨d.put s.parts (.file (f data) mode'), by
    simp only [alter, hopened, bind, Except.bind, pure, Except.pure]⟩

end Disk

namespace Job

open Disk

variable {d d' : Disk} {text : String}

theorem yields_change {request : Disk → Except Error Disk} {d' : Disk} (h : request d = .ok d') :
    Yields (change request) d () d' := by
  rcases resultOf_change request d with ⟨d₁, hmade, hresult⟩ | ⟨e, hrefused, -⟩
  · cases hmade.symm.trans h
    exact hresult
  · cases hrefused.symm.trans h

theorem fails_change {request : Disk → Except Error Disk} {e : Error} (h : request d = .error e) :
    Fails (change request) d e d := by
  rcases resultOf_change request d with ⟨d₁, hmade, -⟩ | ⟨e, hrefused, hresult⟩
  · cases hmade.symm.trans h
  · cases hrefused.symm.trans h
    exact hresult

/-- A refusal to make what is there already is no failure. -/
theorem yields_settle (e : Error) (hdir : d.isDir text = true) :
    Yields (do if (← get).isDir text then return else throw e : Job Unit) d () d := by
  have hget : Yields (get : Job Disk) d d d := rfl
  refine yields_bind_iff.2 ⟨d, d, hget, ?_⟩
  rw [if_pos hdir]
  exact yields_pure_iff.2 ⟨rfl, rfl⟩

/-- Where a directory is already, nothing is made. -/
theorem makeOne_of_isDir (hd : d.Grounded) (h : d.isDir text = true) (makeParent : Job Unit) :
    Yields (makeOne text makeParent) d () d := by
  have hget : Yields (get : Job Disk) d d d := rfl
  unfold makeOne
  refine yields_bind_iff.2 ⟨d, d, hget, ?_⟩
  rw [makeDir_of_isDir hd h]
  exact yields_settle _ h

theorem makeDirs_of_isDir (hd : d.Grounded) (h : d.isDir text = true) :
    Yields (makeDirs text) d () d := by
  unfold makeDirs
  dsimp only
  split_ifs
  · exact yields_pure_iff.2 ⟨rfl, rfl⟩
  · exact makeOne_of_isDir hd h _
  · exact makeOne_of_isDir hd h _

/-- A directory can be made where no file is on its way, if what is missing above it can be. -/
theorem makeOne_ok (hd : d.Grounded) (h : Fits text) (hne : text ≠ "") (hopen : d.Open text)
    {makeParent : Job Unit} (hparent : (∀ s, d.walk text ≠ .ok s) →
      ∃ d₁, Yields makeParent d () d₁ ∧ Paved d d₁ ∧ ∃ s, d₁.walk text = .ok s) :
    ∃ d', Yields (makeOne text makeParent) d () d' ∧ d'.isDir text = true := by
  have hget : Yields (get : Job Disk) d d d := rfl
  unfold makeOne
  dsimp only
  rcases makeDir_or hd h hne hopen with ⟨d', hmade, hdir⟩ | ⟨hrefused, hdir⟩ | ⟨hmissing, hstops⟩
  · refine ⟨d', yields_bind_iff.2 ⟨d, d, hget, ?_⟩, hdir⟩
    rw [hmade]
    exact yields_set_iff.2 rfl
  · refine ⟨d, yields_bind_iff.2 ⟨d, d, hget, ?_⟩, hdir⟩
    rw [hrefused]
    exact yields_settle _ hdir
  · -- it is asked for again once there is a directory above it
    obtain ⟨d₁, hyields, hpaved, s, hwalk⟩ := hparent hstops
    obtain ⟨d', hagain, hdir⟩ : ∃ d', Yields (tryCatch (change (·.makeDir text)) fun e => do
        if (← get).isDir text then return else throw e) d₁ () d' ∧ d'.isDir text = true := by
      have hd₁ := hpaved.grown.grounded hd
      rcases makeDir_or hd₁ h hne (hopen.paved hpaved) with
        ⟨d', hmade, hdir⟩ | ⟨hrefused, hdir⟩ | ⟨-, hstops⟩
      · exact ⟨d', yields_tryCatch_iff.2 (Or.inl (yields_change hmade)), hdir⟩
      · exact ⟨d₁, yields_tryCatch_iff.2 (Or.inr ⟨_, d₁, fails_change hrefused, yields_settle _ hdir⟩),
          hdir⟩
      · exact absurd hwalk (hstops s)
    refine ⟨d', yields_bind_iff.2 ⟨d, d, hget, ?_⟩, hdir⟩
    rw [hmissing]
    exact yields_bind_iff.2 ⟨(), d₁, hyields, hagain⟩

/-- Where no file is on its way, the first components of a path are made into directories. -/
theorem makeUpTo_ok (hd : d.Grounded) (h : Fits text) (hopen : d.Open text) {n : Nat}
    (hn : n ≤ (Location.ofText text).parts.length) :
    ∃ d', Yields (makeUpTo (Location.ofText text) n) d () d' ∧
      ∃ dir, ((Location.ofText text).parts.take n).foldlM d'.enter (d'.startOf text) = .ok dir := by
  induction n with
  | zero => exact ⟨d, yields_pure_iff.2 ⟨rfl, rfl⟩, _, rfl⟩
  | succ n ih =>
    obtain ⟨d₁, hyields, dir, hdir⟩ := ih (by omega)
    have hpieces := piecesOf_firstOf text (n + 1)
    have hsplit : (Location.ofText text).parts.take (n + 1) =
        (Location.ofText text).parts.take n ++ [(Location.ofText text).parts[n]] :=
      List.take_succ_eq_append_getElem hn
    have hne : (firstOf text (n + 1)).toText ≠ "" := by
      intro hempty
      have hnothing : piecesOf (firstOf text (n + 1)).toText = [] := by rw [hempty]; rfl
      rw [hpieces, hsplit] at hnothing
      exact List.append_ne_nil_of_right_ne_nil _ (List.cons_ne_nil _ _) hnothing
    have hpaved : Paved d d₁ := by
      have hleads := paves_makeUpTo (Location.ofText text) n d hd
      rwa [show resultOf _ d = (.ok (), d₁) from hyields] at hleads
    obtain ⟨d', hmade, hthere⟩ := makeOne_ok hd (h.firstOf (n + 1)) hne (hopen.firstOf (n + 1))
      fun _ => ⟨d₁, hyields, hpaved, (walk_of_fits (h.firstOf (n + 1)) hne
        (hpieces.trans hsplit)).1 dir (by rw [startOf_firstOf]; exact hdir)⟩
    refine ⟨d', hmade, ?_⟩
    have hgone := exists_foldlM_of_isDir hthere
    rwa [hpieces, startOf_firstOf] at hgone

/-- A directory is made with those above it where no file is on its way. -/
theorem makeDirs_ok (hd : d.Grounded) (h : Fits text) (hopen : d.Open text)
    (hplain : (Location.ofText text).toText = text) :
    ∃ d', Yields (makeDirs text) d () d' ∧
      ∃ dir, (Location.ofText text).parts.foldlM d'.enter (d'.startOf text) = .ok dir := by
  have hpieces : piecesOf text = (Location.ofText text).parts := by
    have hown := piecesOf_toText (l := Location.ofText text) fun _ => proper_of_mem_ofText
    rwa [hplain] at hown
  unfold makeDirs
  dsimp only
  split_ifs with hparts hempty
  · rw [List.isEmpty_iff.1 hparts]
    exact ⟨d, yields_pure_iff.2 ⟨rfl, rfl⟩, _, rfl⟩
  · have hne : text ≠ "" := mt String.isEmpty_iff.2 hempty
    have hnil := List.isEmpty_iff.1 hparts
    have hone : ∃ d', Yields (makeOne text (throw (Error.system .noEntry))) d () d' ∧
        d'.isDir text = true := makeOne_ok hd h hne hopen fun hstops =>
      absurd (walk_of_no_pieces h hne (hpieces.trans hnil)) (hstops _)
    obtain ⟨d', hmade, -⟩ := hone
    rw [hnil]
    exact ⟨d', hmade, _, rfl⟩
  · obtain ⟨n, hn⟩ : ∃ n, (Location.ofText text).parts.length = n + 1 :=
      Nat.exists_eq_succ_of_ne_zero fun hzero =>
        hparts (List.isEmpty_iff.2 (List.length_eq_zero_iff.1 hzero))
    have hall : (Location.ofText text).parts.take (n + 1) = (Location.ofText text).parts := by
      rw [← hn, List.take_length]
    obtain ⟨d', hmade, hgone⟩ := makeUpTo_ok hd h hopen (le_refl _)
    rw [hn, hall] at hgone
    rw [hn] at hmade ⊢
    rw [makeUpTo, hall, hplain] at hmade
    exact ⟨d', hmade, hgone⟩

/-- The directories above a path are made where no file is on the way to them. -/
theorem makeParents_ok (hd : d.Grounded) (h : Fits text) {parent : String}
    (hparent : Location.parentText? text = some parent) (hopen : d.Open parent) :
    ∃ d', Yields (makeParents text) d () d' ∧ PavedOn parent d d' ∧
      ∃ dir, (Location.ofText text).parts.dropLast.foldlM d'.enter (d'.startOf text) = .ok dir := by
  obtain ⟨l, hl, rfl⟩ := Option.map_eq_some_iff.1 hparent
  obtain rfl : firstOf text ((Location.ofText text).parts.length - 1) = l := by
    rw [Location.parent?] at hl
    split at hl
    · cases hl
    · rw [firstOf, ← List.dropLast_eq_take]
      exact Option.some.inj hl
  have hown := ofText_firstOf text ((Location.ofText text).parts.length - 1)
  obtain ⟨d', hmade, dir, hdir⟩ := makeDirs_ok hd (h.firstOf _) hopen (by rw [hown])
  rw [hown, startOf_firstOf, firstOf, ← List.dropLast_eq_take] at hdir
  refine ⟨d', ?_, ?_, dir, hdir⟩
  · rw [makeParents, hparent]
    exact hmade
  · have hleads :=
      pavedOn_makeDirs (firstOf text ((Location.ofText text).parts.length - 1)).toText d
    rwa [show resultOf _ d = (.ok (), d') from hmade] at hleads

/-- Change a file, with the directories above it. -/
def amend (text : String) (mode : Nat) (f : ByteArray → ByteArray) : Job Unit := do
  makeParents text
  change (·.alter text mode f)

/-- A file can be changed or put in place at a path: the system takes the path, its last piece is a
    name, no file is on the way to it and no directory at its end, not even one that is made on that
    way. -/
structure Ready (d : Disk) (parent text : String) : Prop where
  fits : Fits text
  named : ∃ init name, Location.pieces text = init ++ [name] ∧ Path.isComponent name = true
  below : Location.parentText? text = some parent
  opened : d.Open parent
  free : d.shapeAt (d.placeOf text) ≠ some .dir
  off : ¬ d.OnWay parent (d.placeOf text)

theorem amend_ok (hd : d.Grounded) {parent : String} (h : Ready d parent text) (mode : Nat)
    (f : ByteArray → ByteArray) : ∃ d', Yields (amend text mode f) d () d' := by
  obtain ⟨d₁, hmade, hpaved, dir, hdir⟩ := makeParents_ok hd h.fits h.below h.opened
  obtain ⟨init, name, hpieces, hname⟩ := h.named
  obtain ⟨s, hwalk, hlast, hslash⟩ := walk_name h.fits hpieces hname hdir
  have hplace : d₁.placeOf text = d.placeOf text := by rw [placeOf, placeOf, hpaved.cwd]
  have hstill : d₁.shapeAt s.parts ≠ some .dir := by
    rw [walk_parts hwalk, hplace]
    rcases hpaved.shapes (d.placeOf text) with hsame | ⟨hway, -⟩
    · rw [hsame]
      exact h.free
    · exact absurd hway h.off
  obtain ⟨d', halter⟩ :=
    alter_ok hwalk hlast hslash (allowed_of_fits h.fits hwalk _ hlast) hstill mode f
  exact ⟨d', yields_bind_iff.2 ⟨(), d₁, hmade, yields_change halter⟩⟩

/-- A name in the working directory can be put in place unless it is a directory. -/
theorem ready_here (hd : d.Grounded) {name : String} (hname : Path.isComponent name = true)
    (hshort : name.utf8ByteSize ≤ maxName) (hfree : d.shapeAt (d.cwd ++ [name]) ≠ some .dir) :
    Ready d "" name := by
  obtain ⟨hempty, hdot, hdots⟩ := Path.plain_of_isComponent hname
  have hslash := Path.slash_notMem_of_isComponent hname
  have hpieces : Location.pieces name = [name] := by
    rw [Location.pieces, Text.splitOn_of_notMem hslash, List.map_singleton, String.ofList_toList]
  have hrooted : Location.isRooted name = false :=
    decide_eq_false fun hhead => hslash (List.mem_of_head? hhead)
  have hplace : d.placeOf name = d.cwd ++ [name] := by
    rw [placeOf, piecesOf, hpieces, hrooted, if_neg Bool.false_ne_true,
      List.filter_cons_of_pos (by simpa using hempty)]
    simp [advance, hdot, hdots]
  have hway (place : List String) (h : d.OnWay "" place) : place = d.cwd := by
    obtain ⟨pieces, hfirst, rfl⟩ := h
    rw [show wayOf "" = [] from rfl, List.prefix_nil] at hfirst
    rw [hfirst]
    rfl
  refine ⟨⟨Path.nul_notMem_of_isComponent hname, by unfold maxName maxPath at *; omega, ?_⟩,
    ⟨[], name, hpieces, hname⟩, ?_, fun place hplace data hfile => ?_, hplace ▸ hfree,
    fun honWay => ?_⟩
  · rw [hpieces]
    simpa using hshort
  · rw [Location.parentText?, Location.ofText, hpieces, hrooted]
    simp [hempty, hdot, Location.parent?, Location.toText]
  · rw [hway place hplace] at hfile
    cases hd.symm.trans hfile
  · have hlength := congrArg List.length (hplace.symm.trans (hway _ honWay))
    simp at hlength

/-! ## What is left -/

/-- Nothing has changed on a disk but the file at a path, and directories that are new on the way to
    it. -/
structure Installed (parent text : String) (data : ByteArray) (d d' : Disk) : Prop where
  cwd : d'.cwd = d.cwd
  shapes : ∀ place, d'.shapeAt place = d.shapeAt place ∨
    d.OnWay parent place ∧ d.shapeAt place = none ∧ d'.shapeAt place = some .dir ∨
    place = d.placeOf text ∧ d'.shapeAt place = some (.file data)

/-- Whatever comes of changing a file. -/
theorem installed_amend (hd : d.Grounded) {parent : String}
    (hparent : Location.parentText? text = some parent) (mode : Nat) (f : ByteArray → ByteArray) :
    Installed parent text (f (d.contentAt (d.placeOf text))) d
      (resultOf (amend text mode f) d).2 := by
  have hpaved : PavedOn parent d (resultOf (makeParents text) d).2 := by
    rw [makeParents, hparent]
    exact pavedOn_makeDirs parent d
  have hready := paves_makeParents text d hd
  unfold amend
  rw [resultOf_bind]
  rcases hparents : resultOf (makeParents text) d with ⟨e | _, d₁⟩ <;>
    rw [hparents] at hpaved hready
  · exact ⟨hpaved.cwd, fun place => (hpaved.shapes place).imp_right Or.inl⟩
  · show Installed parent text _ d (resultOf (change _) d₁).2
    rcases resultOf_change (·.alter text mode f) d₁ with
      ⟨d₂, halter, hresult⟩ | ⟨e, -, hresult⟩ <;> rw [hresult]
    · have hd₁ := hready.grown.grounded hd
      refine ⟨(alter_eq_ok hd₁ halter).1.cwd.trans hpaved.cwd, fun place => ?_⟩
      have hsame : d₁.placeOf text = d.placeOf text := hready.grown.placeOf text
      rw [shapeAt_alter hd₁ halter, hsame]
      split_ifs with hplace
      · rw [hready.grown.contents place List.not_mem_nil, hplace]
        exact Or.inr (Or.inr ⟨rfl, rfl⟩)
      · exact (hpaved.shapes place).imp_right Or.inl
    · exact ⟨hpaved.cwd, fun place => (hpaved.shapes place).imp_right Or.inl⟩

/-- Whatever comes of putting a file in place. -/
theorem installed_install (hd : d.Grounded) {parent : String}
    (hparent : Location.parentText? text = some parent) (data : ByteArray) (mode : Nat) :
    Installed parent text data d (resultOf (install text (some data) mode) d).2 :=
  installed_amend hd hparent mode fun _ => data

/-- What can be put in place still can be when another file in the directory has been. -/
theorem Ready.installed {parent other : String} {data : ByteArray} (h : Ready d parent text)
    (hother : Ready d parent other) (hleft : Installed parent other data d d') :
    Ready d' parent text := by
  have hplace : d'.placeOf text = d.placeOf text := by rw [placeOf, placeOf, hleft.cwd]
  have hway (place : List String) : d'.OnWay parent place ↔ d.OnWay parent place := by
    rw [OnWay, startOf, hleft.cwd, ← startOf, ← OnWay]
  refine ⟨h.fits, h.named, h.below, fun place hthere data' hfile => ?_, fun hdir => ?_, ?_⟩
  · have honWay := (hway place).1 hthere
    rcases hleft.shapes place with hsame | ⟨-, -, hdir⟩ | ⟨rfl, -⟩
    · exact h.opened place honWay data' (hsame ▸ hfile)
    · cases hdir.symm.trans hfile
    · exact hother.off honWay
  · rw [hplace] at hdir
    rcases hleft.shapes (d.placeOf text) with hsame | ⟨honWay, -⟩ | ⟨-, hfile⟩
    · exact h.free (hsame ▸ hdir)
    · exact h.off honWay
    · cases hfile.symm.trans hdir
  · rw [hplace, hway]
    exact h.off

end Job

end Workbench.Host
