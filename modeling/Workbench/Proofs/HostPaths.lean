import Workbench.Proofs.ScratchCopies
import Workbench.Proofs.StagedWrites

set_option autoImplicit false

/-! # Paths below a root

A path that is joined to a root has the components of the root and then its own. So the paths at
which copies stand differ as the copied paths do, and none of them leads out of the directory. Of
the keys of files below a root those are refused that name no file or go upwards, and what stays
leads nowhere but down from the root. -/

namespace Workbench

namespace Host

namespace Location

/-- A path goes on from a base by some components. -/
structure Extends (base : String) (more : List String) (path : String) : Prop where
  isAbsolute : (ofText path).isAbsolute = (ofText base).isAbsolute
  parts : (ofText path).parts = (ofText base).parts ++ more

/-- Two paths that go on from one base are the same only if they go on in the same way. -/
theorem Extends.eq_of_eq {base path : String} {more more' : List String}
    (h : Extends base more path) (h' : Extends base more' path) : more = more' :=
  List.append_cancel_left (h.parts.symm.trans h'.parts)

/-! ## Joining -/

/-- A relative path that is joined to a base follows it after one slash. -/
theorem exists_join {base text : String} (hbase : base ≠ "") (htext : isRooted text = false) :
    ∃ init, (join base text).toList = init ++ '/' :: text.toList ∧
      (base.toList = init ∨ base.toList = init ++ ['/']) := by
  have hempty : base.isEmpty = false := Bool.eq_false_iff.2 (mt String.isEmpty_iff.1 hbase)
  rw [join, htext, hempty, Bool.or_false, if_neg Bool.false_ne_true]
  split
  · next hslash =>
    obtain ⟨init, hinit⟩ := List.getLast?_eq_some_iff.1 hslash
    refine ⟨init, ?_, Or.inr hinit⟩
    rw [String.toList_append, hinit, List.append_assoc, List.singleton_append]
  · refine ⟨base.toList, ?_, Or.inl rfl⟩
    rw [String.toList_append, String.toList_append, List.append_assoc]
    rfl

/-- After a slash the pieces of a text are those of what follows. -/
theorem pieces_of_append {text rest : String} {init : List Char}
    (h : text.toList = init ++ '/' :: rest.toList) :
    pieces text = pieces (String.ofList init) ++ pieces rest := by
  rw [pieces, h, Text.splitOn_append_sep, List.map_append, pieces, String.toList_ofList, pieces]

theorem pieces_ne_nil (text : String) : pieces text ≠ [] :=
  mt List.map_eq_nil_iff.1 (Text.splitOn_ne_nil '/' text.toList)

/-- Joining to a base keeps how the base begins, and goes on by the way of what is joined. -/
theorem extends_join {base text : String} (hbase : base ≠ "") (htext : isRooted text = false) :
    Extends base (Disk.wayOf text) (join base text) := by
  refine ⟨Package.isRooted_join base htext, ?_⟩
  obtain ⟨init, hjoin, hinit⟩ := exists_join hbase htext
  have hpieces := pieces_of_append hjoin
  -- a slash at the end of the base ends with a piece that counts for nothing
  have hown : ∃ rest, pieces base = pieces (String.ofList init) ++ rest ∧
      ∀ piece ∈ rest, piece = "" := by
    rcases hinit with rfl | hslash
    · exact ⟨[], by rw [String.ofList_toList, List.append_nil], by simp⟩
    · have hend : base.toList = init ++ '/' :: "".toList := hslash
      exact ⟨[""], pieces_of_append hend, by simp⟩
  obtain ⟨rest, hbasePieces, hrest⟩ := hown
  have hhead : (pieces (join base text)).head? = (pieces base).head? := by
    rw [hpieces, hbasePieces, List.head?_append_of_ne_nil _ (pieces_ne_nil _),
      List.head?_append_of_ne_nil _ (pieces_ne_nil _)]
  have hnamed : Disk.wayOf (join base text) = Disk.wayOf base ++ Disk.wayOf text := by
    have hnothing : rest.filter (fun piece => piece ≠ "" ∧ piece ≠ ".") = [] :=
      List.filter_eq_nil_iff.2 fun piece hpiece => by simp [hrest piece hpiece]
    simp only [Disk.wayOf, hpieces, hbasePieces, List.filter_append, hnothing, List.append_nil]
  unfold Disk.wayOf at hnamed
  rw [ofText, ofText, hhead, hnamed]
  dsimp only
  split <;> rfl

/-- What is joined to the empty base is left as it is. -/
theorem join_empty (text : String) : join "" text = text := by
  rw [join, String.isEmpty_iff.2 rfl, Bool.or_true, if_pos rfl]

theorem extends_empty {text : String} (htext : isRooted text = false) :
    Extends "" (ofText text).parts text :=
  ⟨htext, rfl⟩

/-- No component of a path is anything but one of its pieces. -/
theorem mem_pieces_of_mem_ofText {text part : String} (h : part ∈ (ofText text).parts) :
    part ∈ pieces text := by
  rw [ofText] at h
  dsimp only at h
  split at h
  · next hhead =>
    rcases List.mem_cons.1 h with rfl | h
    · exact List.mem_of_mem_head? hhead
    · exact List.mem_of_mem_filter h
  · exact List.mem_of_mem_filter h

/-- A relative path that is joined to a base goes on from it by its own pieces, as far as these lead
    anywhere. -/
theorem exists_extends (base : String) {text : String} (htext : isRooted text = false) :
    ∃ more, Extends base more (join base text) ∧ more ⊆ pieces text ∧
      more.filter (· ≠ ".") = Disk.wayOf text := by
  by_cases hbase : base = ""
  · subst hbase
    rw [join_empty]
    exact ⟨_, extends_empty htext, fun _ => mem_pieces_of_mem_ofText, Disk.filter_ofText_parts text⟩
  · exact ⟨_, extends_join hbase htext, fun _ => List.mem_of_mem_filter, Disk.filter_wayOf text⟩

/-- Without a piece that leads upwards a relative path goes down from its base. -/
theorem exists_extends_join (base : String) {text : String} (htext : isRooted text = false)
    (hdown : ".." ∉ pieces text) : ∃ more, ".." ∉ more ∧ Extends base more (join base text) := by
  obtain ⟨more, hextends, hmore, -⟩ := exists_extends base htext
  exact ⟨more, fun hmem => hdown (hmore hmem), hextends⟩

/-- A path that goes on without going upwards leads on from the place of its base by the components
    that lead anywhere. -/
theorem Extends.placeOf_eq {base path : String} {more : List String}
    (h : Extends base more path) (hdown : ".." ∉ more) (d : Disk) :
    d.placeOf path = d.placeOf base ++ more.filter (· ≠ ".") := by
  have hway : Disk.wayOf path = Disk.wayOf base ++ more.filter (· ≠ ".") := by
    rw [← Disk.filter_ofText_parts, h.parts, List.filter_append, Disk.filter_ofText_parts]
  have hstart : d.startOf path = d.startOf base := by
    have hrooted : isRooted path = isRooted base := h.isAbsolute
    rw [Disk.startOf, Disk.startOf, hrooted]
  have hadvance : ∀ piece ∈ more.filter (· ≠ "."), piece ≠ "." ∧ piece ≠ ".." := by
    intro piece hpiece
    obtain ⟨hmem, hdot⟩ := List.mem_filter.1 hpiece
    exact ⟨of_decide_eq_true hdot, fun hdots => hdown (hdots ▸ hmem)⟩
  rw [Disk.placeOf_eq_way, Disk.placeOf_eq_way, hway, hstart, List.foldl_append,
    Package.foldl_advance_of_ne _ _ hadvance]

theorem Extends.placeOf_prefix {base path : String} {more : List String}
    (h : Extends base more path) (hdown : ".." ∉ more) (d : Disk) :
    d.placeOf base <+: d.placeOf path := by
  rw [h.placeOf_eq hdown d]
  exact List.prefix_append _ _

end Location

end Host

/-! ## Copies -/

namespace FileSystem.Scratch

open Host (Location)

variable {World : Type} {p q : Path}

/-- The path at which a copy stands is the directory with the components of the copied path. -/
theorem extends_hostPath (s : Scratch World) (p : Path) :
    Location.Extends s.root p.parts (s.hostPath p) := by
  unfold hostPath
  split
  · next hroot =>
    rw [(Path.isRoot_iff p).1 hroot]
    exact ⟨rfl, (List.append_nil _).symm⟩
  · next hroot =>
    have hpieces : Location.pieces ("/".intercalate p.parts) = p.parts :=
      Path.pieces_intercalate (mt (Path.isRoot_iff p).2 hroot) p.proper
    have hrelative := Path.isRooted_intercalate (mt (Path.isRoot_iff p).2 hroot) p.proper
    have hplain : ∀ part ∈ p.parts, part ≠ "" ∧ part ≠ "." := by
      intro part hpart
      obtain ⟨hempty, hdot, -⟩ := Path.plain_of_isComponent (p.proper part hpart)
      exact ⟨hempty, hdot⟩
    have hway : Host.Disk.wayOf ("/".intercalate p.parts) = p.parts := by
      rw [Host.Disk.wayOf, hpieces]
      exact List.filter_eq_self.2 fun part hpart => decide_eq_true (hplain part hpart)
    by_cases hbase : s.root = ""
    · rw [hbase, Location.join_empty]
      have hparts : (Location.ofText ("/".intercalate p.parts)).parts = p.parts := by
        have hhead : p.parts.head? ≠ some "." :=
          fun hdot => (hplain "." (List.mem_of_mem_head? hdot)).2 rfl
        unfold Host.Disk.wayOf at hway
        rw [Location.ofText, hway, hpieces, if_neg hhead]
      have hextends := Location.extends_empty hrelative
      rwa [hparts] at hextends
    · have hextends := Location.extends_join hbase hrelative
      rwa [hway] at hextends

/-- Copies stand at different paths exactly if the copied paths are written differently. -/
theorem hostPath_inj (s : Scratch World) :
    s.hostPath p = s.hostPath q ↔ p.toString = q.toString := by
  rw [Path.toString_inj]
  refine ⟨fun h => ?_, s.hostPath_congr⟩
  have hq := s.extends_hostPath q
  rw [← h] at hq
  exact (s.extends_hostPath p).eq_of_eq hq

end FileSystem.Scratch

/-! ## Keys -/

namespace Asset.Folder

open Host (Disk Location)

/-- A key that stands for no file: nothing but slashes is in it, or a piece that leads upwards. -/
def Refused (key : String) : Prop :=
  (∀ c ∈ key.toList, c = '/') ∨ ".." ∈ Location.pieces key

/-- The slashes before a key are no part of its pieces but empty ones. -/
theorem dots_mem_splitOn_dropWhile (chars : List Char) :
    ['.', '.'] ∈ Text.splitOn '/' (chars.dropWhile (· == '/')) ↔
      ['.', '.'] ∈ Text.splitOn '/' chars := by
  induction chars with
  | nil => rfl
  | cons c chars ih =>
    by_cases hc : c = '/'
    · subst hc
      rw [List.dropWhile_cons_of_pos (by simp), ih, Text.splitOn_cons_sep, List.mem_cons]
      simp
    · rw [List.dropWhile_cons_of_neg (by simpa using hc)]

theorem dots_mem_pieces_iff (text : String) :
    ".." ∈ Location.pieces text ↔ ['.', '.'] ∈ Text.splitOn '/' text.toList := by
  rw [Location.pieces, List.mem_map]
  constructor
  · rintro ⟨chars, hchars, heq⟩
    have hdots : chars = ['.', '.'] := by
      rw [← String.toList_ofList (l := chars), heq]
      rfl
    exact hdots ▸ hchars
  · exact fun hmem => ⟨_, hmem, rfl⟩

theorem filePath?_eq_none_iff (root key : String) : filePath? root key = none ↔ Refused key := by
  have hslashes : (key.toList.dropWhile (· == '/')).isEmpty = true ↔
      ∀ c ∈ key.toList, c = '/' := by
    induction key.toList with
    | nil => simp
    | cons c chars ih => by_cases hc : c = '/' <;> simp [hc, ih]
  unfold filePath? Refused
  rw [dots_mem_pieces_iff, ← dots_mem_splitOn_dropWhile, ← hslashes]
  simp [or_iff_not_imp_left]

/-- A key that stands for a file leads down from the root. -/
theorem extends_filePath? {root key path : String} (h : filePath? root key = some path) :
    ∃ more, ".." ∉ more ∧ Location.Extends root more path := by
  have hallowed : ¬ Refused key := by
    rw [← filePath?_eq_none_iff root, h]
    simp
  unfold filePath? at h
  dsimp only at h
  split at h
  · cases h
  · cases h
    refine Location.exists_extends_join root ?_ fun hdots => hallowed (Or.inr ?_)
    · have hhead := List.head?_dropWhile_not (· == '/') key.toList
      rw [Location.isRooted, String.toList_ofList, decide_eq_false_iff_not]
      intro hslash
      rw [hslash] at hhead
      exact absurd hhead (by decide)
    · rw [dots_mem_pieces_iff, String.toList_ofList, dots_mem_splitOn_dropWhile] at hdots
      exact (dots_mem_pieces_iff key).2 hdots

theorem fetch_of_refused {key : String} (h : Refused key) (root : String) (d : Disk) :
    fetch root d key = .error (.invalidKey key) := by
  rw [fetch, (filePath?_eq_none_iff root key).2 h]

/-- What is fetched is what can be read at the path of the key, and nothing else is looked at. -/
theorem fetch_of_filePath? {root key path : String} (h : filePath? root key = some path) :
    (∀ d bytes, fetch root d key = .ok bytes ↔ d.read path = .ok bytes) ∧
      ∀ d d', d.read path = d'.read path → fetch root d key = fetch root d' key := by
  refine ⟨fun d bytes => ?_, fun d d' hread => ?_⟩
  · rw [fetch, h]
    dsimp only
    cases d.read path with
    | ok bytes' => simp
    | error e =>
      dsimp only
      split <;> simp
  · rw [fetch, fetch, h]
    dsimp only
    rw [hread]

/-- No key leads out of a root: it is refused, or one path below the root is read and nothing
    else. -/
inductive Inside (root key : String) : Prop where
  | refused : Refused key → (∀ d, fetch root d key = .error (.invalidKey key)) → Inside root key
  | read {path : String} {more : List String} : ¬ Refused key → Location.Extends root more path →
      ".." ∉ more → (∀ d : Disk, d.placeOf root <+: d.placeOf path) →
      (∀ d bytes, fetch root d key = .ok bytes ↔ d.read path = .ok bytes) →
      (∀ d d', d.read path = d'.read path → fetch root d key = fetch root d' key) →
      Inside root key

theorem inside (root key : String) : Inside root key := by
  cases hpath : filePath? root key with
  | none =>
    have hrefused := (filePath?_eq_none_iff root key).1 hpath
    exact .refused hrefused (fetch_of_refused hrefused root)
  | some path =>
    have hallowed : ¬ Refused key := by
      rw [← filePath?_eq_none_iff root, hpath]
      simp
    obtain ⟨more, hdown, hextends⟩ := extends_filePath? hpath
    obtain ⟨hread, hsame⟩ := fetch_of_filePath? hpath
    exact .read hallowed hextends hdown (hextends.placeOf_prefix hdown) hread hsame

end Asset.Folder

end Workbench
