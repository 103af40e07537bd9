import Workbench.Proofs.PathKeys

set_option autoImplicit false

/-! # The arithmetic of paths

A path that is read from a directory is where a walk over pieces ends: over those of the text if it
begins with a slash, and otherwise over those of the directory's own written form and then those of
the text. The walk is given here as a relation, one rule for each kind of piece, and it is exactly
what the reader does. That the written form of a directory can stand for the directory rests on
reading it back: its pieces are its components. So reading a text and then another from where the
first led is reading both, joined by a slash. -/

namespace Workbench.Path

/-! ## Walking -/

/-- A walk over pieces leads from some components to others. -/
inductive Walk : List String → List String → List String → Prop where
  | done (place : List String) : Walk place [] place
  /-- An empty piece and a dot lead nowhere. -/
  | stay {place pieces finish : List String} {piece : String} (idle : piece = "" ∨ piece = ".")
      (rest : Walk place pieces finish) : Walk place (piece :: pieces) finish
  /-- Two dots take the last component away. -/
  | up {place pieces finish : List String} (name : String) (rest : Walk place pieces finish) :
      Walk (place ++ [name]) (".." :: pieces) finish
  /-- Above the root is the root. -/
  | top {pieces finish : List String} (rest : Walk [] pieces finish) :
      Walk [] (".." :: pieces) finish
  /-- Any other piece is a component more. -/
  | down {place pieces finish : List String} {piece : String}
      (plain : piece ≠ "" ∧ piece ≠ "." ∧ piece ≠ "..")
      (rest : Walk (place ++ [piece]) pieces finish) : Walk place (piece :: pieces) finish

/-- Entering one piece after the other is walking. -/
theorem walk_foldl_enter (pieces place : List String) :
    Walk place pieces (pieces.foldl enter place) := by
  induction pieces generalizing place with
  | nil => exact .done place
  | cons piece pieces ih =>
    rw [List.foldl_cons]
    by_cases hidle : piece = "" ∨ piece = "."
    · rw [enter, if_pos hidle]
      exact .stay hidle (ih place)
    by_cases hup : piece = ".."
    · subst hup
      rw [enter, if_neg hidle, if_pos rfl]
      rcases List.eq_nil_or_concat' place with rfl | ⟨init, name, rfl⟩
      · exact .top (ih [])
      · rw [List.dropLast_concat]
        exact .up name (ih init)
    · rw [enter, if_neg hidle, if_neg hup]
      rw [not_or] at hidle
      exact .down ⟨hidle.1, hidle.2, hup⟩ (ih _)

/-- A walk ends where entering its pieces leads, and nowhere else. -/
theorem walk_iff {place pieces finish : List String} :
    Walk place pieces finish ↔ finish = pieces.foldl enter place := by
  constructor
  · intro h
    induction h with
    | done place => rfl
    | stay idle _ ih => rw [ih, List.foldl_cons, enter, if_pos idle]
    | up name _ ih => simp [ih, enter]
    | top _ ih => simp [ih, enter]
    | down plain _ ih =>
      obtain ⟨hempty, hdot, hdots⟩ := plain
      rw [ih, List.foldl_cons, enter, if_neg (not_or.2 ⟨hempty, hdot⟩), if_neg hdots]
  · intro h
    rw [h]
    exact walk_foldl_enter pieces place

/-! ## Pieces -/

/-- A slash between two texts parts the pieces of the one from those of the other. -/
theorem pieces_slash (a b : String) : pieces (a ++ "/" ++ b) = pieces a ++ pieces b := by
  have hchars : (a ++ "/" ++ b).toList = a.toList ++ '/' :: b.toList := by
    simp [String.toList_append]
  rw [pieces, hchars, Text.splitOn_append_sep, List.map_append, pieces, pieces]

/-- What follows a slash decides whether a directory is spelled. -/
theorem spellsDirectory_append (front : List String) (text : String) :
    spellsDirectory (front ++ pieces text) = spellsDirectory (pieces text) := by
  have hne : pieces text ≠ [] := mt List.map_eq_nil_iff.1 (Text.splitOn_ne_nil '/' text.toList)
  rw [spellsDirectory, spellsDirectory, List.getLast?_append_of_ne_nil _ hne]

/-- The pieces of a written path are its components, behind one that is empty; the root has an empty
    one more. -/
theorem pieces_toString (p : Path) :
    pieces p.toString = "" :: if p.parts = [] then [""] else p.parts := by
  rw [pieces, toList_toString]
  by_cases hp : p.parts = []
  · rw [if_pos hp, if_pos hp]
    rfl
  · rw [if_neg hp, if_neg hp, splitOn_spell p.proper]
    simp

/-- The written form of a directory leads back to it. -/
theorem foldl_pieces_toString (p : Path) : (pieces p.toString).foldl enter [] = p.parts := by
  rw [pieces_toString]
  by_cases hp : p.parts = []
  · rw [if_pos hp, hp]
    rfl
  · rw [if_neg hp, List.foldl_cons]
    exact foldl_enter_of_proper p.parts [] p.proper

/-! ## Written forms -/

/-- What a written path looks like. -/
structure Normal (text : String) : Prop where
  rooted : text.toList.head? = some '/'
  /-- No two slashes stand beside each other. -/
  single : ¬ ['/', '/'] <:+: text.toList
  plain : ∀ piece ∈ pieces text, piece ≠ "." ∧ piece ≠ ".."
  ending : text.toList.getLast? = some '/' → text = "/"

theorem not_slashes_spell {parts : List String} (h : ∀ part ∈ parts, isComponent part = true) :
    ¬ ['/', '/'] <:+: spell parts := by
  rintro ⟨front, back, hspell⟩
  -- between the two slashes there would be an empty component
  have hsplit := splitOn_spell h
  rw [← hspell, List.append_assoc, List.cons_append, Text.splitOn_append_sep,
    List.singleton_append, Text.splitOn_cons_sep] at hsplit
  obtain ⟨first, rest, hfront⟩ := List.exists_cons_of_ne_nil (Text.splitOn_ne_nil '/' front)
  rw [hfront, List.cons_append, List.cons_eq_cons] at hsplit
  have hempty : [] ∈ parts.map String.toList := by simp [← hsplit.2]
  obtain ⟨part, hpart, hnil⟩ := List.mem_map.1 hempty
  exact toList_ne_nil_of_isComponent (h part hpart) hnil

/-- Every path has a normal written form. -/
theorem normal_toString (p : Path) : Normal p.toString := by
  by_cases hp : p.parts = []
  · have htext : p.toString = "/" := by
      rw [← String.toList_inj, toList_toString, if_pos hp]
      rfl
    rw [htext]
    exact ⟨rfl, by decide, by decide, fun _ => rfl⟩
  · refine ⟨?_, ?_, fun piece hpiece => ?_, fun hlast => ?_⟩
    · obtain ⟨part, rest, hparts⟩ := List.exists_cons_of_ne_nil hp
      rw [toList_toString, if_neg hp, hparts, spell_cons]
      rfl
    · rw [toList_toString, if_neg hp]
      exact not_slashes_spell p.proper
    · rw [pieces_toString, if_neg hp] at hpiece
      rcases List.mem_cons.1 hpiece with rfl | hpart
      · decide
      · exact (plain_of_isComponent (p.proper piece hpart)).2
    · have hdir : false = true := (getLast?_key fun _ => hp).1 hlast
      exact absurd hdir (by decide)

/-! ## Reading from a directory -/

theorem resolve_ok_iff (cwd : Path) (text : String) :
    (∃ p, cwd.resolve text = .ok p) ↔ text ≠ "" ∧ '\x00' ∉ text.toList := by
  constructor
  · rintro ⟨p, hp⟩
    have hne : text ≠ "" := by
      rintro rfl
      cases hp
    refine ⟨hne, fun hnul => ?_⟩
    rw [resolve_eq_scan cwd hne, scan, dif_pos (by simpa using hnul)] at hp
    cases hp
  · rintro ⟨hne, hnul⟩
    obtain ⟨p, hp, -⟩ := scan_eq_ok (if isAbsolute text then root else cwd) hnul
    exact ⟨p, (resolve_eq_scan cwd hne).trans hp⟩

/-- The pieces that lead from the root to a text read from a directory. -/
def way (cwd : Path) (text : String) : List String :=
  if isAbsolute text then pieces text else pieces cwd.toString ++ pieces text

/-- A path that is read is where the walk over its way ends. -/
theorem parts_of_resolve {cwd p : Path} {text : String} (h : cwd.resolve text = .ok p) :
    p.parts = (way cwd text).foldl enter [] := by
  have hne : text ≠ "" := ((resolve_ok_iff cwd text).1 ⟨p, h⟩).1
  rw [resolve_eq_scan cwd hne] at h
  rw [(scan_ok h).1, way]
  split
  · rfl
  · rw [List.foldl_append, foldl_pieces_toString]

/-- Reading on from where a relative text has led is reading both texts with a slash between. -/
theorem resolve_resolve (cwd : Path) {a b : String} (ha : a ≠ "" ∧ '\x00' ∉ a.toList)
    (hb : b ≠ "" ∧ '\x00' ∉ b.toList) (harel : isAbsolute a = false)
    (hbrel : isAbsolute b = false) :
    ∃ p q, cwd.resolve a = .ok p ∧ p.resolve b = .ok q ∧
      cwd.resolve (a ++ "/" ++ b) = .ok q := by
  have hjoined : a ++ "/" ++ b ≠ "" := by simp
  have hrel : isAbsolute (a ++ "/" ++ b) = false := by
    obtain ⟨c, chars, hchars⟩ :=
      List.exists_cons_of_ne_nil (mt String.toList_eq_nil_iff.1 ha.1)
    rw [isAbsolute, hchars] at harel
    rw [isAbsolute, String.toList_append, String.toList_append, hchars]
    exact harel
  have hnul : '\x00' ∉ (a ++ "/" ++ b).toList := by
    simp [String.toList_append, ha.2, hb.2]
  obtain ⟨p, hp, hpparts, -⟩ := scan_eq_ok cwd ha.2
  obtain ⟨q, hq, hqparts, hqtrailing⟩ := scan_eq_ok p hb.2
  obtain ⟨r, hr, hrparts, hrtrailing⟩ := scan_eq_ok cwd hnul
  have hparts : r.parts = q.parts := by
    rw [hrparts, hqparts, hpparts, pieces_slash, List.foldl_append]
  -- the hint is read off the end of the text, and both texts end alike
  have htrailing : r.trailing = q.trailing := by
    rw [hrtrailing, hqtrailing, hparts, pieces_slash, spellsDirectory_append]
  refine ⟨p, q, ?_, ?_, ?_⟩
  · rw [resolve_eq_scan cwd ha.1, harel]
    exact hp
  · rw [resolve_eq_scan p hb.1, hbrel]
    exact hq
  · rw [resolve_eq_scan cwd hjoined, hrel]
    exact hr.trans (congrArg Except.ok (Path.ext hparts htrailing))

/-- Reading a text from a directory is arithmetic on components. -/
theorem resolve_arithmetic (cwd : Path) (text : String) :
    ((∃ p, cwd.resolve text = .ok p) ↔ text ≠ "" ∧ '\x00' ∉ text.toList) ∧
    (∀ p, cwd.resolve text = .ok p →
      (∀ parts, Walk [] (way cwd text) parts ↔ parts = p.parts) ∧
      p.toString = "/" ++ "/".intercalate p.parts ∧ Normal p.toString ∧
      ∃ q, parse p.toString = .ok q ∧ q.toString = p.toString) ∧
    (∀ more, isAbsolute text = false → isAbsolute more = false →
      text ≠ "" ∧ '\x00' ∉ text.toList → more ≠ "" ∧ '\x00' ∉ more.toList →
      ∃ p q, cwd.resolve text = .ok p ∧ p.resolve more = .ok q ∧
        cwd.resolve (text ++ "/" ++ more) = .ok q) ∧
    (isAbsolute text = true → ∀ other : Path, cwd.resolve text = other.resolve text) := by
  refine ⟨resolve_ok_iff cwd text, fun p hp => ?_, fun more htext hmore hok hmoreOk => ?_,
    fun habs other => ?_⟩
  · obtain ⟨q, hq, hparts⟩ := parse_toString p
    refine ⟨fun parts => ?_, rfl, normal_toString p, q, hq, toString_inj.2 hparts⟩
    rw [walk_iff, parts_of_resolve hp]
  · exact resolve_resolve cwd hok hmoreOk htext hmore
  · rw [resolve, resolve, habs]
    rfl

/-- A walk that leaves the root upwards, and a hint that only the last text gives. -/
theorem resolve_arithmetic_home :
    ∃ p q : Path, resolve ⟨["home", "go"], false, by decide, by decide⟩ "src/../a//" = .ok p ∧
      (∀ parts, Walk [] ["", "home", "go", "src", "..", "a", "", ""] parts ↔ parts = p.parts) ∧
      p.resolve "../../../../b/." = .ok q ∧
      resolve ⟨["home", "go"], false, by decide, by decide⟩ "src/../a///../../../../b/." = .ok q ∧
      q.toString = "/b" ∧ q.trailing = true := by
  obtain ⟨-, hread, hon, -⟩ :=
    resolve_arithmetic ⟨["home", "go"], false, by decide, by decide⟩ "src/../a//"
  obtain ⟨p, q, hp, hq, hboth⟩ :=
    hon "../../../../b/." (by decide) (by decide) (by decide) (by decide)
  have hplace : resolve ⟨["home", "go"], false, by decide, by decide⟩ "src/../a///../../../../b/." =
      .ok ⟨["b"], true, by decide, by decide⟩ := by decide +kernel
  have hfinish := Except.ok.inj (hboth.symm.trans hplace)
  refine ⟨p, q, hp, (hread p hp).1, hq, hboth, ?_, ?_⟩
  · rw [hfinish]
    decide +kernel
  · rw [hfinish]

end Workbench.Path
