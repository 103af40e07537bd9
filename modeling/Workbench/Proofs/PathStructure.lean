import Mathlib.Data.List.DropRight
import Workbench.Proofs.Making

set_option autoImplicit false

/-! # The structure of paths

A path that is not the root is its parent and its name: the name is the last component, it follows
the key of the parent's directory in the written form, and joining it to the parent leads back. Its
ancestors are the paths of the proper beginnings of its components, each the parent of the next and
the last its own parent. Where only the written form is kept, parent and name are what stands before
and behind its last slash. A path lies under the written form of a directory, ended by a slash,
exactly if it begins with the components of that directory, so a name that only begins alike does
not count. And its keys tell it from every other path. -/

namespace Workbench.Path

/-! ## Parent and name -/

/-- A path falls apart into its parent and its name. -/
structure Splits (p dir : Path) (name : String) : Prop where
  parent : p.parent? = some dir
  named : p.fileName? = some name
  parts : p.parts = dir.parts ++ [name]
  /-- In the written form the name is what follows the last slash. -/
  written : p.toString = dir.dirKey ++ name ∧ '/' ∉ name.toList
  joined : ∃ q, dir.join name = .ok q ∧ q.toString = p.toString

/-- A component leads from a directory to the path behind it. -/
theorem join_of_isComponent (dir : Path) {name : String} (h : isComponent name = true) :
    ∃ q, dir.join name = .ok q ∧ q.parts = dir.parts ++ [name] := by
  have hslash := slash_notMem_of_isComponent h
  have hrel : isAbsolute name = false :=
    decide_eq_false fun hhead => hslash (List.mem_of_head? hhead)
  obtain ⟨q, hq, hparts, -⟩ := scan_eq_ok dir (nul_notMem_of_isComponent h)
  refine ⟨q, ?_, ?_⟩
  · rw [join, hrel, if_neg Bool.false_ne_true, resolve_eq_scan dir (plain_of_isComponent h).1, hrel]
    exact hq
  · have hpieces : pieces name = [name] := by
      rw [pieces, Text.splitOn_of_notMem hslash, List.map_singleton, String.ofList_toList]
    rw [hparts, hpieces, List.foldl_cons, List.foldl_nil, enter_of_isComponent _ h]

theorem exists_splits {p : Path} (hp : p.parts ≠ []) : ∃ dir name, Splits p dir name := by
  obtain ⟨init, name, hparts⟩ := (List.eq_nil_or_concat' p.parts).resolve_left hp
  obtain ⟨dir, hdir, rfl⟩ := FileSystem.parent?_eq hparts
  have hname : isComponent name = true :=
    p.proper name (hparts ▸ List.mem_append_right _ (List.mem_singleton_self _))
  obtain ⟨q, hq, hjoined⟩ := join_of_isComponent dir hname
  refine ⟨dir, name, hdir, FileSystem.fileName?_eq hparts, hparts,
    ⟨?_, slash_notMem_of_isComponent hname⟩, q, hq, toString_inj.2 (hjoined.trans hparts.symm)⟩
  rw [← String.toList_inj, String.toList_append, toList_toString, if_neg hp, toList_dirKey, hparts]
  simp

/-! ## Ancestors -/

/-- The ancestors of a path are those of the proper beginnings of its components, outermost first,
    and each is the parent of what comes next. -/
structure Descends (p : Path) : Prop where
  parts : p.ancestors.map Path.parts = p.parts.inits.dropLast
  length : p.ancestors.length = p.parts.length
  last : p.ancestors.getLast? = p.parent?
  chain : (p.ancestors ++ [p]).IsChain fun upper lower => lower.parent? = some upper

/-- The path of the first components has as its parent the path of one component less. -/
theorem parent?_of_above {p q : Path} {n : Nat} (hn : n < p.parts.length)
    (hq : q.parts = p.parts.take (n + 1)) : q.parent? = some (p.above n) := by
  have hlength : q.parts.length = n + 1 := by
    rw [hq, List.length_take]
    omega
  have hroot : ¬ q.isRoot = true := by
    rw [isRoot_iff]
    exact List.ne_nil_of_length_eq_add_one hlength
  rw [parent?, if_neg hroot]
  refine congrArg some (Path.ext ?_ rfl)
  show q.parts.take (q.parts.length - 1) = p.parts.take n
  rw [hlength, hq, Nat.add_sub_cancel, List.take_take]
  congr 1
  omega

theorem length_ancestors (p : Path) : p.ancestors.length = p.parts.length := by
  rw [ancestors, List.length_map, List.length_range]

theorem getElem_ancestors {p : Path} {n : Nat} (hn : n < p.ancestors.length) :
    p.ancestors[n] = p.above n := by
  simp [ancestors]

theorem descends (p : Path) : Descends p where
  parts := by
    refine List.ext_getElem ?_ fun n hn hn' => ?_
    · rw [List.length_map, length_ancestors, List.length_dropLast, List.length_inits,
        Nat.add_sub_cancel]
    · rw [List.getElem_map, getElem_ancestors, List.getElem_dropLast, List.getElem_inits]
      rfl
  length := length_ancestors p
  last := by
    rcases List.eq_nil_or_concat' p.parts with hp | ⟨init, name, hp⟩
    · rw [ancestors, parent?, if_pos ((isRoot_iff p).2 hp), hp]
      rfl
    · have hlength : p.parts.length = init.length + 1 := by
        rw [hp, List.length_append, List.length_singleton]
      rw [ancestors, hlength, List.range_succ, List.map_append, List.map_singleton,
        List.getLast?_concat]
      exact (parent?_of_above (by omega) (by rw [← hlength, List.take_length])).symm
  chain := by
    rw [List.isChain_iff_getElem]
    intro n hn
    rw [List.length_append, length_ancestors, List.length_singleton] at hn
    have hupper : n < p.ancestors.length := by
      rw [length_ancestors]
      omega
    rw [List.getElem_append_left hupper, getElem_ancestors]
    refine parent?_of_above (by omega) ?_
    -- what comes next is the next ancestor, or behind the last one the path itself
    by_cases hlower : n + 1 < p.ancestors.length
    · rw [List.getElem_append_left hlower, getElem_ancestors]
      rfl
    · rw [length_ancestors] at hlower
      have hend : n + 1 = p.parts.length := by omega
      rw [List.getElem_append_right (by rw [length_ancestors]; omega), List.getElem_singleton, hend,
        List.take_length]

/-- The ancestors are reached by going from parent to parent, up to the root. -/
theorem ancestors_eq (p : Path) :
    p.ancestors = p.parent?.elim [] fun dir => dir.ancestors ++ [dir] := by
  rcases List.eq_nil_or_concat' p.parts with hp | ⟨init, name, hp⟩
  · rw [ancestors, parent?, if_pos ((isRoot_iff p).2 hp), hp]
    rfl
  · have hlength : p.parts.length = init.length + 1 := by
      rw [hp, List.length_append, List.length_singleton]
    have habove : (p.above init.length).parts = init := by
      show p.parts.take init.length = init
      rw [hp, List.take_left]
    rw [parent?_of_above (Nat.lt_of_lt_of_eq (Nat.lt_succ_self _) hlength.symm)
      (by rw [← hlength, List.take_length]), Option.elim_some, ancestors, ancestors, hlength, habove,
      List.range_succ, List.map_append, List.map_singleton]
    refine congrArg (· ++ [_]) (List.map_congr_left fun n hn => Path.ext ?_ rfl)
    show p.parts.take n = (p.above init.length).parts.take n
    rw [habove, hp, List.take_append_of_le_length (List.mem_range.1 hn).le]

/-! ## The written form

A path can be kept as its written form alone: its parent, its name and so its ancestors are found
from the last slash. -/

/-- What stands before the last slash of a text. -/
def beforeSlash (text : String) : String :=
  String.ofList (text.toList.rdropWhile (· != '/')).dropLast

/-- What stands behind the last slash of a text. -/
def behindSlash (text : String) : String := String.ofList (text.toList.rtakeWhile (· != '/'))

section Cut
variable (front : List Char) {back : List Char} (h : '/' ∉ back)
include h

theorem rdropWhile_append_slash :
    (front ++ '/' :: back).rdropWhile (· != '/') = front ++ ['/'] := by
  induction back using List.reverseRecOn with
  | nil => exact List.rdropWhile_concat_neg _ _ _ (by decide)
  | append_singleton back c ih =>
    have hc : c ≠ '/' := fun hc => h (hc ▸ List.mem_append_right _ (List.mem_singleton_self c))
    rw [← List.cons_append, ← List.append_assoc, List.rdropWhile_concat_pos _ _ _ (by simpa using hc)]
    exact ih fun hmem => h (List.mem_append_left _ hmem)

theorem rtakeWhile_append_slash : (front ++ '/' :: back).rtakeWhile (· != '/') = back := by
  have hcut : (front ++ ['/']) ++ (front ++ '/' :: back).rtakeWhile (· != '/') =
      (front ++ ['/']) ++ back := by
    rw [← rdropWhile_append_slash front h, List.rdropWhile_append_rtakeWhile,
      rdropWhile_append_slash front h, List.append_assoc, List.singleton_append]
  exact List.append_cancel_left hcut

end Cut

/-- The last slash stands between the written form of the parent, which is nothing if it is the
    root, and the name. -/
theorem Splits.cut {p dir : Path} {name : String} (h : Splits p dir name) :
    beforeSlash p.toString = (if dir.isRoot then "" else dir.toString) ∧
      behindSlash p.toString = name := by
  have htext : p.toString.toList = spell dir.parts ++ '/' :: name.toList := by
    rw [h.written.1, String.toList_append, toList_dirKey, List.append_assoc, List.singleton_append]
  constructor
  · rw [beforeSlash, htext, rdropWhile_append_slash _ h.written.2, List.dropLast_concat]
    split
    · next hroot => rw [(isRoot_iff dir).1 hroot]; rfl
    · next hroot =>
      rw [← String.toList_inj, String.toList_ofList, toList_toString,
        if_neg (mt (isRoot_iff dir).2 hroot)]
  · rw [behindSlash, htext, rtakeWhile_append_slash _ h.written.2, String.ofList_toList]

theorem toString_eq_slash_iff (p : Path) : p.toString = "/" ↔ p.isRoot = true := by
  rw [isRoot_iff]
  exact toString_inj (q := root)

/-- The written form of the parent is what stands before the last slash, or a lone slash if nothing
    does. -/
theorem toString_parent? (p : Path) :
    p.parent?.map toString =
      if p.toString = "/" then none
      else if beforeSlash p.toString = "" then some "/" else some (beforeSlash p.toString) := by
  split
  · next hp => rw [parent?, if_pos ((toString_eq_slash_iff p).1 hp), Option.map_none]
  · next hp =>
    obtain ⟨dir, name, h⟩ := exists_splits (mt (isRoot_iff p).2 (mt (toString_eq_slash_iff p).2 hp))
    rw [h.parent, Option.map_some, h.cut.1]
    by_cases hroot : dir.isRoot = true
    · rw [if_pos hroot, if_pos rfl, (toString_eq_slash_iff dir).2 hroot]
    · rw [if_neg hroot, if_neg]
      intro hnil
      have hhead := congrArg String.toList hnil
      rw [toString, String.toList_append] at hhead
      exact List.cons_ne_nil _ _ hhead

/-- The name is what stands behind the last slash. -/
theorem fileName?_eq (p : Path) :
    p.fileName? = if p.toString = "/" then none else some (behindSlash p.toString) := by
  split
  · next hp => 
    rw [fileName?, (isRoot_iff p).1 ((toString_eq_slash_iff p).1 hp), List.getLast?_nil]
  · next hp =>
    obtain ⟨dir, name, h⟩ := exists_splits (mt (isRoot_iff p).2 (mt (toString_eq_slash_iff p).2 hp))
    rw [h.named, h.cut.2]

/-! ## Prefixes and keys -/

/-- What a path lies under, its parent and its name, its ancestors and its keys are what its
    components make of them. -/
theorem structure_coherent (p : Path) :
    (p.isRoot = true ∧ p.parent? = none ∧ p.fileName? = none ∨ ∃ dir name, Splits p dir name) ∧
    Descends p ∧
    (∀ d : Path, p.liesUnder (if d.isRoot then "/" else d.toString ++ "/") = true ↔
      d.parts <+: p.parts) ∧
    ∀ q : Path, (p.dirKey = q.dirKey ↔ p.toString = q.toString) ∧
      (p.fileKey = q.fileKey ↔ p.toString = q.toString) ∧
      (p.fileKey = q.dirKey ↔ p.isRoot = true ∧ q.isRoot = true) := by
  refine ⟨?_, descends p, fun d => liesUnder_dirKey p d, fun q => ⟨?_, fileKey_inj.trans ?_, ?_⟩⟩
  · by_cases hp : p.parts = []
    · have hroot := (isRoot_iff p).2 hp
      refine Or.inl ⟨hroot, if_pos hroot, ?_⟩
      rw [fileName?, hp, List.getLast?_nil]
    · exact Or.inr (exists_splits hp)
  · rw [dirKey_inj, toString_inj]
  · rw [toString_inj]
  · rw [isRoot_iff, isRoot_iff, fileKey_eq_dirKey_iff]

/-- A name that begins with that of a directory, and one that begins with dots. -/
example :
    let d : Path := ⟨["prebuilt"], true, by decide, by decide⟩
    let p : Path := ⟨["prebuiltx", "..a"], false, by decide, by decide⟩
    p.liesUnder (d.toString ++ "/") = false ∧ d.liesUnder (d.toString ++ "/") = true ∧
      p.fileName? = some "..a" ∧ p.ancestors.map Path.toString = ["/", "/prebuiltx"] := by
  decide

end Workbench.Path
